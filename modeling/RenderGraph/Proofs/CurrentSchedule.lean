import RenderGraph.Proofs.CompileFailure
import RenderGraph.Proofs.ScheduleBasis

/-! No schedule is out of date. As long as a graph counts as compiled, its schedule is the one that
culling and scheduling the declaration as it is now lead to, whatever earlier compilations left.
Otherwise nothing is executed. -/

namespace RenderGraph

namespace Resource

variable {bound other : Copy}

theorem startTrack_of_imported (x : Resource) (imported : x.origin = .imported bound) :
    { x with origin := .imported other }.startTrack = x.startTrack := by
  obtain ⟨_, origin, _⟩ := x
  cases imported
  rfl

theorem restoreState_of_imported (x : Resource) (imported : x.origin = .imported bound) :
    { x with origin := .imported other }.restoreState = x.restoreState := by
  obtain ⟨_, origin, _, _, finalUsage, _⟩ := x
  cases imported
  cases finalUsage <;> rfl

end Resource

namespace Graph

variable {g g' : Graph} {r : ResourceId} {f : Copy → Copy} {rig : Rig}

def IsCurrent (g : Graph) : Prop :=
  g.dirty = false → ∀ c, g.compilation = some c → g.culledBrief.schedule = .ok c.schedule

theorem isCurrent_of_none (none : g.compilation = none) : g.IsCurrent := by
  intro _ c held
  rw [none] at held
  cases held

theorem isCurrent_of_dirty (dirty : g.dirty = true) : g.IsCurrent := by
  intro clean
  rw [dirty] at clean
  cases clean

theorem schedule_of_rebind (closed : g.declaration.Closed) (rebound : g.rebind r f = .ok g') :
    g'.culledBrief.schedule = g.culledBrief.schedule := by
  unfold rebind at rebound
  cases found : g.declaration.getResource r with
  | error misuse =>
    rw [found] at rebound
    cases rebound
  | ok resource =>
    rw [found] at rebound
    obtain ⟨name, origin, _⟩ := resource
    cases origin with
    | managed | transient => cases rebound
    | imported bound =>
      cases rebound
      have imported (x : Resource) (held : g.declaration.resource? r = some x) :
          ∃ copy, x.origin = .imported copy := by
        rw [Declaration.getResource, held] at found
        cases found
        exact ⟨bound, rfl⟩
      refine Declaration.schedule_modifyResource closed g.config.mergesReads ?_ ?_
      · intro x held
        obtain ⟨copy, origin⟩ := imported x held
        exact x.startTrack_of_imported origin
      · intro x held
        obtain ⟨copy, origin⟩ := imported x held
        exact x.restoreState_of_imported origin

theorem run_cull_brief (g : Graph) (rig : Rig) :
    ∃ result culled after, cull.run g rig = (.ok result, culled, after) ∧
      culled.brief culled.config.mergesReads = g.culledBrief :=
  ⟨_, _, _, rfl, rfl⟩

theorem run_execute_of_not_isCompiled (uncompiled : g.isCompiled = false) (rig : Rig) :
    execute.run g rig = (.error .notCompiled, g, rig) := by
  unfold execute
  rw [Op.run_bind, Op.run_read]
  dsimp only
  split
  · rename_i clean held
    simp [isCompiled, clean, held] at uncompiled
  · rfl

end Graph

namespace Session

variable {s : Session}

theorem same_or_none_of_release {next : Op Graph Unit} (keeps : next.Keeps (·.compilation)) :
    (s.after (Graph.release >>= fun _ => next)).graph = s.graph ∨
      (s.after (Graph.release >>= fun _ => next)).graph.compilation = none := by
  unfold after
  rw [Op.run_bind]
  rcases ran : Graph.release.run s.graph s.rig with ⟨failure | ⟨⟩, released, rig⟩
  · exact Or.inl (Graph.release_error ran).1
  · exact Or.inr ((keeps released rig).trans (Graph.compilation_of_release ran))

theorem isCurrent_after_release {next : Op Graph Unit} (current : s.graph.IsCurrent)
    (keeps : next.Keeps (·.compilation)) :
    (s.after (Graph.release >>= fun _ => next)).graph.IsCurrent := by
  rcases s.same_or_none_of_release keeps with same | none
  · rwa [same]
  · exact Graph.isCurrent_of_none none

theorem isCurrent_rebound (current : s.graph.IsCurrent) (closed : s.graph.declaration.Closed)
    (r : ResourceId) (f : Copy → Copy) : (s.rebound (s.graph.rebind r f)).graph.IsCurrent := by
  cases rebinding : s.graph.rebind r f with
  | error misuse => exact current
  | ok g =>
    obtain ⟨declaration, same⟩ := s.rebound_eq r f
    rw [rebinding] at same
    have graph : g = { s.graph with declaration } := congrArg Session.graph same
    intro clean c held
    have schedule := Graph.schedule_of_rebind closed rebinding
    rw [graph] at clean held
    exact schedule.trans (current clean c held)

theorem isCurrent_compile (current : s.graph.IsCurrent) : (s.act .compile).graph.IsCurrent := by
  rcases ran : Graph.compile.run s.graph s.rig with ⟨failure | ⟨⟩, g, rig⟩
  · have left : (s.act .compile).graph = g := congrArg (·.2.1) ran
    rw [left]
    rcases Graph.compile_error_cases ran with ⟨same, _⟩ | none
    · rwa [same]
    · exact Graph.isCurrent_of_none none
  · have does : s.Does Graph.compile (s.act .compile) := does_after (congrArg (·.1.isOk) ran)
    obtain ⟨c, _, compiled, _⟩ := does.compiled
    intro _ c' held
    cases compiled.compilation.symm.trans held
    have schedule := compiled.schedule
    rwa [Graph.brief, compiled.survival] at schedule

theorem isCurrent_execute (current : s.graph.IsCurrent) : (s.act .execute).graph.IsCurrent := by
  have left : (s.act .execute).graph = (Graph.execute.run s.graph s.rig).2.1 := rfl
  rw [left]
  rcases Graph.execute_cases s.graph s.rig with idle | ⟨c, held, played⟩
  · rwa [idle]
  · rw [played]
    intro clean _ held'
    cases held'
    exact current clean c held

theorem Reachable.isCurrent (reachable : s.Reachable) : s.graph.IsCurrent := by
  induction reachable with
  | start config faults journal => exact Graph.isCurrent_of_none rfl
  | @act s reachable a current =>
    cases a with
    | importResource | manage | declare => exact Graph.isCurrent_of_dirty rfl
    | update r native => exact isCurrent_rebound current reachable.closed r _
    | updateView r kind view => exact isCurrent_rebound current reachable.closed r _
    | setFrameIndex | useData | clearData | plan | refuseResources => exact current
    | setFrameCount n => exact isCurrent_after_release current (Op.keeps_update fun _ => rfl)
    | compile => exact isCurrent_compile current
    | execute => exact isCurrent_execute current
    | drain =>
      have keeps : Graph.drain.Keeps id := Graph.keeps_drain
      have same : (s.act .drain).graph = s.graph := keeps s.graph s.rig
      rwa [same]
    | reset =>
      refine isCurrent_after_release current ((Op.keeps_update ?_).bind fun _ => Op.keeps_note _ _)
      exact fun _ => rfl

/-- If a graph counts as compiled, its schedule is the one that culling and scheduling lead to on
any graph of the same declaration that merges reads alike, whatever else that graph holds. If it
does not, executing it is refused and makes no call. -/
theorem schedule_current (reachable : s.Reachable) :
    (s.graph.isCompiled = true → ∃ schedule, s.graph.schedule? = some schedule ∧
      ∀ g rig, g.declaration = s.graph.declaration →
        g.config.mergesReads = s.graph.config.mergesReads →
        ∃ result culled after, Graph.cull.run g rig = (.ok result, culled, after) ∧
          (culled.brief culled.config.mergesReads).schedule = .ok schedule) ∧
    (s.graph.isCompiled = false →
      Graph.execute.run s.graph s.rig = (.error .notCompiled, s.graph, s.rig)) := by
  constructor
  · intro counts
    rw [Graph.isCompiled, Bool.and_eq_true, Bool.not_eq_true', Option.isSome_iff_exists] at counts
    obtain ⟨⟨c, held⟩, clean⟩ := counts
    refine ⟨c.schedule, by rw [Graph.schedule?, held, Option.map_some], ?_⟩
    intro g rig declaration merges
    obtain ⟨result, culled, after, ran, brief⟩ := Graph.run_cull_brief g rig
    have same : g.culledBrief = s.graph.culledBrief := by
      rw [Graph.culledBrief, Graph.culledBrief, declaration, merges]
    refine ⟨result, culled, after, ran, ?_⟩
    rw [brief, same]
    exact reachable.isCurrent clean c held
  · exact fun uncompiled => Graph.run_execute_of_not_isCompiled uncompiled s.rig

def filteredMore : Session :=
  [.execute, .declare "overlay" .graphics [.sideEffects true] none].foldl act filteredBuilt

theorem filtered_schedule_current : filteredBuilt.Reachable ∧
    (∃ schedule, filteredBuilt.graph.schedule? = some schedule ∧
      ∃ result culled after,
        Graph.cull.run { declaration := filtered.graph.declaration } {} =
          (.ok result, culled, after) ∧
        (culled.brief culled.config.mergesReads).schedule = .ok schedule) ∧
    filteredMore.Reachable ∧ filteredMore.graph.schedule?.isSome = true ∧
    Graph.execute.run filteredMore.graph filteredMore.rig =
      (.error .notCompiled, filteredMore.graph, filteredMore.rig) := by
  have reachable : filteredBuilt.Reachable := by
    have declared : filtered.Reachable := (Reachable.start {} [] {}).foldl _
    rw [← filtered_compiles.after_eq]
    exact declared.act .compile
  have later : filteredMore.Reachable := reachable.foldl _
  obtain ⟨schedule, stored, current⟩ := (schedule_current reachable).1 (by decide +kernel)
  refine ⟨reachable, ⟨schedule, stored, current _ _ (by decide +kernel) (by decide +kernel)⟩,
    later, by decide +kernel, ?_⟩
  exact (schedule_current later).2 (by decide +kernel)

end Session

end RenderGraph
