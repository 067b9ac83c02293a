import RenderGraph.Proofs.CompilationKept
import RenderGraph.Proofs.FeedingPasses
import RenderGraph.Proofs.FrameRun
import RenderGraph.Proofs.StatesNamed

/-! Restoring states. After the last pass one batch brings the live resources that have to be left
in a certain state into it, so that every frame starts from the same states and leaves them behind
again. -/

namespace RenderGraph

namespace Brief

variable {b : Brief} {s : Schedule} {last : Draft} {r : ResourceId} {target : ResourceState}
  {t : Transition}

/-- The resource is live and has to be left in the given state. -/
def LeavesIn (b : Brief) (r : ResourceId) (target : ResourceState) : Prop :=
  b.survival.isLive r = true ∧
    ∃ resource, b.declaration.resource? r = some resource ∧ resource.restoreState = some target

/-- The schedule ends with the batch that restores states, if there is any to restore. The batch has
one transition for each resource that the last pass leaves in another state than it has to be left
in, and no others. -/
structure Restores (b : Brief) (s : Schedule) (last : Draft) (batch : List Transition) : Prop where
  drafted : b.draft = .ok last
  tracked : ∀ r target, b.LeavesIn r target → ∃ state, last.states r = some state
  once : batch.Pairwise fun t u => t.resource ≠ u.resource
  members : ∀ t, t ∈ batch ↔ b.LeavesIn t.resource t.after ∧
    last.states t.resource = some t.before ∧ t.before ≠ t.after ∧ t.hints = {}
  events : ∃ plain list, (∀ e ∈ plain, e.isPlain = true) ∧ s.events = last.events ++ plain ++
    (if batch = [] then [] else [.barriers list (batch.map .transition)]) ++ [.submit list]
  final : ∀ r target, b.LeavesIn r target → s.finalState r = some target

theorem holds_of_live (closed : b.declaration.Closed) (ordered : b.declaration.Ordered)
    (culled : b.survival = b.declaration.cull.survival) (drafted : b.draft = .ok last)
    (live : b.survival.isLive r = true) : last.Holds r := by
  rw [culled] at live
  obtain ⟨p, pass, survives, touches⟩ := Declaration.exists_touches_of_isLive live
  have member : (p, pass) ∈ b.live := by
    rw [Brief.live, culled]
    exact survives
  obtain ⟨_, touched⟩ := Draft.holds_recordAll (within_live closed)
    (supplied_live closed ordered culled) (recordAll_of_draft drafted)
  exact touched _ member r touches

theorem mem_restoration_iff : t ∈ last.restoration b ↔ b.LeavesIn t.resource t.after ∧
    last.states t.resource = some t.before ∧ t.before ≠ t.after ∧ t.hints = {} := by
  constructor
  · intro member
    obtain ⟨held, apart⟩ := Draft.mem_restoration member
    obtain ⟨⟨resource, i⟩, found, made⟩ := List.mem_filterMap.mp member
    have declared := List.mk_mem_zipIdx_iff_getElem?.mp found
    dsimp only [Draft.restores] at made
    split at made
    · rename_i live restores _
      split at made
      · cases made
      · cases made
        exact ⟨⟨live, resource, declared, restores⟩, held, apart, rfl⟩
    · cases made
  · rintro ⟨⟨live, resource, declared, restores⟩, held, apart, hints⟩
    have member := mem_restoration_of_ne live declared restores held apart
    cases t
    cases hints
    exact member

theorem finalState_finish (leaves : b.LeavesIn r target) (held : last.Holds r) :
    (b.finish last).finalState r = some target := by
  obtain ⟨live, resource, declared, restores⟩ := leaves
  obtain ⟨state, tracked⟩ := Option.isSome_iff_exists.mp held
  have inside : ∀ t ∈ last.restoration b, t.resource.index < last.tracks.length :=
    fun t member => Draft.inside_of_state (Draft.mem_restoration member).1
  rw [finish, Draft.finalState_toSchedule, Draft.states_finish inside, States.crossAll_apply,
    Draft.transitionsOf_map]
  cases final : ((last.restoration b).filter (·.resource == r)).getLast? with
  | some t =>
    obtain ⟨restored, same⟩ := List.mem_filter.mp (List.mem_of_getLast? final)
    have after := after_of_mem_restoration restored (eq_of_beq same ▸ declared) restores
    exact congrArg some after
  | none =>
    have none := List.getLast?_eq_none_iff.mp final
    rw [← state_of_unrestored live declared restores tracked none]
    exact tracked

theorem events_finish (closed : b.declaration.Closed) (drafted : b.draft = .ok last) :
    ∃ plain list, (∀ e ∈ plain, e.isPlain = true) ∧
      (b.finish last).events = last.events ++ plain ++ (if last.restoration b = [] then []
        else [.barriers list ((last.restoration b).map .transition)]) ++ [.submit list] := by
  obtain ⟨more, rest, plain, events, ends⟩ := last.events_finish (last.restoration b)
  rcases ends with ⟨none, _⟩ | ⟨some, list, _, rfl⟩
  · -- The list of the last pass is still open.
    obtain ⟨log, _, consistent, nonempty⟩ := Draft.consistent_draft closed drafted
    obtain ⟨queue, list, current⟩ := consistent.laid.exists_current nonempty
    refine ⟨[], list, by simp, ?_⟩
    simp [finish, none, Draft.restoreAll, Draft.submitCurrent, current, Draft.toSchedule,
      Draft.emit]
  · refine ⟨more, list, plain, ?_⟩
    rw [if_neg some]
    exact events.trans (by simp)

theorem exists_restores (closed : b.declaration.Closed) (ordered : b.declaration.Ordered)
    (culled : b.survival = b.declaration.cull.survival) (made : b.schedule = .ok s) :
    ∃ last batch, b.Restores s last batch := by
  obtain ⟨last, drafted, rfl⟩ := exists_draft made
  have held {r : ResourceId} (live : b.survival.isLive r = true) : last.Holds r :=
    holds_of_live closed ordered culled drafted live
  exact ⟨last, last.restoration b, {
    drafted
    tracked := fun _ _ leaves => Option.isSome_iff_exists.mp (held leaves.1)
    once := Draft.distinct_restoration b last
    members := fun _ => mem_restoration_iff
    events := events_finish closed drafted
    final := fun _ _ leaves => finalState_finish leaves (held leaves.1) }⟩

end Brief

namespace Session

variable {s s' t u : Session}

theorem Serves.currentState {c : Compilation} {frames : List (List Traffic)}
    (serves : t.Serves frames u) (held : t.graph.compilation = some c)
    (done : c.executed = true) (r : ResourceId) :
    u.graph.currentState r = c.schedule.finalState r := by
  obtain ⟨player, executed, held', still⟩ := serves.compilation held
  rw [Graph.currentState, held', still done]

/-- Every resource that has to be left in a certain state is left in it: in the schedule, by one
batch at its end, and by every frame that goes through, as long as the schedule is in use. -/
theorem states_restored (reachable : s.Reachable) (does : s.Does Graph.compile s') :
    ∃ c last batch, s'.graph.compilation = some c ∧
      (s'.graph.brief s'.graph.config.mergesReads).Restores c.schedule last batch ∧
      ∀ r target, (s'.graph.brief s'.graph.config.mergesReads).LeavesIn r target →
        ∀ frames t t', s'.Serves frames t → t.Does Graph.execute t' →
          ∀ later u, t'.Serves later u → u.graph.currentState r = some target := by
  obtain ⟨c, _, compiled, _, declaration, _⟩ := does.compiled
  have closed : s'.graph.declaration.Closed := declaration ▸ reachable.closed
  have ordered : s'.graph.declaration.Ordered := declaration ▸ reachable.ordered
  obtain ⟨last, batch, restores⟩ :=
    Brief.exists_restores (b := s'.graph.brief s'.graph.config.mergesReads) closed ordered
      compiled.survival compiled.schedule
  refine ⟨c, last, batch, compiled.compilation, restores, ?_⟩
  intro r target leaves frames t t' serves executes later u serves'
  obtain ⟨player, executed, held, _⟩ := serves.compilation compiled.compilation
  obtain ⟨c', player', held', _, after⟩ := executes.executed
  cases held.symm.trans held'
  exact (serves'.currentState after rfl r).trans (restores.final r target leaves)

/-! An image to be drawn to, which a compute pass writes. The compute queue does not support the
state that it has to be left in, so that it is restored on a graphics list of its own. -/

def filtered : Session := [
  .manage "image" { extent := .texture 8 8, format := .rgba8Unorm } .colorTarget,
  .declare "filter" .compute
    [.write ⟨0⟩ "image" .unorderedWrite [], .sideEffects true] none].foldl act (start {} [] {})

def filteredCull : CullResult :=
  ⟨{ passRefs := [1], resourceRefs := [0], live := [true] }, []⟩

theorem filtered_cull : filtered.graph.declaration.cull = filteredCull := by
  unfold filtered filteredCull
  cbv

def filteredBuilt : Session := filtered.built filteredCull

theorem filtered_compiles : filtered.Does Graph.compile filteredBuilt :=
  does_compile_of_fresh (by decide +kernel) (by decide +kernel) filtered_cull (by decide +kernel)

theorem filtered_restored : filtered.Reachable ∧ filtered.Does Graph.compile filteredBuilt ∧
    filteredBuilt.Does Graph.execute (filteredBuilt.act .execute) ∧
    (filteredBuilt.act .execute).graph.currentState ⟨0⟩ = some .renderTarget ∧
    ∃ c last batch, filteredBuilt.graph.compilation = some c ∧
      (filteredBuilt.graph.brief true).Restores c.schedule last batch ∧
      ⟨⟨0⟩, .unorderedAccess, .renderTarget, {}⟩ ∈ batch := by
  have reachable : filtered.Reachable := (Reachable.start {} [] {}).foldl _
  have executes : filteredBuilt.Does Graph.execute (filteredBuilt.act .execute) :=
    does_after (by decide +kernel)
  have merges : filteredBuilt.graph.config.mergesReads = true := by decide +kernel
  have leaves : (filteredBuilt.graph.brief true).LeavesIn ⟨0⟩ .renderTarget :=
    ⟨by decide +kernel, Option.bind_eq_some_iff.mp (by decide +kernel)⟩
  have tracked : (filteredBuilt.graph.brief true).draft.map (·.states ⟨0⟩) =
      .ok (some .unorderedAccess) := by decide +kernel
  obtain ⟨c, last, batch, held, restores, current⟩ :=
    states_restored reachable filtered_compiles
  rw [merges] at restores current
  rw [restores.drafted] at tracked
  refine ⟨reachable, filtered_compiles, executes,
    current ⟨0⟩ .renderTarget leaves [] _ _ .start executes [] _ .start,
    c, last, batch, held, restores, (restores.members _).mpr ⟨leaves, ?_, by decide, rfl⟩⟩
  exact Except.ok.inj tracked

end Session

end RenderGraph
