import RenderGraph.Proofs.CompilationSound
import RenderGraph.Proofs.FenceOwners
import RenderGraph.Proofs.ReleaseResult
import RenderGraph.Proofs.ReplaySteady
import RenderGraph.Proofs.ResidencyPlaced
import RenderGraph.Proofs.ScheduleGrammar
import RenderGraph.Proofs.ScheduleMade

/-! What a schedule finds on the scene it is replayed on. Barriers are for live resources only,
which have copies from the compilation on, and whatever is recorded stays declared, until the
declaration changes and the graph has to be compiled again. -/

namespace RenderGraph

/-- The scene has copies of every resource that the schedule has barriers for, and every pass that
it records. -/
structure Schedule.StagedOn (s : Schedule) (scene : Scene) : Prop where
  copies : ∀ list batch, .barriers list batch ∈ s.events → ∀ x ∈ batch, scene.copies x.resource ≠ []
  passes : ∀ list p, .record list p ∈ s.events →
    ∃ pass, scene.declaration.pass? p = some pass

/-! Barriers are for live resources. -/

theorem Continues.mem_of_not_isPlain {events later : List Event}
    (continues : Continues events later) {e : Event} (filling : e.isPlain = false)
    (member : e ∈ later) : e ∈ events := by
  obtain ⟨more, rfl, plain⟩ := continues
  rcases List.mem_append.mp member with old | new
  · exact old
  · rw [plain e new] at filling
    cases filling

namespace Brief

variable {b : Brief} {s : Schedule} {d : Draft} {list : ListId} {batch : List Barrier} {x : Barrier}

theorem live_of_mem_restoration {t : Transition} (restored : t ∈ d.restoration b) :
    b.survival.isLive t.resource = true ∧ t.resource.index < b.declaration.resources.length := by
  obtain ⟨⟨resource, i⟩, member, made⟩ := List.mem_filterMap.mp restored
  have inside := (List.getElem?_eq_some_iff.mp (List.mk_mem_zipIdx_iff_getElem?.mp member)).1
  dsimp only [Draft.restores] at made
  split at made
  · rename_i live _ _
    split at made
    · cases made
    · cases made
      exact ⟨live, inside⟩
  · cases made

theorem mem_events_or_restoration (member : .barriers list batch ∈ (b.finish d).events) :
    .barriers list batch ∈ d.events ∨ batch = (d.restoration b).map .transition := by
  have restored : .barriers list batch ∈ (d.restoreAll (d.restoration b)).events :=
    (Draft.continues_submitCurrent _).mem_of_not_isPlain rfl member
  by_cases none : d.restoration b = []
  · rw [none] at restored
    exact Or.inl restored
  · rw [Draft.keeps_restoreAll Draft.events (fun _ _ => rfl) none] at restored
    rcases List.mem_append.mp restored with old | new
    · have continues : Continues d.events (d.restoring (d.restoration b)).events :=
        (d.continues_enter _).trans (Draft.continues_syncAll _ _ _)
      exact Or.inl (continues.mem_of_not_isPlain rfl old)
    · cases List.mem_singleton.mp new
      exact Or.inr rfl

theorem live_of_barrier (closed : b.declaration.Closed)
    (culled : b.survival = b.declaration.cull.survival) (made : b.schedule = .ok s)
    (member : .barriers list batch ∈ s.events) (named : x ∈ batch) :
    b.survival.isLive x.resource = true ∧ x.resource.index < b.declaration.resources.length := by
  obtain ⟨d, drafted, rfl⟩ := exists_draft made
  obtain ⟨log, same, consistent, _⟩ := Draft.consistent_draft closed drafted
  rcases mem_events_or_restoration member with old | rfl
  · obtain ⟨n, held⟩ := List.mem_iff_getElem?.mp old
    obtain ⟨e, recorded, _, touches⟩ := consistent.batched n list batch held
    have survives : (e.id, e.pass) ∈ b.live := same ▸ List.mem_map.mpr ⟨e, recorded, rfl⟩
    obtain ⟨a, access, equal⟩ := List.any_eq_true.mp (touches x named)
    have inside := closed _ (Declaration.mem_passes_of_mem_survivors survives) a access
    rw [eq_of_beq equal] at inside
    refine ⟨?_, inside⟩
    rw [culled]
    rw [live, culled] at survives
    exact Declaration.isLive_of_touches survives (touches x named) inside
  · obtain ⟨t, restored, rfl⟩ := List.mem_map.mp named
    exact live_of_mem_restoration restored

end Brief

/-! Scenes. -/

namespace Scene

variable {s : Scene} {r : ResourceId}

theorem copies_ne_nil (inside : r.index < s.declaration.resources.length)
    (owned : ∀ resource, s.declaration.resource? r = some resource →
      resource.origin.isImported = false → s.residency.copiesOf r ≠ []) : s.copies r ≠ [] := by
  obtain ⟨resource, found⟩ : ∃ resource, s.declaration.resource? r = some resource :=
    ⟨_, List.getElem?_eq_getElem inside⟩
  have own := owned resource found
  unfold copies
  rw [found]
  obtain ⟨name, origin, _⟩ := resource
  cases origin with
  | imported bound => exact List.cons_ne_nil _ _
  | managed | transient => exact own rfl

theorem native?_of_copies (some : s.copies r ≠ []) (frameIndex : Nat) :
    ∃ native, s.native? r frameIndex = .some native := by
  have inside : frameIndex % (s.copies r).length < (s.copies r).length :=
    Nat.mod_lt _ (List.length_pos_of_ne_nil some)
  refine ⟨((s.copies r)[frameIndex % (s.copies r).length]).native, ?_⟩
  rw [native?, copy?, List.getElem?_eq_getElem inside, Option.map_some]

theorem resource?_of_copies (some : s.copies r ≠ []) :
    ∃ resource, s.declaration.resource? r = .some resource := by
  unfold copies at some
  cases found : s.declaration.resource? r with
  | none =>
    rw [found] at some
    exact absurd rfl some
  | some resource => exact ⟨resource, rfl⟩

def rebind (s : Scene) (q : ResourceId) (bound : Copy) : Scene :=
  { s with declaration := s.declaration.modifyResource q ({ · with origin := .imported bound }) }

theorem copies_rebind {q : ResourceId} {bound : Copy} (some : s.copies r ≠ []) :
    (s.rebind q bound).copies r ≠ [] := by
  obtain ⟨resource, found⟩ := resource?_of_copies some
  have modified : (s.rebind q bound).declaration.resource? r =
      .some (if q.index = r.index then { resource with origin := .imported bound }
        else resource) := by
    unfold Declaration.resource? at found ⊢
    rw [rebind, Declaration.modifyResource, List.getElem?_modify, found]
    rfl
  unfold copies at some ⊢
  rw [modified]
  by_cases same : q.index = r.index
  · rw [if_pos same]
    exact List.cons_ne_nil _ _
  · rwa [if_neg same, ← found]

end Scene

theorem Schedule.StagedOn.rebind {s : Schedule} {scene : Scene} (staged : s.StagedOn scene)
    (q : ResourceId) (bound : Copy) : s.StagedOn (scene.rebind q bound) where
  copies list batch member x named := Scene.copies_rebind (staged.copies list batch member x named)
  passes := staged.passes

namespace Graph

def Staged (g : Graph) : Prop :=
  g.dirty = false → ∀ c, g.compilation = some c → c.schedule.StagedOn g.scene

variable {g g' : Graph} {rig rig' : Rig}

theorem staged_of_none (none : g.compilation = none) : g.Staged := by
  intro _ c held
  rw [none] at held
  cases held

theorem upholds_drain_staged : drain.Upholds fun g _ => g.Staged := by
  intro g rig staged
  have keeps : drain.Keeps id := keeps_drain
  have kept : (drain.run g rig).2.1 = g := keeps g rig
  exact kept.symm ▸ staged

theorem upholds_release_staged {next : Op Graph Unit}
    (ends : ∀ g rig, g.compilation = none → (next.run g rig).2.1.Staged) :
    (release >>= fun _ => next).Upholds fun g _ => g.Staged :=
  upholds_of_release upholds_drain_staged fun _ _ g' rig' _ ran =>
    ends g' rig' (compilation_of_release ran)

theorem upholds_setFrameCount_staged (n : Nat) :
    (setFrameCount n).Upholds fun g _ => g.Staged :=
  upholds_release_staged fun _ _ none => staged_of_none none

theorem upholds_reset_staged : reset.Upholds fun g _ => g.Staged :=
  upholds_release_staged fun _ _ none => staged_of_none none

theorem upholds_execute_staged : execute.Upholds fun g _ => g.Staged := by
  refine upholds_execute_of_play fun g rig c executed staged held clean => ?_
  rintro _ ⟨⟩
  exact staged clean c held

end Graph

namespace Session

variable {s t : Session}

theorem Does.staged (reachable : s.Reachable) (does : s.Does Graph.compile t) :
    t.graph.Staged := by
  obtain ⟨c, _, compiled, _, declaration, _⟩ := does.compiled
  have closed : t.graph.declaration.Closed := declaration ▸ reachable.closed
  intro _ c' held
  cases compiled.compilation.symm.trans held
  constructor
  · intro list batch member x named
    obtain ⟨live, inside⟩ := Brief.live_of_barrier closed compiled.survival compiled.schedule
      member named
    exact Scene.copies_ne_nil inside fun resource found owned =>
      (does.copiesOf_ne_nil_iff x.resource).mpr ⟨live, resource, found, owned⟩
  · intro list p member
    obtain ⟨blocks, consists⟩ := Brief.consists_of_schedule closed compiled.schedule
    have recorded : p ∈ c.schedule.recordedPasses := List.mem_filterMap.mpr ⟨_, member, rfl⟩
    rw [consists.recorded] at recorded
    obtain ⟨⟨_, pass⟩, survives, rfl⟩ := List.mem_map.mp recorded
    exact ⟨pass, (Declaration.mem_survivors.mp survives).1⟩

theorem staged_rebound (staged : s.graph.Staged) (r : ResourceId) (f : Copy → Copy) :
    (s.rebound (s.graph.rebind r f)).graph.Staged := by
  unfold Graph.rebind
  cases s.graph.declaration.getResource r with
  | error misuse => exact staged
  | ok resource =>
    obtain ⟨name, origin, _⟩ := resource
    cases origin with
    | imported bound => exact fun clean c held => (staged clean c held).rebind r (f bound)
    | managed | transient => exact staged

theorem Reachable.staged (reachable : s.Reachable) : s.graph.Staged := by
  induction reachable with
  | start config faults journal => exact Graph.staged_of_none rfl
  | @act s reachable a staged =>
    cases a with
    | importResource | manage | declare => exact fun clean => by cases clean
    | setFrameIndex | useData | clearData | plan | refuseResources => exact staged
    | update r native => exact staged_rebound staged r _
    | updateView r kind view => exact staged_rebound staged r _
    | setFrameCount n => exact Graph.upholds_setFrameCount_staged n s.graph s.rig staged
    | compile =>
      rcases ran : Graph.compile.run s.graph s.rig with ⟨failure | ⟨⟩, g, rig⟩
      · have left : (s.act .compile).graph = g := congrArg (·.2.1) ran
        rw [left]
        rcases Graph.compile_error_cases ran with ⟨rfl, _⟩ | none
        · exact staged
        · exact Graph.staged_of_none none
      · have does : s.Does Graph.compile (s.act .compile) := does_after (by rw [ran]; rfl)
        exact does.staged reachable
    | execute => exact Graph.upholds_execute_staged s.graph s.rig staged
    | drain => exact Graph.upholds_drain_staged s.graph s.rig staged
    | reset => exact Graph.upholds_reset_staged s.graph s.rig staged

end Session

end RenderGraph
