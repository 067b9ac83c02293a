import RenderGraph.Proofs.CreatedOnce
import RenderGraph.Proofs.StatesRestored
import RenderGraph.Proofs.SurvivalClosure

/-! What a schedule goes by: the surviving passes, the states at the start of a frame and those that
live resources are left in at its end. Everything else about the resources, the copies bound to them
among it, can change without another schedule being due. -/

namespace RenderGraph

namespace Declaration

theorem filterMap_rows {α : Type} (d : Declaration) (f : ResourceId → Resource → Option α) :
    (d.resources.zipIdx.filterMap fun (x, i) => f ⟨i⟩ x) =
      d.resourceIds.filterMap fun r => (d.resource? r).bind (f r) := by
  have named : d.resourceIds = d.resources.zipIdx.map fun entry => ⟨entry.2⟩ := by
    rw [resourceIds, List.range_eq_range', ← List.zipIdx_map_snd 0, List.map_map]
    rfl
  rw [named, List.filterMap_map]
  apply List.filterMap_congr
  rintro ⟨x, i⟩ member
  have declared : d.resource? ⟨i⟩ = some x := List.mk_mem_zipIdx_iff_getElem?.mp member
  rw [Function.comp_apply, declared, Option.bind_some]

end Declaration

def Resource.startTrack (resource : Resource) (live : Bool) : Track :=
  match resource.origin with
  | .imported _ => { state := some resource.initialState }
  | .managed => { state := if live then some resource.initialState else none }
  | .transient _ => {}

namespace Brief

variable {b b' : Brief} {last : Draft} {r : ResourceId}

theorem startTracks_eq (b : Brief) : b.startTracks =
    (b.declaration.resources.map Resource.startTrack).zipIdx.map fun (start, i) =>
      start (b.survival.isLive ⟨i⟩) := by
  rw [List.zipIdx_map, List.map_map]
  rfl

theorem startTracks_congr
    (starts : b'.declaration.resources.map Resource.startTrack =
      b.declaration.resources.map Resource.startTrack)
    (live : ∀ r, b'.survival.isLive r = b.survival.isLive r) :
    b'.startTracks = b.startTracks := by
  simp only [startTracks_eq, starts, live]

/-- Both record the same passes from the same states. -/
structure Alike (b b' : Brief) : Prop where
  live : b'.live = b.live
  merges : b'.mergesReads = b.mergesReads
  starts : b'.startTracks = b.startTracks

theorem Alike.targetState (alike : b.Alike b') : b'.targetState = b.targetState := by
  funext ordinal queue a output
  simp only [Brief.targetState, Brief.usesOf, alike.live, alike.merges]

theorem Alike.serveAll (alike : b.Alike b') (ordinal : Nat) (queue : Queue) (output : Bool)
    (accesses : List Access) (served : Draft × List Barrier) :
    Draft.serveAll b' ordinal queue output accesses served =
      Draft.serveAll b ordinal queue output accesses served := by
  induction accesses generalizing served with
  | nil => rfl
  | cons a rest ih =>
    obtain ⟨d, batch⟩ := served
    rw [Draft.serveAll, Draft.serveAll, alike.targetState]
    split
    · rfl
    · exact ih _

theorem Alike.recordPass (alike : b.Alike b') (d : Draft) (ordinal : Nat) (p : PassId)
    (pass : Pass) : d.recordPass b' ordinal p pass = d.recordPass b ordinal p pass := by
  simp only [Draft.recordPass, alike.serveAll]

theorem Alike.recordAll (alike : b.Alike b') (ordinal : Nat) (entries : List (PassId × Pass))
    (d : Draft) : Draft.recordAll b' ordinal entries d = Draft.recordAll b ordinal entries d := by
  induction entries generalizing ordinal d with
  | nil => rfl
  | cons entry rest ih =>
    obtain ⟨p, pass⟩ := entry
    rw [Draft.recordAll, Draft.recordAll, alike.recordPass]
    split
    · rfl
    · exact ih _ _

theorem Alike.draft (alike : b.Alike b') : b'.draft = b.draft := by
  rw [Brief.draft, Brief.draft, alike.live, alike.starts, alike.recordAll]

def leftIn (b : Brief) (last : Draft) (r : ResourceId) : Option ResourceState :=
  match b.survival.isLive r, (b.declaration.resource? r).bind (·.restoreState), last.states r with
  | true, some target, some _ => some target
  | _, _, state => state

theorem leftIn_of_leavesIn {target : ResourceState} (leaves : b.LeavesIn r target)
    (held : last.Holds r) : b.leftIn last r = some target := by
  obtain ⟨live, resource, declared, restores⟩ := leaves
  obtain ⟨state, tracked⟩ := Option.isSome_iff_exists.mp held
  rw [leftIn, live, declared, Option.bind_some, restores, tracked]

theorem leftIn_of_not_leavesIn (kept : ∀ target, b.LeavesIn r target → ¬ last.Holds r) :
    b.leftIn last r = last.states r := by
  unfold leftIn
  split
  · rename_i target state live restores tracked
    obtain ⟨resource, declared, restores⟩ := Option.bind_eq_some_iff.mp restores
    exact absurd (Option.isSome_iff_exists.mpr ⟨state, tracked⟩)
      (kept target ⟨live, resource, declared, restores⟩)
  · rfl

theorem transitionsOf_restoration_of_kept
    (kept : ∀ target, b.LeavesIn r target → ¬ last.Holds r) :
    transitionsOf r ((last.restoration b).map .transition) = [] := by
  rw [Draft.transitionsOf_map, List.filter_eq_nil_iff]
  intro t member here
  obtain ⟨leaves, held, _⟩ := mem_restoration_iff.mp member
  have same : t.resource = r := eq_of_beq here
  exact kept t.after (same ▸ leaves) (Option.isSome_iff_exists.mpr ⟨t.before, same ▸ held⟩)

theorem finalState_finish_eq (b : Brief) (last : Draft) (r : ResourceId) :
    (b.finish last).finalState r = b.leftIn last r := by
  by_cases restored : ∃ target, b.LeavesIn r target ∧ last.Holds r
  · obtain ⟨target, leaves, held⟩ := restored
    rw [finalState_finish leaves held, leftIn_of_leavesIn leaves held]
  · push Not at restored
    have inside : ∀ t ∈ last.restoration b, t.resource.index < last.tracks.length :=
      fun t member => Draft.inside_of_state (Draft.mem_restoration member).1
    rw [leftIn_of_not_leavesIn restored, finish, Draft.finalState_toSchedule,
      Draft.states_finish inside, States.crossAll_apply,
      transitionsOf_restoration_of_kept restored]
    rfl

def lastMove (b : Brief) (last : Draft) (r : ResourceId) : Option Transition :=
  match last.states r, b.leftIn last r with
  | some current, some target =>
    if current = target then none else some ⟨r, current, target, {}⟩
  | _, _ => none

theorem restores_eq_lastMove (b : Brief) (last : Draft) (r : ResourceId) :
    (b.declaration.resource? r).bind (last.restores b r) = b.lastMove last r := by
  unfold lastMove leftIn
  cases declared : b.declaration.resource? r with
  | none => cases last.states r <;> simp
  | some resource =>
    have same : (last.track r).state = last.states r := rfl
    rw [Option.bind_some, Option.bind_some, Draft.restores, same]
    cases b.survival.isLive r <;> cases resource.restoreState <;> cases last.states r <;> simp

theorem restoration_eq (b : Brief) (last : Draft) : last.restoration b =
    b.declaration.resourceIds.filterMap (b.lastMove last) :=
  calc last.restoration b
      = b.declaration.resourceIds.filterMap fun r =>
          (b.declaration.resource? r).bind (last.restores b r) :=
        b.declaration.filterMap_rows (last.restores b)
    _ = b.declaration.resourceIds.filterMap (b.lastMove last) :=
        congrArg (List.filterMap · _) (funext (b.restores_eq_lastMove last))

theorem restoration_congr
    (length : b'.declaration.resources.length = b.declaration.resources.length)
    (left : ∀ r, b'.leftIn last r = b.leftIn last r) :
    last.restoration b' = last.restoration b := by
  have moves : b'.lastMove last = b.lastMove last := by
    funext r
    rw [lastMove, lastMove, left]
  rw [restoration_eq, restoration_eq, moves, Declaration.resourceIds, Declaration.resourceIds,
    length]

/-- Whatever schedules the two have, both leave the resource in the same state. -/
def EndsAs (b b' : Brief) (r : ResourceId) : Prop :=
  ∀ s s', b.schedule = .ok s → b'.schedule = .ok s' → s'.finalState r = s.finalState r

theorem Alike.endsAs_iff (alike : b.Alike b') :
    b.EndsAs b' r ↔ ∀ last, b.draft = .ok last → b'.leftIn last r = b.leftIn last r := by
  unfold EndsAs schedule
  rw [alike.draft]
  cases b.draft with
  | error reason => simp [Except.map]
  | ok last => simp [Except.map, finalState_finish_eq]

theorem Alike.schedule_eq_iff (alike : b.Alike b')
    (length : b'.declaration.resources.length = b.declaration.resources.length) :
    b'.schedule = b.schedule ↔ ∀ r, b.EndsAs b' r := by
  constructor
  · intro same r s s' made made'
    cases made.symm.trans (same.symm.trans made')
    rfl
  · intro ends
    have left (r : ResourceId) := alike.endsAs_iff.mp (ends r)
    rw [schedule, schedule, alike.draft]
    cases drafted : b.draft with
    | error reason => rfl
    | ok last =>
      simp only [Except.map, finish, restoration_congr length fun r => left r last drafted]

theorem Alike.endsAs (alike : b.Alike b') (live : b'.survival.isLive r = b.survival.isLive r)
    (restores : b.survival.isLive r = true →
      (b'.declaration.resource? r).bind (·.restoreState) =
        (b.declaration.resource? r).bind (·.restoreState)) : b.EndsAs b' r := by
  refine alike.endsAs_iff.mpr fun last _ => ?_
  rw [leftIn, leftIn, live]
  cases kept : b.survival.isLive r with
  | true => rw [restores kept]
  | false => rfl

end Brief

namespace Declaration

def culledBrief (d : Declaration) (mergesReads : Bool) : Brief := ⟨d, d.cull.survival, mergesReads⟩

theorem schedule_modifyResource {d : Declaration} (closed : d.Closed) {r : ResourceId}
    {f : Resource → Resource} (mergesReads : Bool)
    (starts : ∀ x, d.resource? r = some x → (f x).startTrack = x.startTrack)
    (restores : ∀ x, d.resource? r = some x → (f x).restoreState = x.restoreState) :
    ((d.modifyResource r f).culledBrief mergesReads).schedule =
      (d.culledBrief mergesReads).schedule := by
  have closed' := closed.modifyResource r f
  have survivors : (d.modifyResource r f).surviving = d.surviving :=
    surviving_congr closed closed' fun _ _ => rfl
  have live := isLive_congr closed closed' survivors
  have alike : (d.culledBrief mergesReads).Alike
      ((d.modifyResource r f).culledBrief mergesReads) :=
    ⟨survivors, rfl, Brief.startTracks_congr (map_modify_of_kept starts) live⟩
  refine (alike.schedule_eq_iff (List.length_modify ..)).mpr fun q =>
    alike.endsAs (live q) fun _ => ?_
  change ((d.modifyResource r f).resource? q).bind _ = (d.resource? q).bind _
  rw [resource?_modifyResource]
  split
  · rename_i here
    subst here
    cases held : d.resource? r with
    | none => rfl
    | some x => exact restores x held
  · rfl

end Declaration

end RenderGraph
