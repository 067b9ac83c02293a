import Mathlib.Data.List.DropRight
import RenderGraph.Proofs.BareDraft
import RenderGraph.Proofs.ReadMerging
import RenderGraph.Proofs.ScheduleBasis
import RenderGraph.Proofs.ScheduleMade

/-! Schedules with reads merged. They record the passes as schedules without do, with the same lists
and syncs, and bring the resources through at most as many transitions. -/

namespace RenderGraph

def Barrier.transition? : Barrier → Option Transition
  | transition t => some t
  | unordered _ => none

namespace Schedule

def transitions (s : Schedule) : List Transition := s.barriers.filterMap Barrier.transition?

/-- The events up to the last pass, without the barriers. -/
def recording (s : Schedule) : List Event :=
  (s.events.rdropWhile (·.recorded?.isNone)).filter (!·.isBarriers)

end Schedule

theorem transitionsOf_eq_filter (r : ResourceId) (batch : List Barrier) :
    transitionsOf r batch = (batch.filterMap Barrier.transition?).filter (·.resource == r) := by
  induction batch with
  | nil => rfl
  | cons barrier batch ih =>
    cases barrier with
    | unordered q => exact ih
    | transition t =>
      have here : (Barrier.transition t :: batch).filterMap Barrier.transition? =
          t :: batch.filterMap Barrier.transition? := rfl
      rw [transitionsOf, here, List.filter_cons, ih]
      simp only [beq_iff_eq]

theorem count_map_resource {α : Type} (resource : α → ResourceId) (xs : List α) (r : ResourceId) :
    (xs.map resource).count r = (xs.filter (resource · == r)).length := by
  rw [List.count, List.countP_map, List.countP_eq_length_filter]
  rfl

def movesIn (r : ResourceId) (events : List Event) : List Transition :=
  transitionsOf r (events.flatMap Event.batch)

section

variable {r : ResourceId} {events more : List Event}

theorem movesIn_append (r : ResourceId) (events more : List Event) :
    movesIn r (events ++ more) = movesIn r events ++ movesIn r more := by
  rw [movesIn, List.flatMap_append, transitionsOf_append]
  rfl

theorem movesIn_plain (plain : ∀ e ∈ events, e.isPlain = true) : movesIn r events = [] := by
  have none : events.flatMap Event.batch = [] := by
    rw [List.flatMap_eq_nil_iff]
    intro e member
    have plain := plain e member
    cases e with
    | barriers => cases plain
    | _ => rfl
  rw [movesIn, none]
  rfl

theorem movesIn_passBlock (r : ResourceId) (list : ListId) (batch : List Barrier) (p : PassId) :
    movesIn r (passBlock list batch p) = transitionsOf r batch := by
  unfold movesIn passBlock
  split
  · rename_i isEmpty
    rw [List.isEmpty_iff.mp isEmpty]
    rfl
  · simp [Event.batch]

end

namespace Brief

variable {b : Brief} {n : Nat} {r : ResourceId} {s s' : Schedule} {d d' : Draft}

/-- No pass reads a resource twice or writes one in a read-only state. -/
structure Plainly (b : Brief) : Prop where
  single : ∀ p pass, (p, pass) ∈ b.live → ∀ r, (pass.reads.filter (·.resource == r)).length ≤ 1
  changing : ∀ p pass, (p, pass) ∈ b.live → ∀ a ∈ pass.writes, a.state.isReadOnly = false

theorem saves_drafted (closed : b.declaration.Closed) (plainly : b.Plainly)
    (made : (b.merging true).schedule = .ok s) (made' : (b.merging false).schedule = .ok s')
    (within : n ≤ b.live.length)
    (drafted :
      Draft.recordAll (b.merging true) 0 (b.live.take n) { tracks := b.startTracks } = .ok d)
    (drafted' :
      Draft.recordAll (b.merging false) 0 (b.live.take n) { tracks := b.startTracks } = .ok d') :
    Saves b n r ((b.merging true).tracked n r) (movesIn r d.events).length
      ((b.merging false).tracked n r) (movesIn r d'.events).length := by
  induction n generalizing d d' with
  | zero =>
    cases drafted
    cases drafted'
    exact .level (Nat.le_refl _)
  | succ n ih =>
    obtain ⟨⟨p, pass⟩, entry⟩ : ∃ entry, b.live[n]? = some entry :=
      ⟨_, List.getElem?_eq_getElem within⟩
    have member := List.mem_of_getElem? entry
    obtain ⟨first, list, batch, turn⟩ := exists_turn (b := b.merging true) closed made entry
    obtain ⟨second, list', batch', turn'⟩ := exists_turn (b := b.merging false) closed made' entry
    obtain ⟨_, next, events⟩ := turn.next
    obtain ⟨_, next', events'⟩ := turn'.next
    cases next.symm.trans drafted
    cases next'.symm.trans drafted'
    have saves := ih (Nat.le_of_lt within) turn.drafted turn'.drafted
    have arrive (d : Draft) : movesIn r (d.arrive pass).events = movesIn r d.events := by
      obtain ⟨more, arrived, plain⟩ := d.continues_arrive pass
      rw [arrived, movesIn_append, movesIn_plain plain, List.append_nil]
    rw [events, events', movesIn_append, movesIn_append, movesIn_passBlock, movesIn_passBlock,
      arrive, arrive, List.length_append, List.length_append]
    exact saves.turn (plainly.single p pass member r) (plainly.changing p pass member) turn turn'

/-! The batch that restores states. -/

theorem resource_lastMove {last : Draft} {t : Transition} (moves : b.lastMove last r = some t) :
    t.resource = r := by
  unfold lastMove at moves
  split at moves
  · split at moves
    · cases moves
    · cases moves
      rfl
  · cases moves

theorem restored_congr (same : d.states r = d'.states r) :
    (d.restoration b).filter (·.resource == r) = (d'.restoration b).filter (·.resource == r) := by
  rw [restoration_eq, restoration_eq, List.filter_filterMap, List.filter_filterMap]
  refine List.filterMap_congr fun q _ => ?_
  by_cases here : q = r
  · rw [here, lastMove, lastMove, leftIn, leftIn, same]
  · have other (last : Draft) : (b.lastMove last q).filter (·.resource == r) = none := by
      rw [Option.filter_eq_none_iff]
      intro t moves
      rw [resource_lastMove moves]
      simpa using here
    rw [other, other]

theorem restored_le_one (b : Brief) (d : Draft) (r : ResourceId) :
    ((d.restoration b).filter (·.resource == r)).length ≤ 1 := by
  have once : ((d.restoration b).map (·.resource)).Nodup :=
    List.pairwise_map.mpr (Draft.distinct_restoration b d)
  rw [← count_map_resource]
  exact List.nodup_iff_count_le_one.mp once r

theorem movesIn_finish (closed : b.declaration.Closed) {last : Draft}
    (drafted : b.draft = .ok last) : movesIn r (b.finish last).events =
      movesIn r last.events ++ (last.restoration b).filter (·.resource == r) := by
  obtain ⟨plain, list, still, events⟩ := events_finish closed drafted
  have submits : movesIn r [.submit list] = [] := rfl
  rw [events, movesIn_append, movesIn_append, movesIn_append, movesIn_plain still, submits,
    List.append_nil, List.append_nil]
  split
  · rename_i none
    rw [none]
    rfl
  · rw [← Draft.transitionsOf_map]
    simp [movesIn, Event.batch]

theorem movesIn_le (closed : b.declaration.Closed) (plainly : b.Plainly)
    (made : (b.merging true).schedule = .ok s) (made' : (b.merging false).schedule = .ok s')
    (r : ResourceId) : (movesIn r s.events).length ≤ (movesIn r s'.events).length := by
  obtain ⟨last, drafted, rfl⟩ := exists_draft made
  obtain ⟨last', drafted', rfl⟩ := exists_draft made'
  have recorded := recordAll_of_draft drafted
  have recorded' := recordAll_of_draft drafted'
  rw [live_merging, ← b.live.take_length] at recorded recorded'
  have saves := saves_drafted (r := r) closed plainly made made' (Nat.le_refl _) recorded recorded'
  rw [tracked_of_drafted (b := b.merging true) recorded,
    tracked_of_drafted (b := b.merging false) recorded'] at saves
  rw [movesIn_finish (b := b.merging true) closed drafted,
    movesIn_finish (b := b.merging false) closed drafted', List.length_append, List.length_append]
  generalize held : last.states r = state at saves
  generalize held' : last'.states r = state' at saves
  have restored := restored_le_one (b.merging true) last r
  cases saves with
  | level le =>
    have same : (last.restoration (b.merging true)).filter (·.resource == r) =
        (last'.restoration (b.merging false)).filter (·.resource == r) :=
      restored_congr (b := b) (held.trans held'.symm)
    rw [same]
    exact Nat.add_le_add_right le _
  | ahead _ _ _ lt => omega
  | early _ next => exact absurd (next.symm.trans (b.nextUse_length r)) (Option.some_ne_none _)

theorem exists_record_of_draft (closed : b.declaration.Closed) {last : Draft}
    (drafted : b.draft = .ok last) : ∃ done list p, last.events = done ++ [.record list p] := by
  have made : b.schedule = .ok (b.finish last) := by
    rw [schedule, drafted]
    rfl
  have nonempty : b.live ≠ [] := by
    intro none
    rw [schedule_of_none none] at made
    cases made
  have within : b.live.length - 1 < b.live.length :=
    Nat.sub_one_lt (List.length_pos_iff.mpr nonempty).ne'
  obtain ⟨⟨p, pass⟩, entry⟩ : ∃ entry, b.live[b.live.length - 1]? = some entry :=
    ⟨_, List.getElem?_eq_getElem within⟩
  obtain ⟨d, list, batch, turn⟩ := exists_turn closed made entry
  obtain ⟨d', next, events⟩ := turn.next
  rw [Nat.sub_one_add_one (List.length_pos_iff.mpr nonempty).ne', List.take_length] at next
  cases next.symm.trans (recordAll_of_draft drafted)
  refine ⟨(d.arrive pass).events ++ if batch.isEmpty then [] else [.barriers list batch],
    list, p, ?_⟩
  rw [events, passBlock, List.append_assoc]

theorem rdropWhile_unrecorded {done later : List Event} {list : ListId} {p : PassId}
    (unrecorded : ∀ e ∈ later, e.recorded?.isNone = true) :
    (done ++ [Event.record list p] ++ later).rdropWhile (·.recorded?.isNone) =
      done ++ [.record list p] := by
  rw [List.rdropWhile, List.reverse_append,
    List.dropWhile_append_of_pos (by simpa using unrecorded)]
  exact List.rdropWhile_concat_neg _ _ (Event.record list p) (by simp [Event.recorded?])

theorem recording_finish (closed : b.declaration.Closed) {last : Draft}
    (drafted : b.draft = .ok last) : (b.finish last).recording = last.bare.events := by
  obtain ⟨done, into, p, ends⟩ := exists_record_of_draft closed drafted
  obtain ⟨plain, list, still, events⟩ := events_finish closed drafted
  have unrecorded : ∀ e ∈ plain ++ (if last.restoration b = [] then []
      else [.barriers list ((last.restoration b).map .transition)]) ++ [.submit list],
      e.recorded?.isNone = true := by
    intro e member
    rcases List.mem_append.mp member with before | submits
    · rcases List.mem_append.mp before with added | restores
      · have plain := still e added
        cases e with
        | record => cases plain
        | _ => rfl
      · split at restores
        · cases restores
        · cases List.mem_singleton.mp restores
          rfl
    · cases List.mem_singleton.mp submits
      rfl
  rw [Schedule.recording, events, List.append_assoc, List.append_assoc, ← List.append_assoc plain,
    ends, rdropWhile_unrecorded unrecorded, ← ends]
  rfl

theorem recording_eq (closed : b.declaration.Closed) (made : (b.merging true).schedule = .ok s)
    (made' : (b.merging false).schedule = .ok s') : s.recording = s'.recording := by
  obtain ⟨last, drafted, rfl⟩ := exists_draft made
  obtain ⟨last', drafted', rfl⟩ := exists_draft made'
  have same : last.bare = last'.bare :=
    Draft.bare_recordAll_eq (b := b.merging true) rfl (recordAll_of_draft drafted)
      (recordAll_of_draft (b := b.merging false) drafted')
  rw [recording_finish (b := b.merging true) closed drafted,
    recording_finish (b := b.merging false) closed drafted', same]

theorem transitions_le (closed : b.declaration.Closed) (plainly : b.Plainly)
    (made : (b.merging true).schedule = .ok s) (made' : (b.merging false).schedule = .ok s') :
    s.transitions.length ≤ s'.transitions.length := by
  have fewer : (s.transitions.map (·.resource)).Subperm (s'.transitions.map (·.resource)) := by
    refine List.subperm_ext_iff.mpr fun r _ => ?_
    have moves (s : Schedule) : (s.transitions.map (·.resource)).count r =
        (movesIn r s.events).length := by
      rw [count_map_resource, movesIn, transitionsOf_eq_filter]
      rfl
    rw [moves, moves]
    exact movesIn_le closed plainly made made' r
  simpa using fewer.length_le

end Brief

namespace Session

variable {s s' : Session}

/-- Merging reads only saves transitions. Whatever is declared, as long as no pass reads a resource
twice or writes one in a read-only state: every session that compiles it has one of two schedules,
by whether it merges reads. Up to the last pass they are the same but for barriers, and the one with
reads merged has at most as many transitions, those that restore states included. -/
theorem merging_saves_transitions (reachable : s.Reachable)
    (single : ∀ pass ∈ s.graph.declaration.passes, (pass.reads.map (·.resource)).Nodup)
    (changing : ∀ pass ∈ s.graph.declaration.passes, ∀ a ∈ pass.writes, a.state.isReadOnly = false)
    (does : s.Does Graph.compile s') :
    ∃ merged plain, (s'.graph.brief true).schedule = .ok merged ∧
      (s'.graph.brief false).schedule = .ok plain ∧
      (∀ t t' : Session, t.graph.declaration = s.graph.declaration → t.Does Graph.compile t' →
        ∃ c, t'.graph.compilation = some c ∧
          c.schedule = if t.graph.config.mergesReads then merged else plain) ∧
      merged.recording = plain.recording ∧
      merged.transitions.length ≤ plain.transitions.length := by
  obtain ⟨c, _, compiled, _, declaration, _⟩ := does.compiled
  have closed : s'.graph.declaration.Closed := declaration ▸ reachable.closed
  have ordered : s'.graph.declaration.Ordered := declaration ▸ reachable.ordered
  have live : (s'.graph.brief true).live ≠ [] := by
    intro none
    have none' : (s'.graph.brief s'.graph.config.mergesReads).live = [] := none
    have made := compiled.schedule
    rw [Brief.schedule_of_none none'] at made
    cases made
  obtain ⟨merged, made⟩ := Brief.schedule_of_live (b := s'.graph.brief true) closed ordered
    compiled.survival live
  obtain ⟨plain, made'⟩ := Brief.schedule_of_live (b := s'.graph.brief false) closed ordered
    compiled.survival live
  have plainly : (s'.graph.brief true).Plainly := by
    have declared {p : PassId} {pass : Pass} (member : (p, pass) ∈ (s'.graph.brief true).live) :
        pass ∈ s.graph.declaration.passes :=
      declaration ▸ Declaration.mem_passes_of_mem_survivors member
    constructor
    · intro p pass member r
      rw [← count_map_resource]
      exact List.nodup_iff_count_le_one.mp (single pass (declared member)) r
    · exact fun p pass member => changing pass (declared member)
  refine ⟨merged, plain, made, made', fun t t' same does' => ?_,
    Brief.recording_eq (b := s'.graph.brief true) closed made made',
    Brief.transitions_le (b := s'.graph.brief true) closed plainly made made'⟩
  obtain ⟨c', _, compiled', _, declaration', config', _⟩ := does'.compiled
  have brief (merges : Bool) : t'.graph.brief merges = s'.graph.brief merges := by
    rw [Graph.brief, Graph.brief, compiled'.survival, compiled.survival, declaration', declaration,
      same]
  have held := compiled'.schedule
  rw [brief, config'] at held
  refine ⟨c', compiled'.compilation, ?_⟩
  cases merges : t.graph.config.mergesReads with
  | true =>
    rw [merges, made] at held
    exact (Except.ok.inj held).symm
  | false =>
    rw [merges, made'] at held
    exact (Except.ok.inj held).symm

/-! An image that is drawn and then looked at by two passes on the graphics queue, in another
read-only state by each. -/

def sampled : Session := [
  .manage "image" { extent := .texture 8 8, format := .rgba8Unorm } .colorTarget,
  .declare "draw" .graphics [.write ⟨0⟩ "image" .colorTarget []] none,
  .declare "light" .graphics
    [.read ⟨0⟩ "image" .nonPixelShaderRead [], .sideEffects true] none,
  .declare "show" .graphics
    [.read ⟨0⟩ "image" .pixelShaderRead [], .sideEffects true] none].foldl act (start {} [] {})

def sampledCull : CullResult :=
  ⟨{ passRefs := [1, 0, 0], resourceRefs := [2], live := [true] }, []⟩

theorem sampled_cull : sampled.graph.declaration.cull = sampledCull := by
  unfold sampled sampledCull
  cbv

def sampledBuilt : Session := sampled.built sampledCull

theorem sampled_compiles : sampled.Does Graph.compile sampledBuilt :=
  does_compile_of_fresh (by decide +kernel) (by decide +kernel) sampled_cull (by decide +kernel)

theorem sampled_merged : sampled.Reachable ∧ sampled.Does Graph.compile sampledBuilt ∧
    ∃ merged plain, (sampledBuilt.graph.brief true).schedule = .ok merged ∧
      (sampledBuilt.graph.brief false).schedule = .ok plain ∧
      merged.recording = plain.recording ∧
      merged.transitions.length = 2 ∧ plain.transitions.length = 3 := by
  have reachable : sampled.Reachable := (Reachable.start {} [] {}).foldl _
  obtain ⟨merged, plain, made, made', _, recording, _⟩ := merging_saves_transitions reachable
    (by decide +kernel) (by decide +kernel) sampled_compiles
  have two : (sampledBuilt.graph.brief true).schedule.map (·.transitions.length) = .ok 2 := by
    decide +kernel
  have three : (sampledBuilt.graph.brief false).schedule.map (·.transitions.length) = .ok 3 := by
    decide +kernel
  rw [made] at two
  rw [made'] at three
  exact ⟨reachable, sampled_compiles, merged, plain, made, made', recording, Except.ok.inj two,
    Except.ok.inj three⟩

end Session

end RenderGraph
