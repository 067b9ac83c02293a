import RenderGraph.Proofs.Declared
import RenderGraph.Proofs.DraftRecord
import RenderGraph.Proofs.TransitionChain

/-! What recording a pass does to the states of the resources. Serving an access leaves its resource
in a state that satisfies it, by a transition that fits the ones before it in the batch. -/

namespace RenderGraph

namespace ResourceState

variable {a b c held required target : ResourceState}

theorem covers_iff_satisfies : held.Covers required ↔ held.satisfies required = true := by
  simp only [Covers, satisfies, Bool.or_eq_true, Bool.and_eq_true, beq_iff_eq]
  constructor
  · rintro (same | ⟨readOnly, readOnly', contains⟩)
    · exact Or.inl same
    · exact Or.inr ⟨⟨readOnly', readOnly⟩, contains⟩
  · rintro (same | ⟨⟨readOnly', readOnly⟩, contains⟩)
    · exact Or.inl same
    · exact Or.inr ⟨readOnly, readOnly', contains⟩

theorem contains_iff : a.contains b = true ↔
    ∀ i : Nat, b.bits.getLsbD i = true → a.bits.getLsbD i = true := by
  simp only [contains, beq_iff_eq]
  constructor
  · intro equal i held
    rw [← equal, BitVec.getLsbD_and, Bool.and_eq_true] at held
    exact held.1
  · intro includes
    apply BitVec.eq_of_getLsbD_eq
    intro i _
    rw [BitVec.getLsbD_and]
    cases held : b.bits.getLsbD i with
    | false => rw [Bool.and_false]
    | true => rw [includes i held, Bool.and_true]

theorem contains_trans (first : a.contains b = true) (second : b.contains c = true) :
    a.contains c = true :=
  contains_iff.mpr fun i held => contains_iff.mp first i (contains_iff.mp second i held)

theorem contains_union_right (a b : ResourceState) : (a ∪ b).contains b = true := by
  apply contains_iff.mpr
  intro i held
  rw [bits_union, BitVec.getLsbD_or, held, Bool.or_true]

theorem union_of_contains (contains : a.contains b = true) : a ∪ b = a := by
  refine congrArg mk (BitVec.eq_of_getLsbD_eq fun i _ => ?_)
  rw [BitVec.getLsbD_or]
  cases inside : b.bits.getLsbD i with
  | false => rw [Bool.or_false]
  | true => rw [Bool.or_true, contains_iff.mp contains i inside]

theorem isReadOnly_union (left : a.isReadOnly = true) (right : b.isReadOnly = true) :
    (a ∪ b).isReadOnly = true := by
  simp only [isReadOnly, meets, Bool.and_eq_true, bne_iff_ne, ne_eq, Bool.not_eq_true',
    bne_eq_false_iff_eq] at left right ⊢
  constructor
  · intro empty
    apply left.1
    have zero : a.bits ||| b.bits = 0 := congrArg bits empty
    have none : a.bits = 0 := (BitVec.or_eq_zero_iff.mp zero).1
    exact congrArg mk none
  · have parts : (a.bits ||| b.bits) &&& writable.bits =
        a.bits &&& writable.bits ||| b.bits &&& writable.bits := by
      apply BitVec.eq_of_getLsbD_eq
      intro i _
      simp only [BitVec.getLsbD_and, BitVec.getLsbD_or, Bool.and_or_distrib_right]
    rw [bits_union, parts, left.2, right.2]
    rfl

theorem satisfies_self (a : ResourceState) : a.satisfies a = true := by
  simp [satisfies]

theorem contains_of_satisfies (satisfies : held.satisfies required = true) :
    held.contains required = true := by
  rcases covers_iff_satisfies.mpr satisfies with rfl | ⟨_, _, contains⟩
  · exact contains_refl held
  · exact contains

theorem satisfies_of_contains (readOnly : held.isReadOnly = true)
    (readOnly' : required.isReadOnly = true) (contains : held.contains required = true) :
    held.satisfies required = true :=
  covers_iff_satisfies.mp (Or.inr ⟨readOnly, readOnly', contains⟩)

/-- A target state serves its access, and is read-only only if the access is. -/
structure Targets (target required : ResourceState) : Prop where
  satisfies : target.satisfies required = true
  readOnly : target.isReadOnly = true → required.isReadOnly = true

/-- A widened transition still changes the state: if it did not, nothing would have been required
of the first state. -/
theorem Targets.ne_union (targets : target.Targets required)
    (unsatisfied : ¬ held.satisfies required = true) (readOnly : target.isReadOnly = true)
    (more : a.isReadOnly = true) : held ≠ target ∪ a := by
  rintro rfl
  apply unsatisfied
  exact satisfies_of_contains (isReadOnly_union readOnly more) (targets.readOnly readOnly)
    (contains_trans (contains_union_left target a) (contains_of_satisfies targets.satisfies))

end ResourceState

theorem Brief.targets_targetState (b : Brief) (ordinal : Nat) (queue : Queue) (a : Access)
    (output : Bool) : (b.targetState ordinal queue a output).Targets a.state := by
  have same : a.state.Targets a.state := ⟨a.state.satisfies_self, id⟩
  unfold Brief.targetState
  split
  · exact same
  · rename_i merges
    split
    · rename_i next _
      split
      · rename_i reads
        simp only [Bool.or_eq_true, not_or, Bool.not_eq_true', Bool.not_eq_false] at merges
        simp only [Bool.and_eq_true] at reads
        have both := ResourceState.isReadOnly_union merges.2 reads.2
        exact ⟨ResourceState.satisfies_of_contains both merges.2
          (ResourceState.contains_union_left _ _), fun _ => merges.2⟩
      · exact same
    · exact same

/-! Serving one access off the copy queue. -/

namespace Demand

variable {demand : Demand} {current : ResourceState} {s : Serving} {t : Transition}

def transition (demand : Demand) (current : ResourceState) : Transition :=
  ⟨demand.access.resource, current, demand.target, demand.access.hints⟩

theorem serve_of_satisfied (records : demand.queue.recordsTransitions = true)
    (satisfied : current.satisfies demand.required = true) :
    (demand.serve current s).track.state = s.track.state ∧
      ∀ r, transitionsOf r (demand.serve current s).batch = transitionsOf r s.batch := by
  unfold serve
  rw [if_neg (by simp [records])]
  dsimp only
  rw [if_neg (by simp [satisfied])]
  refine ⟨rfl, fun r => ?_⟩
  dsimp only
  split
  · rw [transitionsOf_append]
    exact List.append_nil _
  · rfl

theorem serve_of_unsatisfied (records : demand.queue.recordsTransitions = true)
    (unsatisfied : ¬ current.satisfies demand.required = true) :
    demand.serve current s = demand.transit current s := by
  unfold serve
  rw [if_neg (by simp [records])]
  dsimp only
  rw [if_pos (by simp [unsatisfied])]

theorem transit_of_none (current : ResourceState)
    (fresh : widen demand.access.resource demand.required s.batch = none) :
    (demand.transit current s).track.state = some demand.target ∧
      (demand.transit current s).batch = s.batch ++ [.transition (demand.transition current)] := by
  unfold transit
  rw [fresh]
  exact ⟨rfl, rfl⟩

theorem transit_of_some (current : ResourceState) {after : ResourceState} {batch : List Barrier}
    (widened : widen demand.access.resource demand.required s.batch = some (after, batch)) :
    (demand.transit current s).track.state = some after ∧
      (demand.transit current s).batch = batch := by
  unfold transit
  rw [widened]
  exact ⟨rfl, rfl⟩

theorem transitionsOf_serve_other {r : ResourceId} (other : r ≠ demand.access.resource) :
    transitionsOf r (demand.serve current s).batch = transitionsOf r s.batch := by
  by_cases records : demand.queue.recordsTransitions = true
  · by_cases satisfied : current.satisfies demand.required = true
    · exact (serve_of_satisfied records satisfied).2 r
    · rw [serve_of_unsatisfied records satisfied]
      cases widened : widen demand.access.resource demand.required s.batch with
      | none =>
        rw [(transit_of_none current widened).2, transitionsOf_append,
          transitionsOf_other (Ne.symm other), List.append_nil]
      | some result =>
        rw [(transit_of_some current widened).2]
        exact transitionsOf_widen_other other widened
  · unfold serve
    rw [if_pos (by simp [records])]

end Demand

/-- A resource that nothing was batched for is brought from one state into another that satisfies
an access, by one transition at most. -/
def Moved (held state required : ResourceState) (ts : List Transition) : Prop :=
  state.satisfies required = true ∧
    (ts = [] ∧ state = held ∨
      ∃ t, ts = [t] ∧ t.before = held ∧ t.after = state ∧
        ¬ held.satisfies required = true ∧ state.Targets required)

theorem Moved.links {held state required : ResourceState} {ts : List Transition}
    (moved : Moved held state required ts) : Links held ts state := by
  obtain ⟨satisfied, ⟨rfl, rfl⟩ | ⟨t, rfl, rfl, rfl, unsatisfied, _⟩⟩ := moved
  · exact .nil state
  · apply links_single
    intro same
    rw [same] at unsatisfied
    exact unsatisfied satisfied

namespace Demand

variable {demand : Demand} {held current required : ResourceState} {s : Serving}

theorem moved_serve (records : demand.queue.recordsTransitions = true)
    (targets : demand.target.Targets demand.required) (state : s.track.state = some current)
    (fresh : transitionsOf demand.access.resource s.batch = []) :
    ∃ after, (demand.serve current s).track.state = some after ∧
      Moved current after demand.required
        (transitionsOf demand.access.resource (demand.serve current s).batch) := by
  by_cases satisfied : current.satisfies demand.required = true
  · obtain ⟨kept, transitions⟩ := serve_of_satisfied (s := s) records satisfied
    refine ⟨current, kept.trans state, satisfied, Or.inl ⟨?_, rfl⟩⟩
    rw [transitions, fresh]
  · rw [serve_of_unsatisfied records satisfied]
    obtain ⟨moved, batch⟩ := transit_of_none current (widen_of_nil fresh)
    refine ⟨demand.target, moved, targets.satisfies,
      Or.inr ⟨demand.transition current, ?_, rfl, rfl, satisfied, targets⟩⟩
    rw [batch, transitionsOf_append, fresh]
    exact transitionsOf_transition

theorem links_serve (records : demand.queue.recordsTransitions = true)
    (targets : demand.target.Targets demand.required) (state : s.track.state = some current)
    (moved : Moved held current required (transitionsOf demand.access.resource s.batch)) :
    ∃ after, (demand.serve current s).track.state = some after ∧
      after.satisfies demand.required = true ∧
      Links held (transitionsOf demand.access.resource (demand.serve current s).batch) after := by
  by_cases satisfied : current.satisfies demand.required = true
  · obtain ⟨kept, transitions⟩ := serve_of_satisfied (s := s) records satisfied
    refine ⟨current, kept.trans state, satisfied, ?_⟩
    rw [transitions]
    exact moved.links
  have changes : (demand.transition current).before ≠ (demand.transition current).after := by
    intro same
    have equal : current = demand.target := same
    exact satisfied (equal ▸ targets.satisfies)
  have added (none : widen demand.access.resource demand.required s.batch = none) :
      ∃ after, (demand.serve current s).track.state = some after ∧
        after.satisfies demand.required = true ∧
        Links held (transitionsOf demand.access.resource (demand.serve current s).batch) after := by
    rw [serve_of_unsatisfied records satisfied]
    obtain ⟨moves, batch⟩ := transit_of_none current none
    refine ⟨demand.target, moves, targets.satisfies, ?_⟩
    have single : transitionsOf demand.access.resource
        [.transition (demand.transition current)] = [demand.transition current] :=
      transitionsOf_transition
    rw [batch, transitionsOf_append, single]
    exact Links.concat (t := demand.transition current) moved.links changes
  -- A transition of this batch is widened between read-only states; otherwise one is added.
  obtain ⟨_, ⟨fresh, _⟩ | ⟨t, single, rfl, rfl, unsatisfied, targets'⟩⟩ := id moved
  · exact added (widen_of_nil fresh)
  · have widening := widen_of_single demand.required single
    split at widening
    · rename_i readOnly
      obtain ⟨batch, widened, only⟩ := widening
      rw [serve_of_unsatisfied records satisfied]
      obtain ⟨moves, same⟩ := transit_of_some t.after widened
      refine ⟨t.after ∪ demand.required, moves, ?_, ?_⟩
      · exact ResourceState.satisfies_of_contains
          (ResourceState.isReadOnly_union readOnly.1 readOnly.2) readOnly.2
          (ResourceState.contains_union_right _ _)
      · rw [same, only]
        exact links_single (t := { t with after := t.after ∪ demand.required })
          (targets'.ne_union unsatisfied readOnly.1 readOnly.2)
    · exact added widening

end Demand

/-! The states of a draft. -/

namespace Draft

variable {b : Brief} {d d' : Draft} {ordinal : Nat} {p : PassId} {pass : Pass} {queue : Queue}
  {output : Bool} {accesses : List Access} {batch batch' : List Barrier} {r : ResourceId}

def states (d : Draft) : States := fun r => (d.track r).state

theorem states_modifyTrack (d : Draft) (r : ResourceId) {f : Track → Track}
    {state : ResourceState} (inside : r.index < d.tracks.length)
    (moved : (f (d.track r)).state = some state) :
    (d.modifyTrack r f).states = d.states.set r state := by
  funext q
  unfold states States.set
  rw [track_modifyTrack]
  by_cases same : q = r
  · subst same
    rw [if_pos ⟨rfl, inside⟩, if_pos rfl, moved]
  · rw [if_neg fun both => same both.1, if_neg same]

theorem states_foldl_assign {β : Type} (resource : β → ResourceId) (state : β → ResourceState)
    {f : β → Track → Track} (assigns : ∀ x t, (f x t).state = some (state x)) (xs : List β)
    (d : Draft) (inside : ∀ x ∈ xs, (resource x).index < d.tracks.length) :
    (xs.foldl (fun d x => d.modifyTrack (resource x) (f x)) d).states =
      xs.foldl (fun s x => s.set (resource x) (state x)) d.states := by
  induction xs generalizing d with
  | nil => rfl
  | cons x xs ih =>
    have first := states_modifyTrack d (resource x) (inside x List.mem_cons_self)
      (assigns x (d.track (resource x)))
    have rest : ∀ y ∈ xs, (resource y).index <
        (d.modifyTrack (resource x) (f x)).tracks.length := by
      intro y member
      rw [length_tracks_modifyTrack]
      exact inside y (List.mem_cons_of_mem _ member)
    rw [List.foldl_cons, ih _ rest, first, List.foldl_cons]

theorem states_prepare (d : Draft) (within : pass.Within d.tracks.length) :
    (d.prepare pass).states = d.states.enter pass.creates := by
  have tracks := keeps_arrive tracks (fun _ _ _ _ _ _ => rfl) d pass
  have states := keeps_arrive states (fun _ _ _ _ _ _ => rfl) d pass
  have inside : ∀ a ∈ pass.creates, a.resource.index < (d.arrive pass).tracks.length := by
    intro a member
    rw [tracks]
    exact within a (List.mem_append_left _ (List.mem_append_left _ member))
  rw [← states]
  exact states_foldl_assign Access.resource Access.state (fun _ _ => rfl) pass.creates _ inside

theorem inside_of_state {state : ResourceState} (held : (d.track r).state = some state) :
    r.index < d.tracks.length := by
  apply Nat.lt_of_not_le
  intro outside
  rw [track_of_length_le outside] at held
  cases held

theorem states_serveAll_copy
    (served : serveAll b ordinal .copy output accesses (d, batch) = .ok (d', batch')) :
    d'.states = d.states.enter accesses ∧ batch' = batch := by
  induction accesses generalizing d batch with
  | nil =>
    cases served
    exact ⟨rfl, rfl⟩
  | cons a rest ih =>
    obtain ⟨current, held, later⟩ := serveAll_cons_ok served
    obtain ⟨states, same⟩ := ih later
    rw [states]
    refine ⟨?_, same⟩
    rw [states_modifyTrack d a.resource (inside_of_state held) rfl]
    rfl

theorem serveAll_other
    (served : serveAll b ordinal queue output accesses (d, batch) = .ok (d', batch'))
    (other : ∀ a ∈ accesses, r ≠ a.resource) :
    d'.states r = d.states r ∧ transitionsOf r batch' = transitionsOf r batch := by
  induction accesses generalizing d batch with
  | nil =>
    cases served
    exact ⟨rfl, rfl⟩
  | cons a rest ih =>
    obtain ⟨current, held, later⟩ := serveAll_cons_ok served
    have apart := other a List.mem_cons_self
    obtain ⟨states, transitions⟩ := ih later fun a member =>
      other a (List.mem_cons_of_mem _ member)
    rw [states, transitions]
    refine ⟨?_, Demand.transitionsOf_serve_other apart⟩
    unfold Draft.states
    rw [track_modifyTrack, if_neg fun both => apart both.1]

theorem serveAll_of_mem
    (served : serveAll b ordinal queue output accesses (d, batch) = .ok (d', batch'))
    (distinct : (accesses.map (·.resource)).Nodup) {a : Access} (member : a ∈ accesses) :
    ∃ (current : ResourceState) (s : Serving),
      d.states a.resource = some current ∧ s.track.state = some current ∧
      transitionsOf a.resource s.batch = transitionsOf a.resource batch ∧
      d'.states a.resource = (Demand.serve ⟨queue, a, output,
        b.targetState ordinal queue a output⟩ current s).track.state ∧
      transitionsOf a.resource batch' = transitionsOf a.resource (Demand.serve ⟨queue, a, output,
        b.targetState ordinal queue a output⟩ current s).batch := by
  induction accesses generalizing d batch with
  | nil => cases member
  | cons first rest ih =>
    obtain ⟨current, held, later⟩ := serveAll_cons_ok served
    obtain ⟨apart, distinct'⟩ := List.nodup_cons.mp distinct
    rcases List.mem_cons.mp member with rfl | after
    · have other : ∀ c ∈ rest, a.resource ≠ c.resource := by
        intro c present same
        exact apart (List.mem_map.mpr ⟨c, present, same.symm⟩)
      obtain ⟨states, transitions⟩ := serveAll_other later other
      refine ⟨current, ⟨d.track a.resource, batch⟩, held, held, rfl, ?_, transitions⟩
      rw [states]
      unfold Draft.states
      rw [track_modifyTrack, if_pos ⟨rfl, inside_of_state held⟩]
    · have other : a.resource ≠ first.resource := by
        intro same
        exact apart (List.mem_map.mpr ⟨a, after, same⟩)
      obtain ⟨current', s, before, state, transitions, rest⟩ := ih later distinct' after
      refine ⟨current', s, ?_, state, ?_, rest⟩
      · unfold Draft.states at before
        rw [track_modifyTrack, if_neg fun both => other both.1] at before
        exact before
      · rw [transitions, Demand.transitionsOf_serve_other other]

end Draft

end RenderGraph
