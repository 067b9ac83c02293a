import RenderGraph.Proofs.CreatedOnce
import RenderGraph.Proofs.SettledStates

/-! The states that a schedule brings its resources into, one after another: by transitions, and on
the copy queue by accesses. The scheduler tracks a resource in the last of these states, and before
the first one in the state that the resource is assumed to be in when a frame first uses it. -/

namespace RenderGraph

namespace Declaration

/-- The states that an event brings the named resources into, one after another. -/
def moves (d : Declaration) (names : ResourceId → Bool) : Event → List ResourceState
  | .barriers _ batch => batch.filterMap fun
    | .transition t => if names t.resource then some t.after else none
    | .unordered _ => none
  | .record _ p => ((d.pass? p).toList.filter (·.queue == .copy)).flatMap fun pass =>
    (pass.accesses.filter fun a => names a.resource).map (·.state)
  | _ => []

/-- The states that events bring a resource into. -/
def movesOf (d : Declaration) (r : ResourceId) (events : List Event) : List ResourceState :=
  events.flatMap (d.moves (· == r))

/-- The state that a resource is taken to be in when a frame first uses it: that of the access that
creates it, or its initial state. -/
def assumedState (d : Declaration) (r : ResourceId) : Option ResourceState :=
  match d.creation? r with
  | some a => some a.state
  | none => (d.resource? r).map (·.initialState)

variable {d : Declaration} {r : ResourceId} {events more : List Event} {list : ListId}
  {batch : List Barrier} {p : PassId} {pass : Pass}

theorem movesOf_append : d.movesOf r (events ++ more) = d.movesOf r events ++ d.movesOf r more :=
  List.flatMap_append

theorem movesOf_plain (plain : ∀ e ∈ events, e.isPlain = true) : d.movesOf r events = [] := by
  refine List.flatMap_eq_nil_iff.mpr fun e member => ?_
  have here := plain e member
  cases e with
  | barriers | record => cases here
  | openList | submit | sync => rfl

theorem movesOf_barriers :
    d.movesOf r [.barriers list batch] = (transitionsOf r batch).map (·.after) := by
  rw [movesOf, List.flatMap_singleton, moves]
  induction batch with
  | nil => rfl
  | cons barrier batch ih =>
    cases barrier with
    | unordered q => exact ih
    | transition t =>
      rw [List.filterMap_cons, ih, transitionsOf]
      by_cases here : t.resource = r
      · simp [here]
      · simp [here]

theorem movesOf_record_copy (found : d.pass? p = some pass) (onCopy : pass.queue = .copy) :
    d.movesOf r [.record list p] = (pass.accesses.filter (·.resource == r)).map (·.state) := by
  simp [movesOf, moves, found, onCopy]

theorem movesOf_record_other (found : d.pass? p = some pass) (notCopy : pass.queue ≠ .copy) :
    d.movesOf r [.record list p] = [] := by
  simp [movesOf, moves, found, notCopy]

theorem movesOf_passBlock : d.movesOf r (passBlock list batch p) =
    (transitionsOf r batch).map (·.after) ++ d.movesOf r [.record list p] := by
  rw [passBlock, movesOf_append]
  split
  · rename_i isEmpty
    rw [List.isEmpty_iff.mp isEmpty]
    rfl
  · rw [movesOf_barriers]

theorem assumedState_of_start (once : d.CreatesOnce) {survival : Survival}
    {state : ResourceState} (start : d.startStates survival r = some state) :
    d.assumedState r = some state := by
  obtain ⟨resource, held, initial⟩ := Option.bind_eq_some_iff.mp start
  have lasting : resource.origin.isTransient = false ∧ resource.initialState = state := by
    cases origin : resource.origin with
    | imported bound =>
      rw [origin] at initial
      exact ⟨rfl, Option.some.inj initial⟩
    | managed =>
      rw [origin] at initial
      exact ⟨rfl, Option.some.inj (Option.ite_none_right_eq_some.mp initial).2⟩
    | transient queue =>
      rw [origin] at initial
      cases initial
  rw [assumedState, once.creation?_eq_none held lasting.1, held, ← lasting.2]
  rfl

end Declaration

theorem States.enter_eq_none {s : States} {accesses : List Access} {r : ResourceId} :
    s.enter accesses r = none ↔ accesses.filter (·.resource == r) = [] ∧ s r = none := by
  rw [enter_apply]
  simp

theorem States.enter_append (s : States) (first second : List Access) :
    s.enter (first ++ second) = (s.enter first).enter second :=
  List.foldl_append

theorem Links.last_or {first last : ResourceState} {ts : List Transition}
    (links : Links first ts last) : (ts.map (·.after)).getLast?.or (some first) = some last := by
  induction links with
  | nil => rfl
  | cons _ _ ih =>
    rw [List.map_cons, List.getLast?_cons, ← ih]
    cases (List.map _ _).getLast? <;> rfl

/-! The first transition of a route starts from the state found. -/

def Route.Starts (found : ResourceState) (route : Route) : Prop :=
  match route.steps with
  | [] => route.state = found
  | t :: _ => t.before = found

theorem widenStep_some {required after : ResourceState} {ts us : List Transition}
    (widened : widenStep required ts = some (after, us)) :
    ∃ t rest u rest', ts = t :: rest ∧ us = u :: rest' ∧ u.before = t.before := by
  cases ts with
  | nil => cases widened
  | cons t rest =>
    rw [widenStep] at widened
    split at widened
    · cases widened
      exact ⟨t, rest, _, _, rfl, rfl, rfl⟩
    · obtain ⟨⟨_, later⟩, _, same⟩ := Option.map_eq_some_iff.mp widened
      cases same
      exact ⟨t, rest, _, _, rfl, rfl, rfl⟩

namespace Demand

variable {demand : Demand} {route : Route} {found : ResourceState}

theorem starts_lead (starts : route.Starts found) : (demand.lead route).Starts found := by
  obtain ⟨state, steps⟩ := route
  unfold lead
  split
  · exact starts
  cases widened : widenStep demand.required steps with
  | none =>
    cases steps with
    | nil => exact starts
    | cons t rest => exact starts
  | some result =>
    obtain ⟨after, widerSteps⟩ := result
    obtain ⟨t, rest, u, rest', rfl, rfl, same⟩ := widenStep_some widened
    exact same.trans starts

theorem starts_leadAll (demands : List Demand) (starts : route.Starts found) :
    (leadAll demands route).Starts found := by
  induction demands generalizing route with
  | nil => exact starts
  | cons demand demands ih => exact ih (starts_lead starts)

end Demand

namespace Brief

variable {b : Brief} {s : Schedule} {d : Draft} {n : Nat} {p : PassId} {pass : Pass}
  {list : ListId} {batch early late : List Barrier} {r : ResourceId} {found state : ResourceState}
  {tr : Transition}

theorem starts_route (b : Brief) (n : Nat) (pass : Pass) (r : ResourceId) (found : ResourceState) :
    (b.route n pass r found).Starts found := by
  have start : Route.Starts found ⟨found, []⟩ := rfl
  exact Demand.starts_leadAll _ start

theorem live_apart (once : b.declaration.CreatesOnce) :
    b.live.Pairwise fun x y => ∀ a ∈ x.2.creates, ∀ c ∈ y.2.creates, a.resource ≠ c.resource := by
  have entries : b.declaration.entries.map Prod.snd = b.declaration.passes := by
    rw [Declaration.entries, List.map_map]
    exact List.zipIdx_map_fst 0 _
  have apart := once.apart
  rw [← entries, List.pairwise_map] at apart
  exact apart.filter _

theorem movesOf_of_untracked (closed : b.declaration.Closed) (made : b.schedule = .ok s)
    (within : n ≤ b.live.length)
    (drafted : Draft.recordAll b 0 (b.live.take n) { tracks := b.startTracks } = .ok d)
    (none : b.tracked n r = none) : b.declaration.movesOf r d.events = [] := by
  induction n generalizing d with
  | zero =>
    cases drafted
    rfl
  | succ n ih =>
    obtain ⟨⟨p, pass⟩, entry⟩ : ∃ entry, b.live[n]? = some entry :=
      ⟨_, List.getElem?_eq_getElem within⟩
    obtain ⟨d₀, list, batch, turn⟩ := exists_turn closed made entry
    obtain ⟨d', next, events⟩ := turn.next
    cases next.symm.trans drafted
    have held : b.declaration.pass? p = some pass :=
      Declaration.pass?_of_mem_survivors (List.mem_of_getElem? entry)
    have missing : b.found n pass r = Option.none := by
      by_cases onCopy : pass.queue = .copy
      · rw [(turn.copies onCopy).2] at none
        exact (States.enter_eq_none.mp none).2
      · cases found : b.found n pass r with
        | none => rfl
        | some state =>
          rw [(turn.routes onCopy r state found).2] at none
          cases none
    -- A resource without a state at the end of the turn had none before it.
    obtain ⟨uncreated, untracked⟩ := States.enter_eq_none.mp missing
    obtain ⟨still, _, unnamed⟩ := turn.misses r missing
    have recorded : b.declaration.movesOf r [.record list p] = [] := by
      by_cases onCopy : pass.queue = .copy
      · have others : (pass.reads ++ pass.writes).filter (·.resource == r) = [] :=
          List.filter_eq_nil_iff.mpr fun a member same =>
            unnamed a member (eq_of_beq same).symm
        rw [Declaration.movesOf_record_copy held onCopy, Pass.accesses, List.append_assoc,
          List.filter_append, uncreated, others]
        rfl
      · exact Declaration.movesOf_record_other held onCopy
    obtain ⟨more, arrived, plain⟩ := d₀.continues_arrive pass
    rw [events, Declaration.movesOf_append, Declaration.movesOf_passBlock, still, recorded,
      arrived, Declaration.movesOf_append, Declaration.movesOf_plain plain,
      ih (Nat.le_of_lt within) turn.drafted untracked]
    rfl

theorem untracked (closed : b.declaration.Closed) (made : b.schedule = .ok s)
    (within : n ≤ b.live.length) (start : b.declaration.startStates b.survival r = none)
    (uncreated : ∀ (m : Nat) q other, m < n → b.live[m]? = some (q, other) →
      other.creates.filter (·.resource == r) = []) : b.tracked n r = none := by
  induction n with
  | zero =>
    have starts : b.tracked 0 = ({ tracks := b.startTracks } : Draft).states :=
      tracked_of_drafted rfl
    rw [starts, Draft.states_start]
    exact start
  | succ n ih =>
    obtain ⟨⟨p, pass⟩, entry⟩ : ∃ entry, b.live[n]? = some entry :=
      ⟨_, List.getElem?_eq_getElem within⟩
    obtain ⟨d₀, list, batch, turn⟩ := exists_turn closed made entry
    have before := ih (Nat.le_of_lt within) fun m q other less =>
      uncreated m q other (Nat.lt_succ_of_lt less)
    have missing : b.found n pass r = Option.none :=
      States.enter_eq_none.mpr ⟨uncreated n p pass (Nat.lt_succ_self n) entry, before⟩
    exact (turn.misses r missing).2.1

theorem Turn.untracked (turn : b.Turn s n p pass d list batch) (closed : b.declaration.Closed)
    (made : b.schedule = .ok s) (once : b.declaration.CreatesOnce) {a : Access}
    (creates : a ∈ pass.creates) : b.tracked n a.resource = none := by
  have inside := (List.getElem?_eq_some_iff.mp turn.entry).1
  have member := Declaration.mem_passes_of_mem_survivors (List.mem_of_getElem? turn.entry)
  obtain ⟨resource, held, transient⟩ := once.holdsTransient member creates
  refine Brief.untracked closed made (Nat.le_of_lt inside) ?_ fun m q other earlier entry => ?_
  · rw [Declaration.startStates, held, Option.bind_some]
    cases origin : resource.origin with
    | transient queue => rfl
    | imported | managed =>
      rw [origin] at transient
      cases transient
  · have apart := List.pairwise_iff_getElem.mp (live_apart once) m n
      (List.getElem?_eq_some_iff.mp entry).1 inside earlier
    rw [(List.getElem?_eq_some_iff.mp entry).2, (List.getElem?_eq_some_iff.mp turn.entry).2]
      at apart
    exact List.filter_eq_nil_iff.mpr fun c member same =>
      apart c member a creates (eq_of_beq same)

/-- The state is the last one that the events have brought the resource into, or else the assumed
one. -/
def Explains (b : Brief) (r : ResourceId) (events : List Event) (state : ResourceState) : Prop :=
  (b.declaration.movesOf r events).getLast?.or (b.declaration.assumedState r) = some state

theorem Turn.explains_found (turn : b.Turn s n p pass d list batch)
    (closed : b.declaration.Closed) (made : b.schedule = .ok s)
    (once : b.declaration.CreatesOnce)
    (tracked : ∀ state, b.tracked n r = some state → b.Explains r d.events state)
    (found : b.found n pass r = some state) : b.Explains r (d.arrive pass).events state := by
  obtain ⟨more, arrived, plain⟩ := d.continues_arrive pass
  rw [Explains, arrived, Declaration.movesOf_append, Declaration.movesOf_plain plain,
    List.append_nil]
  rw [Brief.found, States.enter_apply] at found
  cases creator : (pass.creates.filter (·.resource == r)).getLast? with
  | none =>
    rw [creator] at found
    exact tracked state found
  | some a =>
    rw [creator] at found
    cases found
    obtain ⟨creates, same⟩ := List.mem_filter.mp (List.mem_of_getLast? creator)
    obtain rfl := eq_of_beq same
    have member := Declaration.mem_passes_of_mem_survivors (List.mem_of_getElem? turn.entry)
    have inside := (List.getElem?_eq_some_iff.mp turn.entry).1
    rw [movesOf_of_untracked closed made (Nat.le_of_lt inside) turn.drafted
      (turn.untracked closed made once creates), Declaration.assumedState,
      once.creation?_eq member creates]
    rfl

theorem getLast?_append_or {α : Type} {xs ys : List α} {o : Option α} {x : α}
    (before : xs.getLast?.or o = some x) : (xs ++ ys).getLast?.or o = ys.getLast?.or (some x) := by
  rw [List.getLast?_append, Option.or_assoc, before]

theorem Turn.links (turn : b.Turn s n p pass d list batch) (notCopy : pass.queue ≠ .copy)
    (found : b.found n pass r = some state)
    (linked : pass.Settles r ∨ transitionsOf r batch = []) :
    Links state (transitionsOf r batch) (b.route n pass r state).state := by
  obtain ⟨steps, _⟩ := turn.routes notCopy r state found
  rcases linked with settles | none
  · exact steps ▸ linked_route settles
  · have starts := b.starts_route n pass r state
    rw [Route.Starts, ← steps, none] at starts
    rw [none, starts]
    exact .nil state

theorem Turn.explains_copied (turn : b.Turn s n p pass d list batch) (onCopy : pass.queue = .copy)
    (before : ∀ state, b.tracked n r = some state → b.Explains r d.events state)
    (tracked : b.tracked (n + 1) r = some state) :
    b.Explains r ((d.arrive pass).events ++ passBlock list batch p) state := by
  obtain ⟨more, arrived, plain⟩ := d.continues_arrive pass
  have held : b.declaration.pass? p = some pass :=
    Declaration.pass?_of_mem_survivors (List.mem_of_getElem? turn.entry)
  obtain ⟨rfl, next⟩ := turn.copies onCopy
  rw [next, found, ← States.enter_append, ← List.append_assoc, ← Pass.accesses,
    States.enter_apply] at tracked
  rw [Explains, Declaration.movesOf_append, Declaration.movesOf_passBlock,
    Declaration.movesOf_record_copy held onCopy, transitionsOf, List.map_nil, List.nil_append,
    arrived, Declaration.movesOf_append, Declaration.movesOf_plain plain, List.append_nil]
  cases last : (pass.accesses.filter (·.resource == r)).getLast? with
  | none =>
    rw [last] at tracked
    rw [List.getLast?_eq_none_iff.mp last, List.map_nil, List.append_nil]
    exact before state tracked
  | some a =>
    rw [last] at tracked
    rw [List.getLast?_append, List.getLast?_map, last]
    exact tracked

theorem Turn.explains_moved (turn : b.Turn s n p pass d list batch) (notCopy : pass.queue ≠ .copy)
    (closed : b.declaration.Closed) (made : b.schedule = .ok s) (once : b.declaration.CreatesOnce)
    (before : ∀ state, b.tracked n r = some state → b.Explains r d.events state)
    (linked : pass.Settles r ∨ transitionsOf r batch = [])
    (tracked : b.tracked (n + 1) r = some state) :
    b.Explains r ((d.arrive pass).events ++ passBlock list batch p) state := by
  have held : b.declaration.pass? p = some pass :=
    Declaration.pass?_of_mem_survivors (List.mem_of_getElem? turn.entry)
  rw [Explains, Declaration.movesOf_append, Declaration.movesOf_passBlock,
    Declaration.movesOf_record_other held notCopy, List.append_nil]
  cases found : b.found n pass r with
  | none =>
    rw [(turn.misses r found).2.1] at tracked
    cases tracked
  | some first =>
    rw [(turn.routes notCopy r first found).2] at tracked
    cases tracked
    rw [getLast?_append_or (turn.explains_found closed made once before found)]
    exact (turn.links notCopy found linked).last_or

/-- The scheduler tracks a resource in the last state that it has been brought into, or else in the
assumed one, if the resource is settled, or if it has not been brought into any. -/
theorem explains_tracked (closed : b.declaration.Closed) (made : b.schedule = .ok s)
    (once : b.declaration.CreatesOnce) (within : n ≤ b.live.length)
    (drafted : Draft.recordAll b 0 (b.live.take n) { tracks := b.startTracks } = .ok d)
    (linked : b.SettledBefore n r ∨ b.declaration.movesOf r d.events = [])
    (tracked : b.tracked n r = some state) : b.Explains r d.events state := by
  induction n generalizing d state with
  | zero =>
    cases drafted
    have starts : b.tracked 0 = ({ tracks := b.startTracks } : Draft).states :=
      tracked_of_drafted rfl
    rw [starts, Draft.states_start] at tracked
    exact Declaration.assumedState_of_start once tracked
  | succ n ih =>
    obtain ⟨⟨p, pass⟩, entry⟩ : ∃ entry, b.live[n]? = some entry :=
      ⟨_, List.getElem?_eq_getElem within⟩
    obtain ⟨d₀, list, batch, turn⟩ := exists_turn closed made entry
    obtain ⟨d', next, events⟩ := turn.next
    cases next.symm.trans drafted
    -- What holds of the resource up to here holds of it before the turn, and within the turn.
    have linked' : (b.SettledBefore n r ∨ b.declaration.movesOf r d₀.events = []) ∧
        (pass.queue ≠ .copy → pass.Settles r ∨ transitionsOf r batch = []) := by
      rcases linked with settled | none
      · exact ⟨Or.inl fun m q other less => settled m q other (Nat.lt_succ_of_lt less),
          fun notCopy => Or.inl (settled n p pass (Nat.lt_succ_self n) entry notCopy)⟩
      · obtain ⟨more, arrived, _⟩ := d₀.continues_arrive pass
        rw [events, Declaration.movesOf_append, Declaration.movesOf_passBlock, arrived,
          Declaration.movesOf_append] at none
        simp only [List.append_eq_nil_iff, List.map_eq_nil_iff] at none
        exact ⟨Or.inr none.1.1, fun _ => Or.inr none.2.1⟩
    have before (state : ResourceState) : b.tracked n r = some state →
        b.Explains r d₀.events state := ih (Nat.le_of_lt within) turn.drafted linked'.1
    rw [events]
    by_cases onCopy : pass.queue = .copy
    · exact turn.explains_copied onCopy before tracked
    · exact turn.explains_moved onCopy closed made once before (linked'.2 onCopy) tracked

end Brief

end RenderGraph
