import RenderGraph.Proofs.PassTurn

/-! Resources whose transitions stay linked. Widening changes the first transition into a read-only
state. It fits as long as no other transition has come after that one, which is so if a pass asks
for all its read-only states of the resource in one go. -/

namespace RenderGraph

/-- The pass asks for read-only states of the resource in one go: once it has asked for another
state after them, it does not come back to a read-only one. -/
def Pass.Settles (pass : Pass) (r : ResourceId) : Prop :=
  ∃ before during after,
    (pass.reads ++ pass.writes).filter (·.resource == r) = before ++ during ++ after ∧
      (∀ a ∈ before, a.state.isReadOnly = false) ∧ (∀ a ∈ during, a.state.isReadOnly = true) ∧
      ∀ a ∈ after, a.state.isReadOnly = false

namespace ResourceState.Targets

variable {target required : ResourceState}

theorem isReadOnly (targets : target.Targets required) (readOnly : required.isReadOnly = true) :
    target.isReadOnly = true := by
  rcases covers_iff_satisfies.mpr targets.satisfies with same | ⟨held, _, _⟩
  · exact same ▸ readOnly
  · exact held

theorem union {more : ResourceState} (targets : target.Targets required)
    (open_ : target.isReadOnly = true) (readOnly : more.isReadOnly = true) :
    (target ∪ more).Targets required where
  satisfies := satisfies_of_contains (isReadOnly_union open_ readOnly) (targets.readOnly open_)
    (contains_trans (contains_union_left target more) (contains_of_satisfies targets.satisfies))
  readOnly _ := targets.readOnly open_

end ResourceState.Targets

def Demand.Aims (demand : Demand) : Prop := demand.target.Targets demand.required

theorem Brief.aims_demand (b : Brief) (ordinal : Nat) (queue : Queue) (output : Bool) (a : Access) :
    (b.demand ordinal queue output a).Aims :=
  b.targets_targetState ordinal queue a output

namespace Route

def Linked (found : ResourceState) (route : Route) : Prop := Links found route.steps route.state

def Closed (route : Route) : Prop := ∀ t ∈ route.steps, t.after.isReadOnly = false

def Open (route : Route) : Prop :=
  ∃ ts t, route.steps = ts ++ [t] ∧ (∀ u ∈ ts, u.after.isReadOnly = false) ∧
    t.after = route.state ∧ t.after.isReadOnly = true ∧
    ∃ required, ¬ t.before.satisfies required = true ∧ t.after.Targets required

end Route

theorem widenStep_of_closed {required : ResourceState} {ts : List Transition}
    (closed : ∀ t ∈ ts, t.after.isReadOnly = false) : widenStep required ts = none := by
  induction ts with
  | nil => rfl
  | cons t ts ih =>
    have here := closed t List.mem_cons_self
    rw [widenStep, if_neg (by simp [here]),
      ih fun u member => closed u (List.mem_cons_of_mem _ member)]
    rfl

theorem widenStep_of_changing {required : ResourceState} (changing : required.isReadOnly = false)
    (ts : List Transition) : widenStep required ts = none := by
  induction ts with
  | nil => rfl
  | cons t ts ih =>
    rw [widenStep, if_neg (by simp [changing]), ih]
    rfl

theorem widenStep_concat {required : ResourceState} {ts : List Transition} {t : Transition}
    (closed : ∀ u ∈ ts, u.after.isReadOnly = false) (open_ : t.after.isReadOnly = true)
    (readOnly : required.isReadOnly = true) : widenStep required (ts ++ [t]) =
      some (t.after ∪ required, ts ++ [{ t with after := t.after ∪ required }]) := by
  induction ts with
  | nil =>
    rw [List.nil_append, widenStep, if_pos ⟨open_, readOnly⟩]
    rfl
  | cons u ts ih =>
    have here := closed u List.mem_cons_self
    rw [List.cons_append, widenStep, if_neg (by simp [here]),
      ih fun v member => closed v (List.mem_cons_of_mem _ member)]
    rfl

namespace Demand

variable {demand : Demand} {demands : List Demand} {route : Route} {found : ResourceState}

theorem linked_added (aims : demand.Aims) (linked : route.Linked found)
    (unsatisfied : ¬ route.state.satisfies demand.required = true) :
    Route.Linked found ⟨demand.target, route.steps ++ [demand.transition route.state]⟩ := by
  refine Links.concat (t := demand.transition route.state) linked ?_
  intro same
  have equal : route.state = demand.target := same
  exact unsatisfied (equal ▸ aims.satisfies)

theorem linked_lead (aims : demand.Aims) (changing : demand.required.isReadOnly = false)
    (linked : route.Linked found) : (demand.lead route).Linked found := by
  by_cases satisfied : route.state.satisfies demand.required = true
  · rwa [lead_of_satisfied satisfied]
  · rw [lead_of_none satisfied (widenStep_of_changing changing _)]
    exact linked_added aims linked satisfied

theorem closed_lead (aims : demand.Aims) (changing : demand.required.isReadOnly = false)
    (closed : route.Closed) : (demand.lead route).Closed := by
  by_cases satisfied : route.state.satisfies demand.required = true
  · rwa [lead_of_satisfied satisfied]
  · rw [lead_of_none satisfied (widenStep_of_changing changing _)]
    intro t member
    rcases List.mem_append.mp member with old | new
    · exact closed t old
    · rw [List.mem_singleton.mp new]
      exact Bool.eq_false_iff.mpr fun readOnly =>
        Bool.eq_false_iff.mp changing (aims.readOnly readOnly)

theorem linked_lead_readOnly (aims : demand.Aims) (readOnly : demand.required.isReadOnly = true)
    (linked : route.Linked found) (settled : route.Closed ∨ route.Open) :
    (demand.lead route).Linked found ∧
      ((demand.lead route).Closed ∨ (demand.lead route).Open) := by
  by_cases satisfied : route.state.satisfies demand.required = true
  · rw [lead_of_satisfied satisfied]
    exact ⟨linked, settled⟩
  rcases settled with closed | ⟨ts, t, steps, closed, state, open_, required, unsatisfied, targets⟩
  · rw [lead_of_none satisfied (widenStep_of_closed closed)]
    exact ⟨linked_added aims linked satisfied, Or.inr ⟨route.steps, _, rfl, closed, rfl,
      aims.isReadOnly readOnly, demand.required, satisfied, aims⟩⟩
  · rw [lead_of_some satisfied (steps ▸ widenStep_concat closed open_ readOnly)]
    rw [Route.Linked, steps] at linked
    have links : Links found (ts ++ [{ t with after := t.after ∪ demand.required }])
        (t.after ∪ demand.required) :=
      Links.concat (t := { t with after := t.after ∪ demand.required }) linked.split.1
        (targets.ne_union unsatisfied open_ readOnly)
    exact ⟨links, Or.inr ⟨ts, _, rfl, closed, rfl, ResourceState.isReadOnly_union open_ readOnly,
      required, unsatisfied, targets.union open_ readOnly⟩⟩

theorem linked_leadAll (changing : ∀ demand ∈ demands, demand.Aims ∧
      demand.required.isReadOnly = false) (linked : route.Linked found) :
    (leadAll demands route).Linked found := by
  induction demands generalizing route with
  | nil => exact linked
  | cons demand demands ih =>
    obtain ⟨aims, other⟩ := changing demand List.mem_cons_self
    exact ih (fun d member => changing d (List.mem_cons_of_mem _ member))
      (linked_lead aims other linked)

theorem closed_leadAll (changing : ∀ demand ∈ demands, demand.Aims ∧
      demand.required.isReadOnly = false) (closed : route.Closed) :
    (leadAll demands route).Closed := by
  induction demands generalizing route with
  | nil => exact closed
  | cons demand demands ih =>
    obtain ⟨aims, other⟩ := changing demand List.mem_cons_self
    exact ih (fun d member => changing d (List.mem_cons_of_mem _ member))
      (closed_lead aims other closed)

theorem linked_leadAll_readOnly (reading : ∀ demand ∈ demands, demand.Aims ∧
      demand.required.isReadOnly = true) (linked : route.Linked found)
    (settled : route.Closed ∨ route.Open) : (leadAll demands route).Linked found := by
  induction demands generalizing route with
  | nil => exact linked
  | cons demand demands ih =>
    obtain ⟨aims, readOnly⟩ := reading demand List.mem_cons_self
    obtain ⟨linked', settled'⟩ := linked_lead_readOnly aims readOnly linked settled
    exact ih (fun d member => reading d (List.mem_cons_of_mem _ member)) linked' settled'

end Demand

namespace Brief

variable {b : Brief} {s : Schedule} {d : Draft} {n : Nat} {p : PassId} {pass : Pass}
  {list : ListId} {batch : List Barrier} {r : ResourceId} {found : ResourceState}

theorem map_access_demandsOf (b : Brief) (n : Nat) (pass : Pass) (r : ResourceId) :
    (b.demandsOf n pass r).map (·.access) =
      (pass.reads ++ pass.writes).filter (·.resource == r) := by
  simp [demandsOf, demand, Function.comp_def]

theorem aims_of_mem_demandsOf {demand : Demand} (member : demand ∈ b.demandsOf n pass r) :
    demand.Aims := by
  rcases List.mem_append.mp member with isRead | written
  · obtain ⟨a, _, rfl⟩ := List.mem_map.mp isRead
    exact b.aims_demand n pass.queue false a
  · obtain ⟨a, _, rfl⟩ := List.mem_map.mp written
    exact b.aims_demand n pass.queue true a

theorem linked_route (settles : pass.Settles r) : (b.route n pass r found).Linked found := by
  obtain ⟨before, during, after, split, changing, reading, changing'⟩ := settles
  rw [← b.map_access_demandsOf n] at split
  obtain ⟨both, last, parts, firsts, rfl⟩ := List.map_eq_append_iff.mp split
  obtain ⟨first, middle, rfl, rfl, rfl⟩ := List.map_eq_append_iff.mp firsts
  have aims {demand : Demand} (member : demand ∈ first ++ middle ++ last) : demand.Aims :=
    aims_of_mem_demandsOf (parts ▸ member)
  have each {demands : List Demand} {readOnly : Bool}
      (inside : ∀ demand ∈ demands, demand ∈ first ++ middle ++ last)
      (states : ∀ a ∈ demands.map (·.access), a.state.isReadOnly = readOnly) :
      ∀ demand ∈ demands, demand.Aims ∧ demand.required.isReadOnly = readOnly :=
    fun demand member => ⟨aims (inside demand member),
      states _ (List.mem_map_of_mem member)⟩
  have start : Route.Linked found ⟨found, []⟩ := .nil found
  have none : Route.Closed ⟨found, []⟩ := fun _ member => by cases member
  have firsts := each (fun _ member => by simp [member]) changing
  have middles := each (fun _ member => by simp [member]) reading
  have lasts := each (fun _ member => by simp [member]) changing'
  rw [route, parts, Demand.leadAll_append, Demand.leadAll_append]
  exact Demand.linked_leadAll lasts (Demand.linked_leadAll_readOnly middles
    (Demand.linked_leadAll firsts start) (Or.inl (Demand.closed_leadAll firsts none)))

end Brief

/-! The replay of one resource. -/

namespace States

variable {s s' : States} {r : ResourceId}

theorem crossAll_apply (s : States) (batch : List Barrier) (r : ResourceId) :
    s.crossAll batch r = ((transitionsOf r batch).getLast?.map (·.after)).or (s r) := by
  induction batch generalizing s with
  | nil => rfl
  | cons barrier batch ih =>
    cases barrier with
    | unordered q => exact ih s
    | transition t =>
      rw [crossAll, List.foldl_cons, ← crossAll, ih, transitionsOf]
      by_cases here : t.resource = r
      · rw [if_pos here, List.getLast?_cons]
        cases (transitionsOf r batch).getLast? <;> simp [cross, set, here]
      · rw [if_neg here]
        simp [cross, set, Ne.symm here]

theorem enter_congr (same : s r = s' r) (accesses : List Access) :
    s.enter accesses r = s'.enter accesses r := by
  rw [enter_apply, enter_apply, same]

end States

/-- The part of a replay in which a pass is recorded: its batch, if it has any, is crossed from the
states `begun`, and the pass is recorded in the states that the batch leads to. -/
def Replay.Records (replay : Replay) (p : PassId) (list : ListId) (batch : List Barrier)
    (begun : States) : Prop :=
  ∃ done rest, Followed (done.map Prod.fst) ∧ replay.moments = done ++
    ((if batch.isEmpty then [] else [(.barriers list batch, begun)]) ++
      [(.record list p, begun.crossAll batch)]) ++ rest

theorem Followed.passBlock {events : List Event} {list : ListId} {batch : List Barrier}
    {p : PassId} : Followed (events ++ passBlock list batch p) := by
  intro list batch last
  simp [RenderGraph.passBlock] at last

namespace Brief

variable {b : Brief} {s : Schedule} {d : Draft} {n : Nat} {p : PassId} {pass : Pass}
  {list : ListId} {batch : List Barrier} {r : ResourceId}

def SettledBefore (b : Brief) (n : Nat) (r : ResourceId) : Prop :=
  ∀ (m : Nat) q other, m < n → b.live[m]? = some (q, other) → other.queue ≠ .copy →
    other.Settles r

theorem Turn.last_replay (turn : b.Turn s n p pass d list batch)
    (settles : pass.queue ≠ .copy → pass.Settles r) {states : States}
    (tracked : states r = b.tracked n r) :
    (b.declaration.replay states (passBlock list batch p)).last r = b.tracked (n + 1) r := by
  have found : b.declaration.pass? p = some pass :=
    Declaration.pass?_of_mem_survivors (List.mem_of_getElem? turn.entry)
  have begun : states.begin b.declaration p r = b.found n pass r := by
    rw [turn.begin_eq]
    exact States.enter_congr tracked pass.creates
  rw [Declaration.replay_passBlock]
  change ((states.begin b.declaration p).crossAll batch).finish b.declaration p r = _
  by_cases onCopy : pass.queue = .copy
  · obtain ⟨rfl, next⟩ := turn.copies onCopy
    rw [next, States.finish, found]
    simp only [if_pos onCopy]
    exact States.enter_congr begun _
  · have kept (after : States) : after.finish b.declaration p = after := by
      rw [States.finish, found]
      simp only [if_neg onCopy]
    rw [kept]
    cases held : b.found n pass r with
    | none =>
      obtain ⟨none, missing, _⟩ := turn.misses r held
      rw [States.crossAll_of_none none, begun, held, missing]
    | some state =>
      obtain ⟨steps, next⟩ := turn.routes onCopy r state held
      have links : Links state (transitionsOf r batch) (b.route n pass r state).state :=
        steps ▸ linked_route (settles onCopy)
      rw [States.crossAll_of_links (begun.trans held) links, next]

theorem last_replay_arrive (start : States) (followed : Followed d.events) (pass : Pass) :
    (b.declaration.replay start (d.arrive pass).events).last =
      (b.declaration.replay start d.events).last := by
  obtain ⟨more, arrived, plain⟩ := d.continues_arrive pass
  rw [arrived, Declaration.replay_append _ followed, Declaration.replay_plain _ _ plain]

theorem last_replay_drafted (closed : b.declaration.Closed) (made : b.schedule = .ok s)
    (within : n ≤ b.live.length) (settled : b.SettledBefore n r)
    (drafted : Draft.recordAll b 0 (b.live.take n) { tracks := b.startTracks } = .ok d) :
    (b.declaration.replay (b.declaration.startStates b.survival) d.events).last r =
        b.tracked n r ∧
      Followed d.events := by
  induction n generalizing d with
  | zero =>
    cases drafted
    refine ⟨?_, fun _ _ => nofun⟩
    rw [tracked, List.take_zero, ← Draft.states_start]
    rfl
  | succ n ih =>
    obtain ⟨⟨p, pass⟩, entry⟩ : ∃ entry, b.live[n]? = some entry :=
      ⟨_, List.getElem?_eq_getElem within⟩
    obtain ⟨d₀, list, batch, turn⟩ := exists_turn closed made entry
    obtain ⟨d', next, events⟩ := turn.next
    cases next.symm.trans drafted
    have before : b.SettledBefore n r :=
      fun m q other less => settled m q other (Nat.lt_succ_of_lt less)
    obtain ⟨replayed, followed⟩ := ih (Nat.le_of_lt within) before turn.drafted
    have settles : pass.queue ≠ .copy → pass.Settles r :=
      settled n p pass (Nat.lt_succ_self n) entry
    rw [events, Declaration.replay_append _ (turn.followed closed)]
    refine ⟨turn.last_replay settles ?_, Followed.passBlock⟩
    rw [last_replay_arrive _ followed, replayed]

theorem Turn.replay_arrive (turn : b.Turn s n p pass d list batch) (closed : b.declaration.Closed)
    (made : b.schedule = .ok s) (settled : b.SettledBefore n r) :
    (b.declaration.replay (b.declaration.startStates b.survival) (d.arrive pass).events).last r =
      b.tracked n r := by
  have within := (List.getElem?_eq_some_iff.mp turn.entry).1
  obtain ⟨replayed, followed⟩ :=
    last_replay_drafted closed made (Nat.le_of_lt within) settled turn.drafted
  rw [last_replay_arrive _ followed, replayed]

theorem Turn.begin_settled (turn : b.Turn s n p pass d list batch) (closed : b.declaration.Closed)
    (made : b.schedule = .ok s) (settled : b.SettledBefore n r) :
    (b.declaration.replay (b.declaration.startStates b.survival)
      (d.arrive pass).events).last.begin b.declaration p r = b.found n pass r := by
  rw [turn.begin_eq]
  exact States.enter_congr (turn.replay_arrive closed made settled) _

theorem Turn.records (turn : b.Turn s n p pass d list batch) (closed : b.declaration.Closed)
    (start : States) : (b.declaration.replay start s.events).Records p list batch
      ((b.declaration.replay start (d.arrive pass).events).last.begin b.declaration p) := by
  obtain ⟨more, events⟩ := turn.events
  refine ⟨(b.declaration.replay start (d.arrive pass).events).moments,
    (b.declaration.replay (b.declaration.replay start ((d.arrive pass).events ++
      passBlock list batch p)).last more).moments, ?_, ?_⟩
  · rw [Declaration.map_fst_replay]
    exact turn.followed closed
  · rw [← events, Declaration.replay_append _ Followed.passBlock,
      Declaration.replay_append _ (turn.followed closed), Declaration.replay_passBlock]

end Brief

end RenderGraph
