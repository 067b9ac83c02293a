import RenderGraph.Proofs.NextUse

/-! What merging reads saves, for one resource at a time. With reads merged a resource may be in a
wider read-only state than without. Then it has either had a transition less, or it was widened for
its next use, at which the other run has to catch up. -/

namespace RenderGraph

/-- How a resource stands before the `n`-th pass with reads merged and without: its states and the
numbers of transitions it has had. -/
inductive Saves (b : Brief) (n : Nat) (r : ResourceId) :
    Option ResourceState → Nat → Option ResourceState → Nat → Prop
  | level {state : Option ResourceState} {i j : Nat} (le : i ≤ j) : Saves b n r state i state j
  | ahead {wide narrow : ResourceState} {i j : Nat} (wideReads : wide.isReadOnly = true)
    (narrowReads : narrow.isReadOnly = true) (contains : wide.contains narrow = true)
    (lt : i < j) : Saves b n r (some wide) i (some narrow) j
  | early {state : ResourceState} {use : Use} {i j : Nat} (reads : state.isReadOnly = true)
    (next : b.nextUse n r = some use) (joins : use.Joins) (le : i ≤ j) :
    Saves b n r (some (state ∪ use.state)) i (some state) j

theorem ResourceState.isReadOnly_of_satisfies {held required : ResourceState}
    (satisfied : held.satisfies required = true) (reads : held.isReadOnly = true) :
    required.isReadOnly = true := by
  rcases covers_iff_satisfies.mpr satisfied with rfl | ⟨readOnly, _, _⟩
  · exact reads
  · assumption

theorem Demand.lead_of_changing {demand : Demand} (aims : demand.target = demand.required)
    (changing : demand.required.isReadOnly = false) (route : Route) :
    (demand.lead route).state = demand.required ∧ (demand.lead route).steps.length =
      route.steps.length + if route.state = demand.required then 0 else 1 := by
  have exact_ : route.state.satisfies demand.required = true ↔ route.state = demand.required := by
    simp [ResourceState.satisfies, changing]
  by_cases same : route.state = demand.required
  · rw [lead_of_satisfied (exact_.mpr same), if_pos same]
    exact ⟨same, rfl⟩
  · rw [lead_of_none (mt exact_.mp same) (widenStep_of_changing changing _), if_neg same, aims]
    simp

theorem Demand.lead_nil (demand : Demand) (state : ResourceState) :
    demand.lead ⟨state, []⟩ = if state.satisfies demand.required then ⟨state, []⟩
      else ⟨demand.target, [demand.transition state]⟩ := by
  split
  · rename_i satisfied
    exact lead_of_satisfied satisfied
  · rename_i unsatisfied
    exact lead_of_none unsatisfied rfl

namespace Saves

variable {b : Brief} {n m : Nat} {p : PassId} {pass : Pass} {r : ResourceId} {i j : Nat}
  {merged plain : Option ResourceState} {wide narrow : ResourceState}

theorem le (saves : Saves b n r merged i plain j) : i ≤ j := by
  cases saves with
  | level le => exact le
  | ahead _ _ _ lt => exact Nat.le_of_lt lt
  | early _ _ _ le => exact le

theorem skip (saves : Saves b n r merged i plain j)
    (unused : ∀ use ∈ b.usesOf r, use.ordinal ≠ n) : Saves b (n + 1) r merged i plain j := by
  cases saves with
  | level le => exact .level le
  | ahead wideReads narrowReads contains lt => exact .ahead wideReads narrowReads contains lt
  | early reads next joins le =>
    exact .early reads ((Brief.nextUse_succ unused).trans next) joins le

theorem same_or_wider (saves : Saves b n r (some wide) i (some narrow) j) :
    wide = narrow ∨ wide.isReadOnly = true ∧ narrow.isReadOnly = true ∧
      wide.contains narrow = true := by
  cases saves with
  | level => exact Or.inl rfl
  | ahead wideReads narrowReads contains => exact Or.inr ⟨wideReads, narrowReads, contains⟩
  | early reads _ joins =>
    exact Or.inr ⟨ResourceState.isReadOnly_union reads joins.readOnly, reads,
      ResourceState.contains_union_left _ _⟩

theorem change (demand : Demand) (aims : demand.target = demand.required)
    (changing : demand.required.isReadOnly = false) {route route' : Route}
    (saves : Saves b n r (some route.state) (i + route.steps.length) (some route'.state)
      (j + route'.steps.length)) :
    Saves b m r (some (demand.lead route).state) (i + (demand.lead route).steps.length)
      (some (demand.lead route').state) (j + (demand.lead route').steps.length) := by
  obtain ⟨state, steps⟩ := demand.lead_of_changing aims changing route
  obtain ⟨state', steps'⟩ := demand.lead_of_changing aims changing route'
  have le := saves.le
  have other {held : ResourceState} (reads : held.isReadOnly = true) : held ≠ demand.required := by
    rintro rfl
    simp [reads] at changing
  rw [state, state', steps, steps']
  rcases saves.same_or_wider with same | ⟨wideReads, narrowReads, _⟩
  · rw [same]
    exact .level (by omega)
  · rw [if_neg (other wideReads), if_neg (other narrowReads)]
    exact .level (by omega)

theorem writes {queue : Queue} {writes : List Access} (some_ : writes ≠ [])
    (changing : ∀ a ∈ writes, a.state.isReadOnly = false) {route route' : Route}
    (saves : Saves b n r (some route.state) (i + route.steps.length) (some route'.state)
      (j + route'.steps.length)) {led led' : Route}
    (leads : led = Demand.leadAll (writes.map ((b.merging true).demand m queue true)) route)
    (leads' : led' = Demand.leadAll (writes.map ((b.merging false).demand m queue true)) route') :
    Saves b (m + 1) r (some led.state) (i + led.steps.length) (some led'.state)
      (j + led'.steps.length) := by
  induction writes generalizing n route route' with
  | nil => exact absurd rfl some_
  | cons a writes ih =>
    have first := saves.change (m := m + 1) ⟨queue, a, true, a.state⟩ rfl
      (changing a List.mem_cons_self)
    rw [List.map_cons, Brief.demand, Brief.targetState_output] at leads leads'
    cases writes with
    | nil =>
      subst leads leads'
      exact first
    | cons next writes =>
      exact ih (List.cons_ne_nil _ _) (fun b member => changing b (List.mem_cons_of_mem _ member))
        first leads leads'

theorem satisfies {required : ResourceState} (saves : Saves b n r (some wide) i (some narrow) j)
    (satisfied : narrow.satisfies required = true) : wide.satisfies required = true := by
  rcases saves.same_or_wider with rfl | ⟨wideReads, narrowReads, contains⟩
  · exact satisfied
  · exact ResourceState.satisfies_of_contains wideReads
      (ResourceState.isReadOnly_of_satisfies satisfied narrowReads)
      (ResourceState.contains_trans contains (ResourceState.contains_of_satisfies satisfied))

/-- A read that finds the resource in a state that does in both runs. Where reads were merged for
it, the states were the same all along. -/
theorem satisfied {required : ResourceState}
    (next : ∀ use, b.nextUse n r = some use → use.output = false → use.state = required)
    (saves : Saves b n r (some wide) i (some narrow) j)
    (holds : narrow.satisfies required = true) :
    Saves b m r (some wide) i (some narrow) j := by
  cases saves with
  | level le => exact .level le
  | ahead wideReads narrowReads contains lt => exact .ahead wideReads narrowReads contains lt
  | early reads found joins le =>
    rw [next _ found joins.reads,
      ResourceState.union_of_contains (ResourceState.contains_of_satisfies holds)]
    exact .level le

theorem catch_up {required : ResourceState} (saves : Saves b n r (some wide) i (some narrow) j)
    (holds : wide.satisfies required = true) (lacks : ¬ narrow.satisfies required = true) :
    Saves b m r (some wide) i (some required) (j + 1) := by
  rcases saves.same_or_wider with rfl | ⟨wideReads, _, _⟩
  · exact absurd holds lacks
  · exact .ahead wideReads (ResourceState.isReadOnly_of_satisfies holds wideReads)
      (ResourceState.contains_of_satisfies holds) (Nat.lt_succ_of_le saves.le)

theorem read (queue : Queue) {a : Access} (here : a.resource = r)
    (next : ∀ use, b.nextUse n r = some use → use.output = false → use.state = a.state)
    (saves : Saves b n r (some wide) i (some narrow) j) {led led' : Route}
    (leads : led = ((b.merging true).demand n queue false a).lead ⟨wide, []⟩)
    (leads' : led' = ((b.merging false).demand n queue false a).lead ⟨narrow, []⟩) :
    Saves b (n + 1) r (some led.state) (i + led.steps.length) (some led'.state)
      (j + led'.steps.length) := by
  have required (merges : Bool) : ((b.merging merges).demand n queue false a).required = a.state :=
    rfl
  have plain : ((b.merging false).demand n queue false a).target = a.state :=
    b.targetState_plain n queue a
  rw [Demand.lead_nil, required] at leads leads'
  rw [plain] at leads'
  subst leads leads'
  by_cases holds : narrow.satisfies a.state = true
  · rw [if_pos holds, if_pos (saves.satisfies holds)]
    exact saves.satisfied next holds
  rw [if_neg holds]
  by_cases holds' : wide.satisfies a.state = true
  · rw [if_pos holds']
    exact saves.catch_up holds' holds
  · -- Both runs make a transition. The merged one may aim at the next use as well.
    rw [if_neg holds']
    rcases b.targetState_merged n queue a with same | ⟨reads, use, found, joins, wider⟩
    · rw [show ((b.merging true).demand n queue false a).target = a.state from same]
      exact .level (Nat.succ_le_succ saves.le)
    · rw [show ((b.merging true).demand n queue false a).target = a.state ∪ use.state from wider]
      exact .early reads (here ▸ found) joins (Nat.succ_le_succ saves.le)

theorem route (entry : b.live[n]? = some (p, pass))
    (single : (pass.reads.filter (·.resource == r)).length ≤ 1)
    (changing : ∀ a ∈ pass.writes, a.state.isReadOnly = false)
    (idle : pass.reads.filter (·.resource == r) = [] → pass.writes.filter (·.resource == r) = [] →
      Saves b (n + 1) r (some wide) i (some narrow) j)
    (saves : Saves b n r (some wide) i (some narrow) j) :
    Saves b (n + 1) r (some ((b.merging true).route n pass r wide).state)
      (i + ((b.merging true).route n pass r wide).steps.length)
      (some ((b.merging false).route n pass r narrow).state)
      (j + ((b.merging false).route n pass r narrow).steps.length) := by
  unfold Brief.route Brief.demandsOf
  rw [Demand.leadAll_append, Demand.leadAll_append]
  have changing' : ∀ a ∈ pass.writes.filter (·.resource == r), a.state.isReadOnly = false :=
    fun a member => changing a (List.mem_filter.mp member).1
  generalize reads : pass.reads.filter (·.resource == r) = read at single idle ⊢
  generalize pass.writes.filter (·.resource == r) = writes at changing' idle ⊢
  rcases read with _ | ⟨a, _ | ⟨second, more⟩⟩
  · cases writes with
    | nil => exact idle rfl rfl
    | cons => exact saves.writes (List.cons_ne_nil _ _) changing' rfl rfl
  · have here : a.resource = r := by
      have member : a ∈ pass.reads.filter (·.resource == r) := reads ▸ List.mem_singleton_self a
      exact eq_of_beq (List.mem_filter.mp member).2
    have after := saves.read pass.queue here (fun _ => Brief.state_of_nextUse entry reads) rfl rfl
    cases writes with
    | nil => exact after
    | cons => exact after.writes (List.cons_ne_nil _ _) changing' rfl rfl
  · simp at single

theorem enter (accesses : List Access) {first second : States}
    (saves : Saves b n r (first r) i (second r) j) :
    Saves b n r (first.enter accesses r) i (second.enter accesses r) j ∧
      (accesses.filter (·.resource == r) = [] ∨
        Saves b m r (first.enter accesses r) i (second.enter accesses r) j) := by
  rw [States.enter_apply, States.enter_apply]
  cases last : (accesses.filter (·.resource == r)).getLast? with
  | none => exact ⟨saves, Or.inl (List.getLast?_eq_none_iff.mp last)⟩
  | some a => exact ⟨.level saves.le, Or.inr (.level saves.le)⟩

variable {s s' : Schedule} {d d' : Draft} {list list' : ListId} {batch batch' : List Barrier}

theorem turn (single : (pass.reads.filter (·.resource == r)).length ≤ 1)
    (changing : ∀ a ∈ pass.writes, a.state.isReadOnly = false)
    (first : (b.merging true).Turn s n p pass d list batch)
    (second : (b.merging false).Turn s' n p pass d' list' batch')
    (saves : Saves b n r ((b.merging true).tracked n r) i ((b.merging false).tracked n r) j) :
    Saves b (n + 1) r ((b.merging true).tracked (n + 1) r) (i + (transitionsOf r batch).length)
      ((b.merging false).tracked (n + 1) r) (j + (transitionsOf r batch').length) := by
  have entry : b.live[n]? = some (p, pass) := first.entry
  obtain ⟨found, created⟩ := saves.enter (m := n + 1) pass.creates
  change Saves b n r ((b.merging true).found n pass r) i ((b.merging false).found n pass r) j
    at found
  -- Where the pass only creates the resource, or leaves it alone, there is nothing to do.
  have idle (unread : pass.reads.filter (·.resource == r) = [])
      (unwritten : pass.writes.filter (·.resource == r) = []) :
      Saves b (n + 1) r ((b.merging true).found n pass r) i
        ((b.merging false).found n pass r) j := by
    rcases created with uncreated | level
    · rw [List.filter_eq_nil_iff] at unread unwritten uncreated
      have untouched : pass.touches r = false := by
        simp only [Pass.touches, Pass.accesses, List.any_append, Bool.or_eq_false_iff,
          List.any_eq_false]
        exact ⟨⟨uncreated, unread⟩, unwritten⟩
      exact found.skip (Brief.unused_of_untouched entry untouched)
    · exact level
  by_cases onCopy : pass.queue = .copy
  · obtain ⟨rfl, next⟩ := first.copies onCopy
    obtain ⟨rfl, next'⟩ := second.copies onCopy
    rw [next, next']
    obtain ⟨_, untouched | level⟩ := found.enter (m := n + 1) (pass.reads ++ pass.writes)
    · rw [List.filter_append, List.append_eq_nil_iff] at untouched
      exact ((idle untouched.1 untouched.2).enter (m := n) _).1
    · exact level
  cases held : (b.merging true).found n pass r with
  | none =>
    cases held' : (b.merging false).found n pass r with
    | none =>
      obtain ⟨none, missing, _⟩ := first.misses r held
      obtain ⟨none', missing', _⟩ := second.misses r held'
      rw [none, none', missing, missing']
      exact .level found.le
    | some narrow =>
      rw [held, held'] at found
      cases found
  | some wide =>
    cases held' : (b.merging false).found n pass r with
    | none =>
      rw [held, held'] at found
      cases found
    | some narrow =>
      obtain ⟨steps, next⟩ := first.routes onCopy r wide held
      obtain ⟨steps', next'⟩ := second.routes onCopy r narrow held'
      rw [held, held'] at found idle
      rw [steps, steps', next, next']
      exact found.route entry single changing idle

end Saves

end RenderGraph
