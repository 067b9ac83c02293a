import RenderGraph.Proofs.StateMoves

/-! What the transitions of a schedule name as the state before, and the state that the schedule
leaves a resource in once it has brought it into any. -/

namespace RenderGraph

namespace Brief

variable {b : Brief} {s : Schedule} {d last : Draft} {n : Nat} {p : PassId} {pass : Pass}
  {list : ListId} {batch early late : List Barrier} {r : ResourceId} {state target : ResourceState}
  {tr t : Transition} {done rest more : List Event} {resource : Resource}

theorem transitionsOf_split (tr : Transition) (early late : List Barrier) :
    transitionsOf tr.resource (early ++ .transition tr :: late) =
      transitionsOf tr.resource early ++ tr :: transitionsOf tr.resource late := by
  rw [transitionsOf_append, transitionsOf, if_pos rfl]

theorem Turn.explains_before (turn : b.Turn s n p pass d list (early ++ .transition tr :: late))
    (closed : b.declaration.Closed) (made : b.schedule = .ok s)
    (once : b.declaration.CreatesOnce)
    (linked : b.SettledBefore (n + 1) tr.resource ∨ b.declaration.movesOf tr.resource
      ((d.arrive pass).events ++ [.barriers list early]) = []) :
    b.Explains tr.resource ((d.arrive pass).events ++ [.barriers list early]) tr.before := by
  obtain ⟨more, arrived, plain⟩ := d.continues_arrive pass
  have inside := (List.getElem?_eq_some_iff.mp turn.entry).1
  have notCopy : pass.queue ≠ .copy := fun onCopy => by
    simpa using (turn.copies onCopy).1
  have linked' : b.SettledBefore n tr.resource ∨
      b.declaration.movesOf tr.resource d.events = [] := by
    refine linked.imp (fun settled m q other less => settled m q other (Nat.lt_succ_of_lt less))
      fun none => ?_
    rw [Declaration.movesOf_append, arrived, Declaration.movesOf_append] at none
    exact (List.append_eq_nil_iff.mp (List.append_eq_nil_iff.mp none).1).1
  cases found : b.found n pass tr.resource with
  | none =>
    have none := (turn.misses tr.resource found).1
    rw [transitionsOf_split] at none
    simp at none
  | some first =>
    have explains := turn.explains_found closed made once
      (fun _ => explains_tracked closed made once (Nat.le_of_lt inside) turn.drafted linked') found
    rw [Explains, Declaration.movesOf_append, getLast?_append_or explains,
      Declaration.movesOf_barriers]
    rcases linked with settled | none
    · have links := turn.links notCopy found
        (Or.inl (settled n p pass (Nat.lt_succ_self n) turn.entry notCopy))
      rw [transitionsOf_split] at links
      exact links.split.1.last_or
    · rw [Declaration.movesOf_append, Declaration.movesOf_barriers] at none
      have unmoved := (List.append_eq_nil_iff.mp none).2
      have steps := (turn.routes notCopy tr.resource first found).1
      rw [transitionsOf_split, List.map_eq_nil_iff.mp unmoved] at steps
      have starts := b.starts_route n pass tr.resource first
      rw [Route.Starts, ← steps] at starts
      rw [unmoved, starts]
      rfl

theorem explains_draft (closed : b.declaration.Closed) (made : b.schedule = .ok s)
    (once : b.declaration.CreatesOnce) (drafted : b.draft = .ok last)
    (linked : b.SettledBefore b.live.length r ∨ b.declaration.movesOf r last.events = [])
    (held : last.states r = some state) : b.Explains r last.events state := by
  have recorded := recordAll_of_draft drafted
  rw [← b.live.take_length] at recorded
  refine explains_tracked closed made once (Nat.le_refl _) recorded linked ?_
  rw [tracked_of_drafted recorded]
  exact held

theorem explains_restored (closed : b.declaration.Closed) (made : b.schedule = .ok s)
    (once : b.declaration.CreatesOnce) (drafted : b.draft = .ok last)
    (plain : ∀ e ∈ more, e.isPlain = true)
    (split : (last.restoration b).map .transition = early ++ .transition tr :: late)
    (linked : b.SettledBefore b.live.length tr.resource ∨
      b.declaration.movesOf tr.resource (last.events ++ more ++ [.barriers list early]) = []) :
    b.Explains tr.resource (last.events ++ more ++ [.barriers list early]) tr.before := by
  obtain ⟨front, back, whole, rfl, transitions⟩ := List.map_eq_append_iff.mp split
  obtain ⟨restored, back, rfl, same, rfl⟩ := List.map_eq_cons_iff.mp transitions
  cases same
  have distinct := Draft.distinct_restoration b last
  rw [whole, List.pairwise_append] at distinct
  have apart : front.filter (·.resource == tr.resource) = [] :=
    List.filter_eq_nil_iff.mpr fun t member same =>
      distinct.2.2 t member tr List.mem_cons_self (eq_of_beq same)
  have moved : b.declaration.movesOf tr.resource
      (last.events ++ more ++ [.barriers list (front.map .transition)]) =
        b.declaration.movesOf tr.resource last.events := by
    rw [Declaration.movesOf_append, Declaration.movesOf_append, Declaration.movesOf_plain plain,
      Declaration.movesOf_barriers, Draft.transitionsOf_map, apart]
    simp
  have member : tr ∈ last.restoration b := by rw [whole]; simp
  rw [moved] at linked
  rw [Explains, moved]
  exact explains_draft closed made once drafted linked (Draft.mem_restoration member).1

/-- A transition of a schedule names the state that the schedule has brought its resource into last,
or else the assumed one, if the resource is settled or has not been brought into any. -/
theorem explains_before (closed : b.declaration.Closed) (made : b.schedule = .ok s)
    (once : b.declaration.CreatesOnce)
    (split : s.events = done ++ .barriers list (early ++ .transition tr :: late) :: rest)
    (linked : b.SettledBefore b.live.length tr.resource ∨
      b.declaration.movesOf tr.resource (done ++ [.barriers list early]) = []) :
    b.Explains tr.resource (done ++ [.barriers list early]) tr.before := by
  have held : s.events[done.length]? = some (.barriers list (early ++ .transition tr :: late)) := by
    rw [split, List.getElem?_append_right (Nat.le_refl _), Nat.sub_self, List.getElem?_cons_zero]
  rcases turn_or_restoration closed made held with
    ⟨n, p, pass, d, turn, _, place⟩ | ⟨⟨_, _, length⟩, last, drafted, restores, _⟩
  · obtain ⟨more, events⟩ := turn.events
    rw [split, List.append_assoc] at events
    obtain ⟨rfl, _⟩ := List.append_inj events place.symm
    refine turn.explains_before closed made once (linked.imp_left fun settled m q other less => ?_)
    exact settled m q other (Nat.lt_of_lt_of_le less (List.getElem?_eq_some_iff.mp turn.entry).1)
  · have made' := made
    rw [schedule, drafted] at made'
    cases made'
    obtain ⟨more, final, plain, events, ends⟩ := last.events_finish (last.restoration b)
    change (b.finish last).events = _ at events
    rcases ends with ⟨none, _⟩ | ⟨_, into, _, rfl⟩
    · rw [none] at restores
      simp at restores
    · rw [← List.append_assoc, split] at events
      have place : done.length = (last.events ++ more).length := by
        have lengths := congrArg List.length (split.symm.trans (split.trans events))
        rw [split] at length
        simp only [List.length_append, List.length_cons, List.length_nil] at length lengths ⊢
        omega
      obtain ⟨rfl, _⟩ := List.append_inj events place
      exact explains_restored closed made once drafted plain restores.symm linked

theorem after_of_mem_restoration (member : t ∈ last.restoration b)
    (held : b.declaration.resource? t.resource = some resource)
    (restores : resource.restoreState = some target) : t.after = target := by
  obtain ⟨⟨other, i⟩, found, made⟩ := List.mem_filterMap.mp member
  have here : t.resource = ⟨i⟩ := (Draft.of_restores made).1
  have same := List.mk_mem_zipIdx_iff_getElem?.mp found
  rw [here, Declaration.resource?, same] at held
  cases held
  dsimp only [Draft.restores] at made
  split at made
  · rename_i restored _
    split at made
    · cases made
    · cases made
      exact Option.some.inj (restored.symm.trans restores)
  · cases made

theorem mem_restoration_of_ne (live : b.survival.isLive r = true)
    (held : b.declaration.resource? r = some resource)
    (restores : resource.restoreState = some target) (tracked : last.states r = some state)
    (apart : state ≠ target) : ⟨r, state, target, {}⟩ ∈ last.restoration b := by
  refine List.mem_filterMap.mpr ⟨(resource, r.index), List.mk_mem_zipIdx_iff_getElem?.mpr held, ?_⟩
  have state' : (last.track r).state = some state := tracked
  simp [Draft.restores, live, restores, state', apart]

theorem state_of_unrestored (live : b.survival.isLive r = true)
    (held : b.declaration.resource? r = some resource)
    (restores : resource.restoreState = some target) (tracked : last.states r = some state)
    (unrestored : (last.restoration b).filter (·.resource == r) = []) : state = target := by
  by_contra apart
  have restored := mem_restoration_of_ne live held restores tracked apart
  exact List.filter_eq_nil_iff.mp unrestored _ restored (beq_self_eq_true r)

theorem movesOf_finish (b : Brief) (last : Draft) (r : ResourceId) :
    b.declaration.movesOf r (b.finish last).events = b.declaration.movesOf r last.events ++
      ((last.restoration b).filter (·.resource == r)).map (·.after) := by
  obtain ⟨more, final, plain, events, ends⟩ := last.events_finish (last.restoration b)
  change (b.finish last).events = _ at events
  rw [events, Declaration.movesOf_append, Declaration.movesOf_append,
    Declaration.movesOf_plain plain]
  rcases ends with ⟨none, rfl⟩ | ⟨_, into, _, rfl⟩
  · rw [none]
    rfl
  · have submits : b.declaration.movesOf r [.submit into] = [] := rfl
    rw [← List.singleton_append, Declaration.movesOf_append, Declaration.movesOf_barriers,
      Draft.transitionsOf_map, submits, List.append_nil, List.nil_append]

theorem left_of_settled (closed : b.declaration.Closed) (made : b.schedule = .ok s)
    (once : b.declaration.CreatesOnce) (settled : b.SettledBefore b.live.length r)
    (live : b.survival.isLive r = true) (held : b.declaration.resource? r = some resource)
    (restores : resource.restoreState = some target)
    (moved : b.declaration.movesOf r s.events ≠ []) :
    (b.declaration.movesOf r s.events).getLast? = some target := by
  obtain ⟨last, drafted, rfl⟩ := exists_draft made
  rw [movesOf_finish] at moved ⊢
  have targets : ∀ x ∈ ((last.restoration b).filter (·.resource == r)).map (·.after),
      x = target := by
    rintro _ inside
    obtain ⟨t, member, rfl⟩ := List.mem_map.mp inside
    obtain ⟨restored, same⟩ := List.mem_filter.mp member
    exact after_of_mem_restoration restored (eq_of_beq same ▸ held) restores
  rw [List.getLast?_append]
  cases final : (((last.restoration b).filter (·.resource == r)).map (·.after)).getLast? with
  | some x =>
    rw [targets x (List.mem_of_getLast? final)]
    rfl
  | none =>
    have none := List.getLast?_eq_none_iff.mp final
    rw [none, List.append_nil] at moved
    cases tracked : last.states r with
    | none =>
      have recorded := recordAll_of_draft drafted
      rw [← b.live.take_length] at recorded
      exact absurd (movesOf_of_untracked closed made (Nat.le_refl _) recorded
        ((congrFun (tracked_of_drafted recorded) r).trans tracked)) moved
    | some state =>
      have same := state_of_unrestored live held restores tracked (List.map_eq_nil_iff.mp none)
      have explains := explains_draft closed made once drafted (Or.inl settled) tracked
      rw [Explains] at explains
      cases reached : (b.declaration.movesOf r last.events).getLast? with
      | none => exact absurd (List.getLast?_eq_none_iff.mp reached) moved
      | some x =>
        rw [reached] at explains
        rw [← same]
        exact explains

end Brief

end RenderGraph
