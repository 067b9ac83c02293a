import RenderGraph.Proofs.DraftState

/-! One resource on its way through the barriers of a pass. Of the accesses only those to the
resource matter, and of the batch only its transitions. Each access in turn finds the resource in a
state that satisfies it, has a transition of the batch widened, or adds a transition. -/

namespace RenderGraph

/-- The state that a resource has been brought into, and the transitions that bring it there. -/
structure Route where
  state : ResourceState
  steps : List Transition

def widenStep (required : ResourceState) :
    List Transition → Option (ResourceState × List Transition)
  | [] => none
  | t :: rest =>
    if t.after.isReadOnly = true ∧ required.isReadOnly = true then
      some (t.after ∪ required, { t with after := t.after ∪ required } :: rest)
    else (widenStep required rest).map fun (after, rest) => (after, t :: rest)

/-- How serving an access off the copy queue leads its resource on. -/
def Demand.lead (demand : Demand) (route : Route) : Route :=
  if route.state.satisfies demand.required then route
  else match widenStep demand.required route.steps with
    | some (after, steps) => ⟨after, steps⟩
    | none => ⟨demand.target, route.steps ++ [demand.transition route.state]⟩

def Demand.leadAll (demands : List Demand) (route : Route) : Route :=
  demands.foldl (fun route demand => demand.lead route) route

theorem Demand.leadAll_append (first second : List Demand) (route : Route) :
    leadAll (first ++ second) route = leadAll second (leadAll first route) :=
  List.foldl_append

namespace Brief

def demand (b : Brief) (ordinal : Nat) (queue : Queue) (output : Bool) (a : Access) : Demand :=
  ⟨queue, a, output, b.targetState ordinal queue a output⟩

def demandsOf (b : Brief) (ordinal : Nat) (pass : Pass) (r : ResourceId) : List Demand :=
  (pass.reads.filter (·.resource == r)).map (b.demand ordinal pass.queue false) ++
    (pass.writes.filter (·.resource == r)).map (b.demand ordinal pass.queue true)

/-- The way of a resource through the barriers of a pass that finds it in the given state. -/
def route (b : Brief) (ordinal : Nat) (pass : Pass) (r : ResourceId) (found : ResourceState) :
    Route :=
  Demand.leadAll (b.demandsOf ordinal pass r) ⟨found, []⟩

end Brief

theorem widenStep_transitionsOf (r : ResourceId) (required : ResourceState)
    (batch : List Barrier) : widenStep required (transitionsOf r batch) =
      (widen r required batch).map fun (after, batch) => (after, transitionsOf r batch) := by
  induction batch with
  | nil => rfl
  | cons barrier batch ih =>
    cases barrier with
    | unordered q =>
      simp only [transitionsOf, widen, ih, Option.map_map]
      rfl
    | transition t =>
      rw [transitionsOf, widen]
      by_cases here : t.resource = r
      · rw [if_pos here, widenStep]
        by_cases readOnly : t.after.isReadOnly = true ∧ required.isReadOnly = true
        · rw [if_pos readOnly, if_pos ⟨here, readOnly⟩]
          simp [transitionsOf, here]
        · rw [if_neg readOnly, if_neg fun all => readOnly all.2, ih, Option.map_map,
            Option.map_map]
          congr 1
          funext widened
          simp [transitionsOf, here]
      · rw [if_neg here, if_neg fun all => here all.1, ih, Option.map_map]
        congr 1
        funext widened
        simp [transitionsOf, here]

namespace Demand

variable {demand : Demand} {current : ResourceState} {s : Serving} {route : Route}

theorem lead_of_satisfied (satisfied : route.state.satisfies demand.required = true) :
    demand.lead route = route := by
  rw [lead, if_pos satisfied]

theorem lead_of_none (unsatisfied : ¬ route.state.satisfies demand.required = true)
    (none : widenStep demand.required route.steps = none) :
    demand.lead route = ⟨demand.target, route.steps ++ [demand.transition route.state]⟩ := by
  rw [lead, if_neg unsatisfied, none]

theorem lead_of_some (unsatisfied : ¬ route.state.satisfies demand.required = true)
    {after : ResourceState} {steps : List Transition}
    (widened : widenStep demand.required route.steps = some (after, steps)) :
    demand.lead route = ⟨after, steps⟩ := by
  rw [lead, if_neg unsatisfied, widened]

theorem lead_of_serve (records : demand.queue.recordsTransitions = true)
    (state : s.track.state = some current) :
    (demand.serve current s).track.state =
        some (demand.lead ⟨current, transitionsOf demand.access.resource s.batch⟩).state ∧
      transitionsOf demand.access.resource (demand.serve current s).batch =
        (demand.lead ⟨current, transitionsOf demand.access.resource s.batch⟩).steps := by
  by_cases satisfied : current.satisfies demand.required = true
  · obtain ⟨kept, transitions⟩ := serve_of_satisfied (s := s) records satisfied
    rw [lead, if_pos satisfied]
    exact ⟨kept.trans state, transitions _⟩
  · rw [serve_of_unsatisfied records satisfied, lead, if_neg satisfied, widenStep_transitionsOf]
    cases widened : widen demand.access.resource demand.required s.batch with
    | none =>
      obtain ⟨moves, batch⟩ := transit_of_none current widened
      have single : transitionsOf demand.access.resource
          [.transition (demand.transition current)] = [demand.transition current] :=
        transitionsOf_transition
      rw [batch, transitionsOf_append, single]
      exact ⟨moves, rfl⟩
    | some result =>
      obtain ⟨moves, batch⟩ := transit_of_some current widened
      rw [batch]
      exact ⟨moves, rfl⟩

end Demand

namespace Draft

variable {b : Brief} {d d' served : Draft} {ordinal : Nat} {pass : Pass} {queue : Queue}
  {output : Bool} {accesses : List Access} {batch batch' : List Barrier}
  {read : Draft × List Barrier} {r : ResourceId} {found : ResourceState}

def Carries (d : Draft) (batch : List Barrier) (r : ResourceId) (route : Route) : Prop :=
  d.states r = some route.state ∧ transitionsOf r batch = route.steps

theorem Carries.serveAll {route : Route} (carries : d.Carries batch r route)
    (records : queue.recordsTransitions = true)
    (serves : serveAll b ordinal queue output accesses (d, batch) = .ok (d', batch')) :
    d'.Carries batch' r (Demand.leadAll
      ((accesses.filter (·.resource == r)).map (b.demand ordinal queue output)) route) := by
  induction accesses generalizing d batch route with
  | nil =>
    cases serves
    exact carries
  | cons a rest ih =>
    obtain ⟨current, state, later⟩ := serveAll_cons_ok serves
    obtain ⟨held, steps⟩ := carries
    rw [List.filter_cons]
    by_cases here : a.resource = r
    · subst here
      have same : current = route.state := Option.some.inj (state.symm.trans held)
      subst same
      have asks : (b.demand ordinal queue output a).queue.recordsTransitions = true := records
      obtain ⟨moves, transitions⟩ :=
        Demand.lead_of_serve (s := ⟨d.track a.resource, batch⟩) asks state
      have led : Route.mk route.state (transitionsOf a.resource batch) = route := by rw [steps]
      rw [if_pos (beq_self_eq_true _), List.map_cons, Demand.leadAll, List.foldl_cons, ← led]
      refine ih ⟨?_, transitions⟩ later
      unfold states
      rw [track_modifyTrack, if_pos ⟨rfl, inside_of_state state⟩]
      exact moves
    · rw [if_neg fun same => here (eq_of_beq same)]
      refine ih ⟨?_, (Demand.transitionsOf_serve_other (Ne.symm here)).trans steps⟩ later
      unfold states
      rw [track_modifyTrack, if_neg fun both => here both.1.symm]
      exact held

theorem carries_served (records : pass.queue.recordsTransitions = true)
    (reads : serveAll b ordinal pass.queue false pass.reads (d, []) = .ok read)
    (writes : serveAll b ordinal pass.queue true pass.writes read = .ok (served, batch))
    (held : d.states r = some found) :
    served.Carries batch r (b.route ordinal pass r found) := by
  have start : d.Carries [] r ⟨found, []⟩ := ⟨held, rfl⟩
  rw [Brief.route, Brief.demandsOf, Demand.leadAll_append]
  exact (start.serveAll records reads).serveAll records writes

end Draft

end RenderGraph
