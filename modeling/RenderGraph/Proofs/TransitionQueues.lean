import RenderGraph.Proofs.SettledStates

/-! The queues that carry transitions. A pass has its transitions made on its own queue, also where
a pass on another queue has left a resource in a state that only the graphics queue can leave. The
batch that restores states goes to a queue that supports all of it. -/

namespace RenderGraph

theorem ResourceState.meets_union (a b c : ResourceState) :
    (a ∪ b).meets c = (a.meets c || b.meets c) := by
  rw [Bool.eq_iff_iff]
  simp only [meets, bits_union, BitVec.and_or_distrib_right, bne_iff_ne, ne_eq, Bool.or_eq_true]
  rw [← not_and_or]
  exact not_congr BitVec.or_eq_zero_iff

namespace Queue

variable {queue : Queue} {a b : ResourceState}

theorem supports_union : queue.supports (a ∪ b) = true ↔
    queue.supports a = true ∧ queue.supports b = true := by
  cases queue <;> simp [supports, ResourceState.meets_union]

theorem supports_of_contains (supported : queue.supports a = true)
    (contains : a.contains b = true) : queue.supports b = true := by
  rw [← ResourceState.union_of_contains contains] at supported
  exact (supports_union.mp supported).2

theorem supports_of_satisfies (supported : queue.supports a = true)
    (satisfied : a.satisfies b = true) : queue.supports b = true :=
  supports_of_contains supported (ResourceState.contains_of_satisfies satisfied)

end Queue

/-- The queue supports both states of the transition. -/
def Transition.SupportedOn (t : Transition) (queue : Queue) : Prop :=
  queue.supports t.before = true ∧ queue.supports t.after = true

def Route.SupportedOn (route : Route) (queue : Queue) : Prop :=
  ∀ t ∈ route.steps, t.SupportedOn queue

theorem supportedOn_widenStep (queue : Queue) {required after : ResourceState}
    {ts us : List Transition} (widened : widenStep required ts = some (after, us)) :
    ((∀ t ∈ us, t.SupportedOn queue) ↔
      (∀ t ∈ ts, t.SupportedOn queue) ∧ queue.supports required = true) ∧
    ∃ t ∈ us, t.after = after := by
  induction ts generalizing us with
  | nil => cases widened
  | cons t ts ih =>
    rw [widenStep] at widened
    split at widened
    · cases widened
      refine ⟨?_, _, List.mem_cons_self, rfl⟩
      simp only [List.forall_mem_cons, Transition.SupportedOn, Queue.supports_union]
      tauto
    · obtain ⟨⟨after', rest⟩, found, same⟩ := Option.map_eq_some_iff.mp widened
      obtain ⟨rfl, rfl⟩ := Prod.mk.inj same
      obtain ⟨supported, u, member, reached⟩ := ih found
      refine ⟨?_, u, List.mem_cons_of_mem _ member, reached⟩
      rw [List.forall_mem_cons, List.forall_mem_cons, supported, and_assoc]

/-- What is known of a route from a state through some demands: either it has not moved, or it is
supported exactly if the queue supports the state found and every state required. -/
inductive Route.Weighs (queue : Queue) (found : ResourceState) (demands : List Demand) :
    Route → Prop
  | still (satisfied : ∀ d ∈ demands, found.satisfies d.required = true) :
    Weighs queue found demands ⟨found, []⟩
  | moved {route : Route}
    (unsatisfied : ∃ d ∈ demands, ¬ found.satisfies d.required = true)
    (supported : route.SupportedOn queue ↔
      queue.supports found = true ∧ ∀ d ∈ demands, queue.supports d.required = true)
    (state : route.SupportedOn queue → queue.supports route.state = true) :
    Weighs queue found demands route

theorem Route.Weighs.supportedOn_iff {queue : Queue} {found : ResourceState}
    {demands : List Demand} {route : Route} (weighs : route.Weighs queue found demands) :
    route.SupportedOn queue ↔ (∀ d ∈ demands, found.satisfies d.required = true) ∨
      queue.supports found = true ∧ ∀ d ∈ demands, queue.supports d.required = true := by
  cases weighs with
  | still satisfied => exact iff_of_true (fun _ none => by cases none) (Or.inl satisfied)
  | moved unsatisfied supported _ =>
    obtain ⟨d, member, other⟩ := unsatisfied
    rw [supported]
    exact ⟨Or.inr, fun either => either.resolve_left fun all => other (all d member)⟩

namespace Demand

variable {queue : Queue} {found : ResourceState} {demands : List Demand} {demand : Demand}
  {route : Route}

theorem supportedOn_added (queue : Queue) (route : Route)
    (target : demand.target = demand.required) :
    Route.SupportedOn ⟨demand.target, route.steps ++ [demand.transition route.state]⟩ queue ↔
      route.SupportedOn queue ∧ queue.supports route.state = true ∧
        queue.supports demand.required = true := by
  unfold Route.SupportedOn
  rw [List.forall_mem_append, List.forall_mem_singleton, Transition.SupportedOn, ← target]
  rfl

theorem weighs_lead (target : demand.target = demand.required)
    (weighs : route.Weighs queue found demands) :
    (demand.lead route).Weighs queue found (demands ++ [demand]) := by
  have concat {P : Demand → Prop} : (∀ d ∈ demands ++ [demand], P d) ↔
      (∀ d ∈ demands, P d) ∧ P demand := by
    rw [List.forall_mem_append, List.forall_mem_singleton]
  cases weighs with
  | still satisfied =>
    by_cases here : found.satisfies demand.required = true
    · rw [lead_of_satisfied here]
      exact .still (concat.mpr ⟨satisfied, here⟩)
    · rw [lead_of_none here rfl]
      have added := supportedOn_added queue ⟨found, []⟩ target
      refine .moved ⟨demand, by simp, here⟩ (added.trans ?_) fun supported =>
        target ▸ (added.mp supported).2.2
      rw [concat]
      constructor
      · rintro ⟨_, whole, required⟩
        exact ⟨whole, fun d member => Queue.supports_of_satisfies whole (satisfied d member),
          required⟩
      · rintro ⟨whole, _, required⟩
        exact ⟨fun _ none => (by cases none), whole, required⟩
  | moved unsatisfied supported state =>
    have unsatisfied' : ∃ d ∈ demands ++ [demand], ¬ found.satisfies d.required = true := by
      obtain ⟨d, member, other⟩ := unsatisfied
      exact ⟨d, List.mem_append_left _ member, other⟩
    have both : (queue.supports found = true ∧
        ∀ d ∈ demands ++ [demand], queue.supports d.required = true) ↔
          route.SupportedOn queue ∧ queue.supports demand.required = true := by
      rw [concat, ← and_assoc, ← supported]
    by_cases here : route.state.satisfies demand.required = true
    · rw [lead_of_satisfied here]
      refine .moved unsatisfied' (Iff.trans ?_ both.symm) state
      exact ⟨fun all => ⟨all, Queue.supports_of_satisfies (state all) here⟩, And.left⟩
    · cases widened : widenStep demand.required route.steps with
      | some wider =>
        obtain ⟨after, steps⟩ := wider
        obtain ⟨wide, t, member, reached⟩ := supportedOn_widenStep queue widened
        rw [lead_of_some here widened]
        exact .moved unsatisfied' (wide.trans both.symm) fun all => reached ▸ (all t member).2
      | none =>
        rw [lead_of_none here widened]
        have added := supportedOn_added queue route target
        refine .moved unsatisfied' (added.trans (Iff.trans ?_ both.symm)) fun all =>
          target ▸ (added.mp all).2.2
        exact and_congr_right fun all => and_iff_right (state all)

theorem weighs_leadAll {more : List Demand} (targets : ∀ d ∈ more, d.target = d.required)
    (weighs : route.Weighs queue found demands) :
    (leadAll more route).Weighs queue found (demands ++ more) := by
  induction more generalizing demands route with
  | nil => rwa [List.append_nil]
  | cons d more ih =>
    obtain ⟨target, targets⟩ := List.forall_mem_cons.mp targets
    rw [List.append_cons]
    exact ih targets (weighs_lead target weighs)

end Demand

namespace Pass

def accessesTo (pass : Pass) (r : ResourceId) : List Access :=
  (pass.reads ++ pass.writes).filter (·.resource == r)

/-- What it takes for the queue of a pass to support all transitions of a resource that the pass
finds in a state: it needs none, or the queue supports that state and every state it asks for. -/
def SupportedFrom (pass : Pass) (r : ResourceId) (found : ResourceState) : Prop :=
  (∀ a ∈ pass.accessesTo r, found.satisfies a.state = true) ∨
    pass.queue.supports found = true ∧ ∀ a ∈ pass.accessesTo r, pass.queue.supports a.state = true

end Pass

namespace Brief

variable {b : Brief} {s : Schedule} {d : Draft} {n : Nat} {p : PassId} {pass : Pass}
  {list : ListId} {batch : List Barrier} {r : ResourceId} {found : ResourceState}

theorem target_of_mem_demandsOf (compute : pass.queue = .compute) {demand : Demand}
    (member : demand ∈ b.demandsOf n pass r) : demand.target = demand.required := by
  have plain (output : Bool) (a : Access) :
      b.targetState n pass.queue a output = a.state := by
    simp [targetState, compute]
  rcases List.mem_append.mp member with isRead | written
  · obtain ⟨a, _, rfl⟩ := List.mem_map.mp isRead
    exact plain false a
  · obtain ⟨a, _, rfl⟩ := List.mem_map.mp written
    exact plain true a

theorem forall_mem_demandsOf {P : ResourceState → Prop} :
    (∀ demand ∈ b.demandsOf n pass r, P demand.required) ↔
      ∀ a ∈ pass.accessesTo r, P a.state := by
  rw [Pass.accessesTo, ← b.map_access_demandsOf n, List.forall_mem_map]
  rfl

theorem supportedOn_route_iff (notCopy : pass.queue ≠ .copy) :
    (b.route n pass r found).SupportedOn pass.queue ↔ pass.SupportedFrom r found := by
  cases queue : pass.queue with
  | copy => exact absurd queue notCopy
  | graphics =>
    have supported (state : ResourceState) : Queue.graphics.supports state = true := rfl
    exact iff_of_true (fun t _ => ⟨supported _, supported _⟩)
      (Or.inr (queue ▸ ⟨supported _, fun a _ => supported _⟩))
  | compute =>
    have still : Route.Weighs .compute found [] ⟨found, []⟩ := .still fun _ none => by cases none
    have weighs : (b.route n pass r found).Weighs .compute found (b.demandsOf n pass r) :=
      Demand.weighs_leadAll (fun _ => target_of_mem_demandsOf queue) still
    rw [weighs.supportedOn_iff, Pass.SupportedFrom, queue]
    rw [forall_mem_demandsOf (P := fun state => found.satisfies state = true),
      forall_mem_demandsOf (P := fun state => Queue.compute.supports state = true)]

theorem Turn.supportedOn_iff (turn : b.Turn s n p pass d list batch) (notCopy : pass.queue ≠ .copy)
    (r : ResourceId) :
    (∀ t, .transition t ∈ batch → t.resource = r → t.SupportedOn pass.queue) ↔
      ∀ found, b.found n pass r = some found → pass.SupportedFrom r found := by
  have own : (∀ t, .transition t ∈ batch → t.resource = r → t.SupportedOn pass.queue) ↔
      ∀ t ∈ transitionsOf r batch, t.SupportedOn pass.queue :=
    forall_congr' fun t => by rw [mem_transitionsOf, and_imp]
  rw [own]
  cases found : b.found n pass r with
  | none =>
    rw [(turn.misses r found).1]
    exact iff_of_true (fun _ none => by cases none) fun _ none => by cases none
  | some state =>
    rw [(turn.routes notCopy r state found).1]
    exact (supportedOn_route_iff notCopy).trans (by simp)

theorem Turn.notCopy (turn : b.Turn s n p pass d list batch)
    (held : s.events[(d.arrive pass).events.length]? = some (.barriers list batch)) :
    pass.queue ≠ .copy := by
  intro onCopy
  obtain ⟨rfl, _⟩ := turn.copies onCopy
  cases held.symm.trans turn.record

end Brief

theorem Draft.supportedOn_restoreQueue {d : Draft} {restore : List Transition} {t : Transition}
    (member : t ∈ restore) : t.SupportedOn (d.restoreQueue restore) := by
  have graphics : t.SupportedOn .graphics := ⟨rfl, rfl⟩
  unfold restoreQueue
  split
  · split
    · rename_i supported
      exact Bool.and_eq_true_iff.mp (List.all_eq_true.mp supported t member)
    · exact graphics
  · exact graphics

namespace Session

variable {s s' : Session}

/-- When transitions are supported by the queue that carries them. Those that restore states always
are. Those that a pass makes for a resource are if the pass finds the resource in states that do for
it, or finds it in a state that its own queue supports and asks for such states alone. -/
theorem transitions_supported_iff (reachable : s.Reachable) (does : s.Does Graph.compile s') :
    ∃ c b, s'.graph.compilation = some c ∧ b = s'.graph.brief s'.graph.config.mergesReads ∧
      b.live = s'.graph.declaration.surviving ∧
      ∀ (m : Nat) list batch, c.schedule.events[m]? = some (.barriers list batch) →
        (c.schedule.RestoresAt m list batch ∧ ∃ queue, c.schedule.listQueue? list = some queue ∧
          ∀ t, .transition t ∈ batch → t.SupportedOn queue) ∨
        ∃ n p pass begun, b.live[n]? = some (p, pass) ∧
          c.schedule.events[m + 1]? = some (.record list p) ∧
          c.schedule.listQueue? list = some pass.queue ∧
          (b.declaration.replay (b.declaration.startStates b.survival) c.schedule.events).Records
            p list batch begun ∧
          ∀ r, (b.SettledBefore n r → begun r = b.found n pass r) ∧
            ((∀ t, .transition t ∈ batch → t.resource = r → t.SupportedOn pass.queue) ↔
              ∀ found, b.found n pass r = some found → pass.SupportedFrom r found) := by
  obtain ⟨c, made, compiled, _, declaration, _⟩ := does.compiled
  have closed : s'.graph.declaration.Closed := declaration ▸ reachable.closed
  refine ⟨c, _, compiled.compilation, rfl, compiled.live_eq, fun m list batch held => ?_⟩
  rcases Brief.turn_or_restoration closed compiled.schedule held with
    ⟨n, p, pass, d, turn, next, rfl⟩ | ⟨restores, last, _, rfl, queue⟩
  · exact Or.inr ⟨n, p, pass, _, turn.entry, next, turn.queue, turn.records closed _,
      fun r => ⟨turn.begin_settled closed compiled.schedule,
        turn.supportedOn_iff (turn.notCopy held) r⟩⟩
  · refine Or.inl ⟨restores, _, queue, fun t member => ?_⟩
    obtain ⟨u, restored, same⟩ := List.mem_map.mp member
    cases same
    exact Draft.supportedOn_restoreQueue restored

/-! An image that the graphics queue makes and the compute queue bins. -/

def binned (blueprint : Blueprint) (made : Usage) : Session := [
  .declare "prepass" .graphics [.create blueprint "image" made []] none,
  .declare "bin" .compute [.read ⟨0⟩ "image" .nonPixelShaderRead [], .sideEffects true]
    none].foldl act (start {} [] {})

def makePass (made : Usage) : Pass where
  name := "prepass"
  queue := .graphics
  creates := [{ name := "image", resource := ⟨0⟩, usage := made }]

def binPass : Pass where
  name := "bin"
  queue := .compute
  reads := [{ name := "image", resource := ⟨0⟩, usage := .nonPixelShaderRead }]
  sideEffects := true

def binnedCull : CullResult := ⟨{ passRefs := [1, 0], resourceRefs := [1], live := [true] }, []⟩

theorem binned_cull (blueprint : Blueprint) (made : Usage) :
    (binned blueprint made).graph.declaration.cull = binnedCull := by
  unfold binned binnedCull
  cbv

def binnedStart (state : ResourceState) : List Event := [
  .openList .graphics ⟨0⟩,
  .record ⟨0⟩ ⟨0⟩,
  .submit ⟨0⟩,
  .openList .compute ⟨1⟩,
  .sync .graphics .compute ⟨0⟩,
  .barriers ⟨1⟩ [.transition ⟨⟨0⟩, state, .nonPixelShaderResource, {}⟩],
  .record ⟨1⟩ ⟨1⟩]

theorem binned_schedule {blueprint : Blueprint} {made : Usage} {s' : Session} {c : Compilation}
    (does : (binned blueprint made).Does Graph.compile s')
    (compilation : s'.graph.compilation = some c)
    (expected : ((Brief.mk (binned blueprint made).graph.declaration binnedCull.survival
      (binned blueprint made).graph.config.mergesReads).schedule.map fun schedule =>
        (schedule.events.take 7, schedule.lists.take 2)) =
      .ok (binnedStart made.state, [.graphics, .compute])) :
    c.schedule.events[5]? = some (.barriers ⟨1⟩
      [.transition ⟨⟨0⟩, made.state, .nonPixelShaderResource, {}⟩]) ∧
      c.schedule.events[6]? = some (.record ⟨1⟩ ⟨1⟩) ∧
      c.schedule.listQueue? ⟨1⟩ = some .compute := by
  rw [does.schedule_eq (binned_cull _ _) compilation] at expected
  obtain ⟨events, lists⟩ := Prod.mk.inj (Except.ok.inj expected)
  have event {n : Nat} (inside : n < 7) : c.schedule.events[n]? = (binnedStart made.state)[n]? := by
    rw [← events, List.getElem?_take_of_lt inside]
  refine ⟨event (by decide), event (by decide), ?_⟩
  have list : c.schedule.lists[1]? = ([.graphics, .compute] : List Queue)[1]? := by
    rw [← lists, List.getElem?_take_of_lt (by decide)]
  exact list

def stored : Session := binned (.texture 8 8 .rgba8Unorm) .unorderedWrite

theorem stored_compiles : stored.Does Graph.compile (stored.built binnedCull) :=
  does_compile_of_fresh (by decide +kernel) (by decide +kernel) (binned_cull _ _)
    (by decide +kernel)

theorem stored_surviving : (stored.built binnedCull).graph.declaration.surviving =
    [(⟨0⟩, makePass .unorderedWrite), (⟨1⟩, binPass)] := by
  have same : (stored.built binnedCull).graph.declaration = stored.graph.declaration := by
    decide +kernel
  rw [same, Declaration.surviving, stored, binned_cull]
  decide +kernel

theorem stored_image_supported : stored.Reachable ∧
    stored.Does Graph.compile (stored.built binnedCull) ∧
    ∃ c t, (stored.built binnedCull).graph.compilation = some c ∧
      c.schedule.events[5]? = some (.barriers ⟨1⟩ [.transition t]) ∧
      c.schedule.listQueue? ⟨1⟩ = some .compute ∧ t.SupportedOn .compute := by
  have reachable : stored.Reachable := (Reachable.start {} [] {}).foldl _
  obtain ⟨c, b, compilation, rfl, live, each⟩ :=
    transitions_supported_iff reachable stored_compiles
  obtain ⟨held, next, queue⟩ := binned_schedule stored_compiles compilation (by decide +kernel)
  refine ⟨reachable, stored_compiles, c, _, compilation, held, queue, ?_⟩
  rcases each 5 _ _ held with
    ⟨⟨_, submitted, _⟩, _⟩ | ⟨n, p, pass, begun, entry, record, _, _, supported⟩
  · cases next.symm.trans submitted
  · cases next.symm.trans record
    rw [live, stored_surviving] at entry
    obtain ⟨rfl, rfl⟩ : n = 1 ∧ pass = binPass := by
      rcases n with _ | _ | n
      · cases entry
      · cases entry
        exact ⟨rfl, rfl⟩
      · cases entry
    refine (supported ⟨0⟩).2.mpr (fun found held => ?_) _ List.mem_cons_self rfl
    have before : ((stored.built binnedCull).graph.brief
        (stored.built binnedCull).graph.config.mergesReads).found 1 binPass ⟨0⟩ =
          some .unorderedAccess := by decide +kernel
    cases before.symm.trans held
    exact Or.inr (by decide)

def prepassed : Session := binned (.texture 8 8 .depth32Float) .depthWrite

theorem prepassed_compiles : prepassed.Does Graph.compile (prepassed.built binnedCull) :=
  does_compile_of_fresh (by decide +kernel) (by decide +kernel) (binned_cull _ _)
    (by decide +kernel)

/-- A transition may be carried by a queue that does not support it. -/
theorem not_all_transitions_supported :
    ¬ ∀ (s s' : Session) (c : Compilation) (m : Nat) list batch t, s.Reachable →
      s.Does Graph.compile s' → s'.graph.compilation = some c →
      c.schedule.events[m]? = some (.barriers list batch) → .transition t ∈ batch →
      ∃ queue, c.schedule.listQueue? list = some queue ∧ t.SupportedOn queue := by
  intro claim
  obtain ⟨c, _, compiled, _⟩ := prepassed_compiles.compiled
  have reachable : prepassed.Reachable := (Reachable.start {} [] {}).foldl _
  obtain ⟨held, _, compute⟩ :=
    binned_schedule prepassed_compiles compiled.compilation (by decide +kernel)
  obtain ⟨queue, own, before, _⟩ := claim _ _ c 5 ⟨1⟩ _ _ reachable prepassed_compiles
    compiled.compilation held List.mem_cons_self
  cases compute.symm.trans own
  revert before
  decide

end Session

end RenderGraph
