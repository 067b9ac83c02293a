import RenderGraph.Proofs.SettledStates

/-! Reads that hold at once. A pass may read a resource several times. A read that is satisfied as
it is adds nothing to the batch, so that a later read which needs a transition takes the resource
out of the state that the earlier one relies on, unless the transition happens to lead into a state
that contains it. -/

namespace RenderGraph

namespace Pass

def readsOf (pass : Pass) (r : ResourceId) : List Access := pass.reads.filter (·.resource == r)

/-- The pass reads the resource, in read-only states, and does nothing else to it. -/
structure OnlyReads (pass : Pass) (r : ResourceId) : Prop where
  reads : pass.readsOf r ≠ []
  keeps : pass.outputsTo r = false
  readOnly : ∀ a ∈ pass.readsOf r, a.state.isReadOnly = true

end Pass

def ResourceState.joined (state : ResourceState) (accesses : List Access) : ResourceState :=
  accesses.foldl (fun state a => state ∪ a.state) state

namespace ResourceState

variable {state : ResourceState} {accesses : List Access} {a : Access}

theorem contains_joined_left (state : ResourceState) (accesses : List Access) :
    (state.joined accesses).contains state = true := by
  induction accesses generalizing state with
  | nil => exact contains_refl state
  | cons c rest ih => exact contains_trans (ih (state ∪ c.state)) (contains_union_left _ _)

theorem contains_joined (member : a ∈ accesses) :
    (state.joined accesses).contains a.state = true := by
  induction accesses generalizing state with
  | nil => cases member
  | cons c rest ih =>
    rcases List.mem_cons.mp member with rfl | later
    · exact contains_trans (contains_joined_left (state ∪ a.state) rest)
        (contains_union_right _ _)
    · exact ih later

end ResourceState

/-- What it takes for the reads of a resource by the `n`-th pass to hold at once, given the state
that the scheduler takes the resource to be in and the one that it is in. -/
structure Brief.ReadsTogether (b : Brief) (n : Nat) (pass : Pass) (r : ResourceId)
    (tracked : ResourceState) (held : Option ResourceState) : Prop where
  /-- If no read needs a transition, the resource stays as it is. -/
  kept : (∀ a ∈ pass.readsOf r, tracked.satisfies a.state = true) →
    ∀ a ∈ pass.readsOf r, ∃ state, held = some state ∧ state.contains a.state = true
  /-- The first read that needs a transition and all reads after it bring the resource into one
  state, which has to do for the reads before it as well. -/
  moved : ∀ early a late, pass.readsOf r = early ++ a :: late →
    (∀ x ∈ early, tracked.satisfies x.state = true) → ¬ tracked.satisfies a.state = true →
    ∀ x ∈ early, ((b.targetState n pass.queue a false).joined late).contains x.state = true

namespace Brief

variable {b : Brief} {s : Schedule} {d : Draft} {n : Nat} {p : PassId} {pass : Pass}
  {list : ListId} {batch : List Barrier} {r : ResourceId} {found : ResourceState}

theorem demandsOf_of_onlyReads (only : pass.OnlyReads r) :
    b.demandsOf n pass r = (pass.readsOf r).map (b.demand n pass.queue false) := by
  have unwritten : pass.writes.filter (·.resource == r) = [] := by
    have none := only.keeps
    rw [Pass.outputsTo_eq, Bool.or_eq_false_iff] at none
    rw [List.filter_eq_nil_iff]
    intro a member same
    exact Bool.eq_false_iff.mp none.2 (List.any_eq_true.mpr ⟨a, member, same⟩)
  rw [demandsOf, unwritten]
  exact List.append_nil _

theorem leadAll_of_satisfied {accesses : List Access}
    (satisfied : ∀ a ∈ accesses, found.satisfies a.state = true) :
    Demand.leadAll (accesses.map (b.demand n pass.queue false)) ⟨found, []⟩ = ⟨found, []⟩ := by
  induction accesses with
  | nil => rfl
  | cons a rest ih =>
    have first : (b.demand n pass.queue false a).lead ⟨found, []⟩ = ⟨found, []⟩ :=
      Demand.lead_of_satisfied (satisfied a List.mem_cons_self)
    rw [List.map_cons, Demand.leadAll, List.foldl_cons, first]
    exact ih fun c member => satisfied c (List.mem_cons_of_mem _ member)

theorem leadAll_of_transition {accesses : List Access} {t : Transition}
    (open_ : t.after.isReadOnly = true)
    (readOnly : ∀ a ∈ accesses, a.state.isReadOnly = true) :
    Demand.leadAll (accesses.map (b.demand n pass.queue false)) ⟨t.after, [t]⟩ =
      ⟨t.after.joined accesses, [{ t with after := t.after.joined accesses }]⟩ := by
  induction accesses generalizing t with
  | nil => rfl
  | cons a rest ih =>
    have here := readOnly a List.mem_cons_self
    have wider := ResourceState.isReadOnly_union open_ here
    have first : (b.demand n pass.queue false a).lead ⟨t.after, [t]⟩ =
        ⟨t.after ∪ a.state, [{ t with after := t.after ∪ a.state }]⟩ := by
      by_cases satisfied : t.after.satisfies a.state = true
      · rw [Demand.lead_of_satisfied satisfied,
          ResourceState.union_of_contains (ResourceState.contains_of_satisfies satisfied)]
      · have widened := widenStep_concat (fun _ (none : _ ∈ []) => by cases none) open_ here
        exact Demand.lead_of_some satisfied widened
    rw [List.map_cons, Demand.leadAll, List.foldl_cons, first]
    exact ih (t := { t with after := t.after ∪ a.state }) wider fun c member =>
      readOnly c (List.mem_cons_of_mem _ member)

theorem route_of_unsatisfied (only : pass.OnlyReads r) {early late : List Access} {a : Access}
    (split : pass.readsOf r = early ++ a :: late)
    (satisfied : ∀ x ∈ early, found.satisfies x.state = true)
    (unsatisfied : ¬ found.satisfies a.state = true) :
    b.route n pass r found =
      ⟨(b.targetState n pass.queue a false).joined late,
        [⟨a.resource, found, (b.targetState n pass.queue a false).joined late, a.hints⟩]⟩ := by
  have readOnly : ∀ x ∈ a :: late, x.state.isReadOnly = true := fun x member =>
    only.readOnly x (split ▸ List.mem_append_right _ member)
  have aims := b.aims_demand n pass.queue false a
  have open_ := aims.isReadOnly (readOnly a List.mem_cons_self)
  have second : (b.demand n pass.queue false a).lead ⟨found, []⟩ =
      ⟨b.targetState n pass.queue a false,
        [(b.demand n pass.queue false a).transition found]⟩ :=
    Demand.lead_of_none unsatisfied rfl
  rw [route, demandsOf_of_onlyReads only, split, List.map_append, Demand.leadAll_append,
    leadAll_of_satisfied satisfied, List.map_cons, Demand.leadAll, List.foldl_cons, second]
  exact leadAll_of_transition (t := (b.demand n pass.queue false a).transition found) open_
    fun x member => readOnly x (List.mem_cons_of_mem _ member)

theorem exists_first_unsatisfied (accesses : List Access) (found : ResourceState) :
    (∀ a ∈ accesses, found.satisfies a.state = true) ∨
      ∃ early a late, accesses = early ++ a :: late ∧
        (∀ x ∈ early, found.satisfies x.state = true) ∧ ¬ found.satisfies a.state = true := by
  induction accesses with
  | nil => exact Or.inl fun _ member => by cases member
  | cons a rest ih =>
    by_cases here : found.satisfies a.state = true
    · rcases ih with all | ⟨early, c, late, rfl, satisfied, unsatisfied⟩
      · exact Or.inl (List.forall_mem_cons.mpr ⟨here, all⟩)
      · exact Or.inr ⟨a :: early, c, late, rfl, List.forall_mem_cons.mpr ⟨here, satisfied⟩,
          unsatisfied⟩
    · exact Or.inr ⟨[], a, rest, rfl, fun _ member => (by cases member), here⟩

theorem Turn.reads_hold_iff (turn : b.Turn s n p pass d list batch) (notCopy : pass.queue ≠ .copy)
    (only : pass.OnlyReads r) (tracked : b.found n pass r = some found) (begun : States) :
    (∀ a ∈ pass.readsOf r, ∃ state, begun.crossAll batch r = some state ∧
      state.contains a.state = true) ↔ b.ReadsTogether n pass r found (begun r) := by
  obtain ⟨steps, _⟩ := turn.routes notCopy r found tracked
  have moves {early late : List Access} {a : Access} (split : pass.readsOf r = early ++ a :: late)
      (satisfied : ∀ x ∈ early, found.satisfies x.state = true)
      (unsatisfied : ¬ found.satisfies a.state = true) : begun.crossAll batch r =
        some ((b.targetState n pass.queue a false).joined late) := by
    rw [States.crossAll_apply, steps, route_of_unsatisfied only split satisfied unsatisfied]
    rfl
  rcases exists_first_unsatisfied (pass.readsOf r) found with
    all | ⟨early, a, late, split, satisfied, unsatisfied⟩
  · have none : transitionsOf r batch = [] := by
      rw [steps, route, demandsOf_of_onlyReads only, leadAll_of_satisfied all]
    rw [States.crossAll_of_none none]
    refine ⟨fun hold => ⟨fun _ => hold, ?_⟩, fun together => together.kept all⟩
    intro early a late split _ unsatisfied
    exact absurd (all a (by simp [split])) unsatisfied
  · constructor
    · refine fun hold => ⟨fun all => absurd (all a (by simp [split])) unsatisfied, ?_⟩
      intro early a late split satisfied unsatisfied x member
      obtain ⟨state, reached, contains⟩ := hold x (by simp [split, member])
      rw [moves split satisfied unsatisfied] at reached
      exact Option.some.inj reached ▸ contains
    · intro together x member
      refine ⟨_, moves split satisfied unsatisfied, ?_⟩
      rw [split] at member
      rcases List.mem_append.mp member with before | here
      · exact together.moved early a late split satisfied unsatisfied x before
      rcases List.mem_cons.mp here with rfl | after
      · have aims := b.aims_demand n pass.queue false x
        exact ResourceState.contains_trans (ResourceState.contains_joined_left _ late)
          (ResourceState.contains_of_satisfies aims.satisfies)
      · exact ResourceState.contains_joined after

end Brief

namespace Session

variable {s s' : Session}

/-- When all reads of a resource by a pass hold at once: for every pass off the copy queue and every
resource that it only reads, in read-only states. The scheduler tracks the state that the resource
is in unless an earlier pass has come back to a read-only state of it. -/
theorem reads_together_iff (reachable : s.Reachable) (does : s.Does Graph.compile s') :
    ∃ c b, s'.graph.compilation = some c ∧ b = s'.graph.brief s'.graph.config.mergesReads ∧
      b.live = s'.graph.declaration.surviving ∧
      ∀ (n : Nat) p pass, b.live[n]? = some (p, pass) → pass.queue ≠ .copy →
        ∃ list batch begun, c.schedule.RecordedInto p list ∧
          (b.declaration.replay (b.declaration.startStates b.survival) c.schedule.events).Records
            p list batch begun ∧
          ∀ r, pass.OnlyReads r → ∃ tracked, b.found n pass r = some tracked ∧
            (b.SettledBefore n r → begun r = some tracked) ∧
            ((∀ a ∈ pass.readsOf r, ∃ state, begun.crossAll batch r = some state ∧
              state.contains a.state = true) ↔ b.ReadsTogether n pass r tracked (begun r)) := by
  obtain ⟨c, made, compiled, _, declaration, _⟩ := does.compiled
  have closed : s'.graph.declaration.Closed := declaration ▸ reachable.closed
  refine ⟨c, _, compiled.compilation, rfl, compiled.live_eq, ?_⟩
  intro n p pass entry notCopy
  obtain ⟨d, list, batch, turn⟩ := Brief.exists_turn closed compiled.schedule entry
  refine ⟨list, batch, _, turn.recordedInto closed compiled.schedule,
    turn.records closed _, fun r only => ?_⟩
  cases tracked : (s'.graph.brief s'.graph.config.mergesReads).found n pass r with
  | none =>
    obtain ⟨a, member⟩ := List.exists_mem_of_ne_nil _ only.reads
    obtain ⟨isRead, same⟩ := List.mem_filter.mp member
    have apart := (turn.misses r tracked).2.2 a (List.mem_append_left _ isRead)
    exact absurd (eq_of_beq same).symm apart
  | some state =>
    exact ⟨state, rfl,
      fun settled => (turn.begin_settled closed compiled.schedule settled).trans tracked,
      turn.reads_hold_iff notCopy only tracked _⟩

/-! A depth buffer that one pass reads twice, as the depth target and in a shader. Between frames it
is in the state of the first of these reads. -/

def shaded (first second : Usage) : Session := [
  .manage "depth" { extent := .texture 8 8, format := .depth32Float } .depthRead,
  .declare "shade" .graphics
    [.read ⟨0⟩ "depth" first [], .read ⟨0⟩ "depth" second [], .sideEffects true]
    none].foldl act (start {} [] {})

def shadePass (first second : Usage) : Pass where
  name := "shade"
  queue := .graphics
  reads := [
    { name := "depth", resource := ⟨0⟩, usage := first },
    { name := "depth", resource := ⟨0⟩, usage := second }]
  sideEffects := true

def shadedCull : CullResult := ⟨{ passRefs := [0], resourceRefs := [1], live := [true] }, []⟩

theorem shaded_cull (first second : Usage) :
    (shaded first second).graph.declaration.cull = shadedCull := by
  unfold shaded shadedCull
  cbv

def sampledFirst : Session := (shaded .pixelShaderRead .depthRead).built shadedCull

theorem sampledFirst_compiles :
    (shaded .pixelShaderRead .depthRead).Does Graph.compile sampledFirst :=
  does_compile_of_fresh (by decide +kernel) (by decide +kernel) (shaded_cull _ _)
    (by decide +kernel)

theorem sampledFirst_surviving : sampledFirst.graph.declaration.surviving =
    [(⟨0⟩, shadePass .pixelShaderRead .depthRead)] := by
  have same : sampledFirst.graph.declaration =
      (shaded .pixelShaderRead .depthRead).graph.declaration := by decide +kernel
  rw [same, Declaration.surviving, shaded_cull]
  decide +kernel

theorem onlyReads_shadePass {first second : Usage}
    (readOnly : ∀ a ∈ (shadePass first second).reads, a.state.isReadOnly = true) :
    (shadePass first second).OnlyReads ⟨0⟩ where
  reads := List.cons_ne_nil _ _
  keeps := rfl
  readOnly a member := readOnly a (List.mem_filter.mp member).1

theorem sampledFirst_reads_together : (shaded .pixelShaderRead .depthRead).Reachable ∧
    (shaded .pixelShaderRead .depthRead).Does Graph.compile sampledFirst ∧
    ∃ c list states, sampledFirst.graph.compilation = some c ∧
      (.record list ⟨0⟩, states) ∈ (sampledFirst.graph.declaration.replay
        (sampledFirst.graph.declaration.startStates sampledFirst.graph.survival)
        c.schedule.events).moments ∧
      ∀ a ∈ (shadePass .pixelShaderRead .depthRead).reads,
        ∃ state, states ⟨0⟩ = some state ∧ state.contains a.state = true := by
  have reachable : (shaded .pixelShaderRead .depthRead).Reachable :=
    (Reachable.start {} [] {}).foldl _
  obtain ⟨c, b, compilation, rfl, live, together⟩ :=
    reads_together_iff reachable sampledFirst_compiles
  rw [sampledFirst_surviving] at live
  obtain ⟨list, batch, begun, _, ⟨done, rest, _, moments⟩, each⟩ :=
    together 0 ⟨0⟩ (shadePass .pixelShaderRead .depthRead) (by rw [live]; rfl) (by decide)
  obtain ⟨tracked, found, _, holds⟩ := each ⟨0⟩ (onlyReads_shadePass (by decide))
  refine ⟨reachable, sampledFirst_compiles, c, list, begun.crossAll batch, compilation, ?_, ?_⟩
  · have records : (Event.record list ⟨0⟩, begun.crossAll batch) ∈
        done ++ ((if batch.isEmpty then [] else [(.barriers list batch, begun)]) ++
          [(.record list ⟨0⟩, begun.crossAll batch)]) ++ rest := by simp
    simp only [Graph.brief] at moments
    rw [← moments] at records
    exact records
  have before : (sampledFirst.graph.brief sampledFirst.graph.config.mergesReads).found 0
      (shadePass .pixelShaderRead .depthRead) ⟨0⟩ = some .depthRead := by decide +kernel
  cases found.symm.trans before
  refine holds.mpr ⟨fun all => ?_, ?_⟩
  · exact absurd (all _ List.mem_cons_self) (by decide)
  · rintro (_ | ⟨x, early⟩) a late split satisfied _
    · exact fun _ member => by cases member
    · cases (List.cons.inj split).1
      exact absurd (satisfied _ List.mem_cons_self) (by decide)

def boundFirst : Session := (shaded .depthRead .pixelShaderRead).built shadedCull

theorem boundFirst_compiles :
    (shaded .depthRead .pixelShaderRead).Does Graph.compile boundFirst :=
  does_compile_of_fresh (by decide +kernel) (by decide +kernel) (shaded_cull _ _)
    (by decide +kernel)

theorem boundFirst_surviving : boundFirst.graph.declaration.surviving =
    [(⟨0⟩, shadePass .depthRead .pixelShaderRead)] := by
  have same : boundFirst.graph.declaration =
      (shaded .depthRead .pixelShaderRead).graph.declaration := by decide +kernel
  rw [same, Declaration.surviving, shaded_cull]
  decide +kernel

def boundFirstEvents : List Event := [
  .openList .graphics ⟨0⟩,
  .barriers ⟨0⟩ [.transition ⟨⟨0⟩, .depthRead, .pixelShaderResource, {}⟩],
  .record ⟨0⟩ ⟨0⟩,
  .barriers ⟨0⟩ [.transition ⟨⟨0⟩, .pixelShaderResource, .depthRead, {}⟩],
  .submit ⟨0⟩]

/-- Reads that are satisfied before a transition need not be satisfied after it. -/
theorem not_all_reads_together :
    ¬ ∀ (s s' : Session) (c : Compilation) p pass r list states, s.Reachable →
      s.Does Graph.compile s' → s'.graph.compilation = some c →
      (p, pass) ∈ s'.graph.declaration.surviving → pass.queue ≠ .copy → pass.OnlyReads r →
      (.record list p, states) ∈ (s'.graph.declaration.replay
        (s'.graph.declaration.startStates s'.graph.survival) c.schedule.events).moments →
      ∀ a ∈ pass.readsOf r, ∃ state, states r = some state ∧ state.contains a.state = true := by
  intro claim
  obtain ⟨c, _, compiled, _⟩ := boundFirst_compiles.compiled
  have events : c.schedule.events = boundFirstEvents := by
    have made := boundFirst_compiles.schedule_eq (shaded_cull _ _) compiled.compilation
    have expected : ((Brief.mk (shaded .depthRead .pixelShaderRead).graph.declaration
        shadedCull.survival (shaded .depthRead .pixelShaderRead).graph.config.mergesReads).schedule
          ).map (·.events) = .ok boundFirstEvents := by decide +kernel
    rw [made] at expected
    exact Except.ok.inj expected
  have survives : (⟨0⟩, shadePass .depthRead .pixelShaderRead) ∈
      boundFirst.graph.declaration.surviving := by
    rw [boundFirst_surviving]
    exact List.mem_cons_self
  have recorded (d : Declaration) (start : States) : (.record ⟨0⟩ ⟨0⟩, (start.begin d ⟨0⟩).crossAll
      [.transition ⟨⟨0⟩, .depthRead, .pixelShaderResource, {}⟩]) ∈
      (d.replay start boundFirstEvents).moments := by
    simp [boundFirstEvents, Declaration.replay, Replay.after]
  obtain ⟨state, held, contains⟩ := claim _ _ c ⟨0⟩ _ ⟨0⟩ ⟨0⟩ _ ((Reachable.start {} [] {}).foldl _)
    boundFirst_compiles compiled.compilation survives (by decide) (onlyReads_shadePass (by decide))
    (events ▸ recorded _ _) _ List.mem_cons_self
  cases held
  revert contains
  decide

end Session

end RenderGraph
