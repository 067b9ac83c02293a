import RenderGraph.Proofs.MatchedRuns
import RenderGraph.Proofs.ScheduleBasis
import RenderGraph.Proofs.StrippedPass

/-! What a culled pass contributes. Without its accesses the same passes survive, and compiling
makes no difference at all unless the pass overrides what a live resource is left as or how it is
viewed. An override is written to the resource when the access is declared, so that it is in effect
whether or not its pass survives. -/

namespace RenderGraph

theorem filterMap_eq_iff {α β : Type} {f g : α → Option β} {xs : List α}
    (same : ∀ x ∈ xs, (f x).isSome = (g x).isSome) :
    xs.filterMap f = xs.filterMap g ↔ ∀ x ∈ xs, f x = g x := by
  induction xs with
  | nil => simp
  | cons x xs ih =>
    obtain ⟨first, rest⟩ := List.forall_mem_cons.mp same
    rw [List.forall_mem_cons, ← ih rest, List.filterMap_cons, List.filterMap_cons]
    cases left : f x <;> cases right : g x <;> simp [left, right] at first ⊢

namespace Declaration

variable {d d' : Declaration} {p q : PassId} {pass : Pass} {r : ResourceId}
  {overridden : ResourceId → Bool}

theorem Contributes.accesses_ne_nil (contributes : d.Contributes p q)
    (held : d.pass? p = some pass) : pass.accesses ≠ [] := by
  obtain ⟨r, other, _, held', _, how⟩ := contributes
  cases held.symm.trans held'
  have touches : pass.touches r = true := by
    rw [Pass.touches_eq, Pass.outputsTo_eq]
    rcases how with ⟨outputs, _⟩ | ⟨creates, _⟩
    · rw [← Pass.outputsTo_eq, outputs, Bool.true_or]
    · rw [creates, Bool.true_or, Bool.true_or]
  intro none
  rw [Pass.touches, none] at touches
  cases touches

theorem SameRows.map_resources {β : Type} {f : Resource → β} (same : SameRows overridden d d')
    (kept : ∀ o x, f (x.forget o) = f x) : d'.resources.map f = d.resources.map f := by
  apply List.ext_getElem?
  intro i
  have row := congrArg (Option.map f) (same.rows ⟨i⟩)
  simpa only [List.getElem?_map, resource?, Option.map_map, Function.comp_def, kept] using row

def order? (d : Declaration) (s : Survival) (frameCount : Nat) (r : ResourceId) : Option Order :=
  (d.resource? r).bind fun x =>
    if s.isLive r && !x.origin.isImported then some (d.order s frameCount r x) else none

theorem orders_eq (d : Declaration) (s : Survival) (frameCount : Nat) :
    d.orders s frameCount = d.resourceIds.filterMap (d.order? s frameCount) :=
  d.filterMap_rows fun r x =>
    if s.isLive r && !x.origin.isImported then some (d.order s frameCount r x) else none

/-- If the graph owns the resource, the views that survivors want of it are made in the same way. -/
def ViewedAs (d d' : Declaration) (r : ResourceId) : Prop :=
  ∀ x x', d.resource? r = some x → d'.resource? r = some x' → x.origin.isImported = false →
    ∀ kind ∈ (d.wantedViews d.cull.survival r).kinds, x'.viewSpec kind = x.viewSpec kind

namespace Without

theorem not_retained (without : d.Without p overridden d') (closed : d.Closed)
    (culled : ¬ d.Survives p) : ¬ d'.Retained p := by
  obtain ⟨pass, pass', held, held', idle, effects⟩ := without.idle
  have alone (q : PassId) : ¬ d'.Contributes p q :=
    fun contributes => contributes.accesses_ne_nil held' idle
  intro retained
  cases retained with
  | needed _ contributes _ => exact alone _ contributes
  | sustained sustained =>
    rcases sustained_iff.mp sustained with marked | ⟨q, _, feeds⟩
    · rw [hasSideEffects, held', Option.any_some] at marked
      have marked' : d.hasSideEffects p = true := by
        rw [hasSideEffects, held, Option.any_some]
        exact effects marked
      exact culled ((sustained_of_sideEffects marked').survives closed)
    · exact alone q feeds.contributes

section Culled

variable (without : d.Without p overridden d') (closed : d.Closed) (closed' : d'.Closed)
  (culled : ¬ d.Survives p)

include without closed closed' culled

theorem surviving : d'.surviving = d.surviving := by
  refine surviving_congr closed closed' fun q retained => without.others q ?_
  rintro rfl
  rcases retained with before | after
  · exact culled ((survives_iff_retained closed).mpr before)
  · exact without.not_retained closed culled after

theorem isLive (r : ResourceId) : d'.cull.survival.isLive r = d.cull.survival.isLive r :=
  isLive_congr closed closed' (without.surviving closed closed' culled) r

theorem wantedViews (r : ResourceId) :
    d'.wantedViews d'.cull.survival r = d.wantedViews d.cull.survival r := by
  have survivors := without.surviving closed closed' culled
  rw [Declaration.surviving, Declaration.surviving] at survivors
  rw [Declaration.wantedViews, Declaration.wantedViews, survivors]

theorem alike (mergesReads : Bool) :
    (d.culledBrief mergesReads).Alike (d'.culledBrief mergesReads) := by
  refine ⟨without.surviving closed closed' culled, rfl, Brief.startTracks_congr ?_
    (without.isLive closed closed' culled)⟩
  refine without.toSameRows.map_resources fun o x => ?_
  cases o <;> rfl

theorem schedule_eq_iff (mergesReads : Bool) :
    (d'.culledBrief mergesReads).schedule = (d.culledBrief mergesReads).schedule ↔
      ∀ r, overridden r = true → d.cull.survival.isLive r = true →
        (d.culledBrief mergesReads).EndsAs (d'.culledBrief mergesReads) r := by
  have alike := without.alike closed closed' culled mergesReads
  rw [alike.schedule_eq_iff without.resources]
  constructor
  · exact fun ends r _ _ => ends r
  · intro ends r
    by_cases overrides : overridden r = true ∧ d.cull.survival.isLive r = true
    · exact ends r overrides.1 overrides.2
    · refine alike.endsAs (without.isLive closed closed' culled r) fun live => ?_
      have kept : overridden r = false :=
        Bool.eq_false_iff.mpr fun overrides' => overrides ⟨overrides', live⟩
      have restores (x : Resource) : (x.forget false).restoreState = x.restoreState := rfl
      change (d'.resource? r).bind _ = (d.resource? r).bind _
      rcases without.toSameRows.cases r with ⟨absent, absent'⟩ | ⟨x, x', found, found', same⟩
      · rw [absent, absent']
      · rw [kept] at same
        rw [found, found', Option.bind_some, Option.bind_some, ← restores, same, restores]

theorem order?_cases (frameCount : Nat) (r : ResourceId) :
    (d'.order? d'.cull.survival frameCount r).isSome =
        (d.order? d.cull.survival frameCount r).isSome ∧
      (d'.order? d'.cull.survival frameCount r = d.order? d.cull.survival frameCount r ↔
        (d.cull.survival.isLive r = true → d.ViewedAs d' r)) := by
  have live := without.isLive closed closed' culled r
  have wanted := without.wantedViews closed closed' culled r
  unfold order? ViewedAs
  rcases without.toSameRows.cases r with ⟨absent, absent'⟩ | ⟨x, x', found, found', same⟩
  · simp [absent, absent']
  · obtain ⟨name, origin, blueprint, usage⟩ := Resource.eq_of_forget same
    have initial : x'.initialState = x.initialState := congrArg Usage.state usage
    have orders : d'.order d'.cull.survival frameCount r x' =
        d.order d.cull.survival frameCount r x ↔
          ∀ kind ∈ (d.wantedViews d.cull.survival r).kinds, x'.viewSpec kind = x.viewSpec kind := by
      simp [order, wanted, name, blueprint, initial]
    rw [found, found', Option.bind_some, Option.bind_some, live, origin]
    by_cases owned : (d.cull.survival.isLive r && !x.origin.isImported) = true
    · rw [if_pos owned, if_pos owned, Option.some_inj, orders]
      rw [Bool.and_eq_true, Bool.not_eq_true'] at owned
      simp [owned]
    · rw [if_neg owned, if_neg owned]
      rw [Bool.and_eq_true, Bool.not_eq_true', not_and] at owned
      simpa using fun live imported => absurd imported (owned live)

theorem orders_eq_iff (frameCount : Nat) :
    d'.orders d'.cull.survival frameCount = d.orders d.cull.survival frameCount ↔
      ∀ r, overridden r = true → d.cull.survival.isLive r = true → d.ViewedAs d' r := by
  have order := without.order?_cases closed closed' culled frameCount
  have ids : d'.resourceIds = d.resourceIds := by
    rw [resourceIds, resourceIds, without.resources]
  rw [orders_eq, orders_eq, ids, filterMap_eq_iff fun r _ => (order r).1]
  constructor
  · intro same r _ live x x' found
    have inside : r ∈ d.resourceIds := by
      have bound : r.index < d.resources.length := (List.getElem?_eq_some_iff.mp found).1
      exact List.mem_map.mpr ⟨r.index, List.mem_range.mpr bound, rfl⟩
    exact (order r).2.mp (same r inside) live x x' found
  · intro views r _
    refine (order r).2.mpr fun live => ?_
    cases overrides : overridden r with
    | true => exact views r overrides live
    | false =>
      intro x x' found found' _ kind _
      have row := without.rows r
      rw [found, found', Option.map_some, Option.map_some, overrides] at row
      have viewSpec (y : Resource) : (y.forget false).viewSpec kind = y.viewSpec kind := rfl
      rw [← viewSpec, Option.some.inj row, viewSpec]

end Culled

end Without

end Declaration

/-- Whether the action only declares or sets something, without a call to the device. -/
def Action.isSilent : Action → Bool
  | .importResource .. | .manage .. | .declare .. | .update .. | .updateView .. | .setFrameIndex _
    | .useData .. | .clearData | .plan _ | .refuseResources _ => true
  | .setFrameCount _ | .compile | .execute | .drain | .reset => false

namespace Session

variable {s s' : Session} {p : PassId} {overridden : ResourceId → Bool}

structure Without (p : PassId) (overridden : ResourceId → Bool) (s s' : Session) : Prop where
  declaration : s.graph.declaration.Without p overridden s'.graph.declaration
  graph : s.graph.Alike s'.graph
  rig : s'.rig = s.rig

namespace Without

theorem rebound (without : s.Without p overridden s') (r : ResourceId) (f : Copy → Copy) :
    (s.rebound (s.graph.rebind r f)).Without p overridden
      (s'.rebound (s'.graph.rebind r f)) := by
  unfold Graph.rebind Declaration.getResource
  rcases without.declaration.toSameRows.cases r with
    ⟨absent, absent'⟩ | ⟨x, x', found, found', same⟩
  · rw [absent, absent']
    exact without
  · rw [found, found']
    dsimp only [bind, Except.bind]
    rw [(Resource.eq_of_forget same).2.1]
    cases origin : x.origin with
    | imported bound =>
      have bind := Resource.blind_origin (.imported (f bound))
      exact ⟨without.declaration.modifyResource r bind, { without.graph with }, without.rig⟩
    | managed => exact without
    | transient queue => exact without

theorem act (without : s.Without p overridden s') {a : Action} (silent : a.isSilent = true) :
    (s.act a).Without p overridden (s'.act a) := by
  obtain ⟨declaration, graph, rig⟩ := id without
  cases a with
  | importResource | manage =>
    exact ⟨(declaration.addResource _).2, { graph with dirty := rfl }, rig⟩
  | declare name queue calls recorder =>
    exact ⟨(declaration.declare name queue calls recorder).2, { graph with dirty := rfl }, rig⟩
  | update r native => exact without.rebound r _
  | updateView r kind view => exact without.rebound r _
  | setFrameIndex n =>
    refine ⟨declaration, { graph with frameIndex := ?_ }, rig⟩
    exact congrArg (fun config : Config => n % max config.frameCount 1) graph.config
  | useData key initial change =>
    refine ⟨declaration, { graph with deviceData := ?_ }, rig⟩
    simp only [Session.act, Graph.useData, graph.deviceData]
  | clearData => exact ⟨declaration, { graph with deviceData := rfl }, rig⟩
  | plan faults => exact ⟨declaration, graph, congrArg (fun rig : Rig => { rig with faults }) rig⟩
  | refuseResources refuses =>
    exact ⟨declaration, graph, congrArg (fun rig : Rig =>
      { rig with device := { rig.device with refusesResources := refuses } }) rig⟩
  | setFrameCount | compile | execute | drain | reset => cases silent

theorem foldl (without : s.Without p overridden s') (actions : List Action)
    (silent : ∀ a ∈ actions, a.isSilent = true) :
    (actions.foldl Session.act s).Without p overridden (actions.foldl Session.act s') := by
  induction actions generalizing s s' with
  | nil => exact without
  | cons a actions ih =>
    obtain ⟨first, rest⟩ := List.forall_mem_cons.mp silent
    exact ih (without.act first) rest

end Without

/-- What becomes of a graph if a culled pass that creates nothing is declared without its accesses,
whatever else is declared before and after it. The same passes survive. The schedule is the same
exactly if every live resource that the pass overrides is left in the same state, and the same is
asked of the device exactly if the views wanted of these resources are made in the same way. If so,
compiling comes to the same in every other respect as well. -/
theorem compile_without_culled (reachable : s.Reachable) (name : String) (queue : Queue)
    (calls : List PassCall) (recorder : Option (List ResourceId)) (later : List Action)
    (silent : ∀ a ∈ later, a.isSilent = true) :
    let d := s.graph.declaration
    let accepted := calls.take (d.declare name queue calls recorder).1.replies.length
    let t := later.foldl Session.act (s.act (.declare name queue calls recorder))
    let t' := later.foldl Session.act
      (s.act (.declare name queue (PassCall.withoutAccesses accepted) recorder))
    let overrides := fun r : ResourceId => accepted.any (·.overrides r)
    let live := t.graph.declaration.cull.survival.isLive
    let frameCount := t.graph.config.frameCount
    (∀ call ∈ accepted, call.isCreation = false) →
      ¬ t.graph.declaration.Survives ⟨d.passes.length⟩ →
      t'.graph.declaration.surviving = t.graph.declaration.surviving ∧
      (t'.graph.culledBrief.schedule = t.graph.culledBrief.schedule ↔
        ∀ r, overrides r = true → live r = true →
          t.graph.culledBrief.EndsAs t'.graph.culledBrief r) ∧
      (t'.graph.declaration.orders t'.graph.declaration.cull.survival frameCount =
          t.graph.declaration.orders t.graph.declaration.cull.survival frameCount ↔
        ∀ r, overrides r = true → live r = true →
          t.graph.declaration.ViewedAs t'.graph.declaration r) ∧
      ((∀ r, overrides r = true → live r = true →
          t.graph.culledBrief.EndsAs t'.graph.culledBrief r ∧
          t.graph.declaration.ViewedAs t'.graph.declaration r) →
        Op.Agrees Graph.Alike (Graph.compile.run t.graph t.rig)
          (Graph.compile.run t'.graph t'.rig)) := by
  intro d accepted t t' overrides live frameCount owned culled
  have start : (s.act (.declare name queue calls recorder)).Without ⟨d.passes.length⟩ overrides
      (s.act (.declare name queue (PassCall.withoutAccesses accepted) recorder)) :=
    ⟨d.without_declare name queue calls recorder owned, ⟨rfl, rfl, rfl, rfl, rfl, rfl⟩, rfl⟩
  obtain ⟨without, graph, rig⟩ : t.Without ⟨d.passes.length⟩ overrides t' :=
    start.foldl later silent
  have reachable' : t.Reachable := (reachable.act _).foldl later
  have closed := reachable'.closed
  have closed' : t'.graph.declaration.Closed := ((reachable.act _).foldl later).closed
  have merges : t'.graph.config.mergesReads = t.graph.config.mergesReads :=
    congrArg Config.mergesReads graph.config
  have brief : t'.graph.culledBrief =
      t'.graph.declaration.culledBrief t.graph.config.mergesReads := by
    rw [Graph.culledBrief, merges]
    rfl
  have schedule := without.schedule_eq_iff closed closed' culled t.graph.config.mergesReads
  rw [← brief] at schedule
  have orders := without.orders_eq_iff closed closed' culled frameCount
  refine ⟨without.surviving closed closed' culled, schedule, orders, fun same => ?_⟩
  -- Both ask for the same and get the same schedule; without one, the reason names no pass.
  refine graph.compile_agrees (rig ▸ Rig.Alike.refl t.rig) ?_
    (schedule.mpr fun r overridden kept => (same r overridden kept).1) ?_
  · rw [graph.config]
    exact orders.mpr fun r overridden kept => (same r overridden kept).2
  · intro reason failed
    rw [Brief.eq_nothingLive_of_error closed reachable'.ordered rfl failed]
    rfl

/-! An image that is drawn, and that another pass was to look at in a view of its own and leave to
be drawn to. That pass is culled, and the image is viewed and left as it says. -/

def shown : Session := [
  .manage "image" { extent := .texture 8 8, format := .rgba8Unorm } .pixelShaderRead,
  .declare "draw" .graphics [.read ⟨0⟩ "image" .pixelShaderRead [], .sideEffects true]
    none].foldl act (start {} [] {})

def inspectCalls : List PassCall := [.read ⟨0⟩ "image" .pixelShaderRead [
  .view .shaderRead { format := some .rgba8Unorm, first := 1, count := some 2 },
  .finalUsage .colorTarget]]

def inspected : Session := shown.act (.declare "inspect" .graphics inspectCalls none)

def uninspected : Session := shown.act (.declare "inspect" .graphics [] none)

def inspectedCull : CullResult :=
  ⟨{ passRefs := [0, 0], resourceRefs := [1], live := [true] }, [.empty ⟨1⟩]⟩

theorem inspected_cull : inspected.graph.declaration.cull = inspectedCull := by
  unfold inspected shown inspectCalls inspectedCull
  cbv

theorem uninspected_cull : uninspected.graph.declaration.cull = inspectedCull := by
  unfold uninspected shown inspectedCull
  cbv

theorem inspected_compiles : inspected.Does Graph.compile (inspected.built inspectedCull) :=
  does_compile_of_fresh (by decide +kernel) (by decide +kernel) inspected_cull (by decide +kernel)

theorem uninspected_compiles : uninspected.Does Graph.compile (uninspected.built inspectedCull) :=
  does_compile_of_fresh (by decide +kernel) (by decide +kernel) uninspected_cull (by decide +kernel)

theorem shown_reachable : shown.Reachable := (Reachable.start {} [] {}).foldl _

theorem inspected_culled :
    ¬ inspected.graph.declaration.Survives ⟨shown.graph.declaration.passes.length⟩ := by
  have survivors : inspected.graph.declaration.surviving.map Prod.fst = [⟨0⟩] := by
    rw [Declaration.surviving, inspected_cull]
    decide +kernel
  have survives (p : PassId) : inspected.graph.declaration.Survives p ↔ p = ⟨0⟩ := by
    rw [← List.mem_singleton, ← survivors]
    simp [Declaration.Survives]
  rw [survives]
  decide +kernel

theorem inspected_without_culled : shown.Reachable ∧
    (∀ call ∈ inspectCalls, call.isCreation = false) ∧
    ¬ inspected.graph.declaration.Survives ⟨1⟩ ∧
    uninspected.graph.declaration.surviving = inspected.graph.declaration.surviving ∧
    ¬ inspected.graph.culledBrief.EndsAs uninspected.graph.culledBrief ⟨0⟩ ∧
    ¬ inspected.graph.declaration.ViewedAs uninspected.graph.declaration ⟨0⟩ := by
  have accepted : inspectCalls.take (shown.graph.declaration.declare "inspect" .graphics
      inspectCalls none).1.replies.length = inspectCalls := by decide +kernel
  have idle : PassCall.withoutAccesses inspectCalls = [] := rfl
  have last : shown.graph.declaration.passes.length = 1 := by decide +kernel
  have owned : ∀ call ∈ inspectCalls, call.isCreation = false := by decide
  have without := compile_without_culled shown_reachable "inspect" .graphics inspectCalls none []
    (by decide)
  dsimp only [List.foldl_nil] at without
  rw [accepted, idle] at without
  obtain ⟨survivors, schedule, orders, _⟩ := without owned inspected_culled
  have image {r : ResourceId} (overrides : inspectCalls.any (·.overrides r) = true) : r = ⟨0⟩ := by
    rw [inspectCalls, List.any_cons, List.any_nil, Bool.or_false, PassCall.overrides,
      Bool.and_eq_true] at overrides
    exact (eq_of_beq overrides.1).symm
  refine ⟨shown_reachable, owned, last ▸ inspected_culled, survivors, fun ends => ?_,
    fun views => ?_⟩
  · have same : uninspected.graph.culledBrief.schedule = inspected.graph.culledBrief.schedule :=
      schedule.mpr fun r overrides _ => image overrides ▸ ends
    rw [Graph.culledBrief, Graph.culledBrief, uninspected_cull, inspected_cull] at same
    revert same
    decide +kernel
  · have same : uninspected.graph.declaration.orders uninspected.graph.declaration.cull.survival 2 =
        inspected.graph.declaration.orders inspected.graph.declaration.cull.survival 2 :=
      orders.mpr fun r overrides _ => image overrides ▸ views
    rw [uninspected_cull, inspected_cull] at same
    revert same
    decide +kernel

/-- Without its accesses a culled pass can leave another schedule. -/
theorem not_all_culled_passes_idle :
    ¬ ∀ s : Session, s.Reachable → ∀ name queue calls recorder,
      (∀ call ∈ calls, call.isCreation = false) →
      let t := s.act (.declare name queue calls recorder)
      let t' := s.act (.declare name queue (PassCall.withoutAccesses calls) recorder)
      ¬ t.graph.declaration.Survives ⟨s.graph.declaration.passes.length⟩ →
      ∀ u u', t.Does Graph.compile u → t'.Does Graph.compile u' →
        u'.graph.schedule? = u.graph.schedule? := by
  intro always
  have same := always shown shown_reachable "inspect" .graphics inspectCalls none (by decide)
    inspected_culled _ _ inspected_compiles uninspected_compiles
  revert same
  decide +kernel

end Session

end RenderGraph
