import RenderGraph.Proofs.BarrierPlacement
import RenderGraph.Proofs.TransitionOrder

/-! What lies between an unordered write and a later unordered access on the same queue. The one
pending write that is kept for a resource is lost when a pass on another queue, or the writing pass
itself, accesses the resource in between. -/

namespace RenderGraph

/-- Some write or create of the pass leaves an unordered write to the resource. -/
def Pass.WritesUnordered (pass : Pass) (r : ResourceId) : Prop :=
  ∃ a ∈ pass.outputs, a.resource = r ∧ a.usage = .unorderedWrite

/-- Some read or write of the pass has an unordered usage of the resource. -/
def Pass.UsesUnordered (pass : Pass) (r : ResourceId) : Prop :=
  ∃ a ∈ pass.reads ++ pass.writes, a.resource = r ∧
    (a.usage = .unorderedRead ∨ a.usage = .unorderedWrite)

/-- The access is made after the first pass and at the latest by the second. -/
def Touch.IsBetween (t : Touch) (p q : PassId) : Prop :=
  p.index < t.pass.index ∧ t.pass.index ≤ q.index

namespace Declaration

/-- Some access between two surviving passes needs a barrier right after the access before it. -/
def Parts (d : Declaration) (r : ResourceId) (p q : PassId) : Prop :=
  ∃ t u, [t, u] <:+: touchesOf d.surviving r ∧ u.IsBetween p q ∧ t.Parts u

/-- A surviving pass on another queue comes after the first pass and before the second. -/
def Detours (d : Declaration) (e f : PassId × Pass) : Prop :=
  ∃ x ∈ d.surviving, x.2.queue ≠ e.2.queue ∧ d.Precedes e x ∧ d.Precedes x f

end Declaration

namespace Schedule

/-- A barrier for the resource comes between the two passes. -/
def HasBarrierBetween (s : Schedule) (r : ResourceId) (p q : PassId) : Prop :=
  ∃ (l m n : Nat) (first second list : ListId) (batch : List Barrier), l < m ∧ m < n ∧
    s.events[l]? = some (.record first p) ∧ s.events[m]? = some (.barriers list batch) ∧
    s.events[n]? = some (.record second q) ∧ Names r batch

/-- A chain of syncs leaves the queue of the first pass once its list is submitted, and arrives at
the queue of the second pass before its list is. -/
def HasChainBetween (s : Schedule) (p q : PassId) : Prop :=
  ∃ first second, s.RecordedInto p first ∧ s.RecordedInto q second ∧ s.Orders first second

theorem lt_iff_of_recorded {s : Schedule}
    (declared : s.recordedPasses.Pairwise fun p q => p.index < q.index) {m n : Nat} {p q : PassId}
    {first second : ListId} (record : s.events[m]? = some (.record first p))
    (record' : s.events[n]? = some (.record second q)) : m < n ↔ p.index < q.index := by
  have rising := List.pairwise_iff_getElem.mp (List.pairwise_filterMap.mp declared)
  obtain ⟨inside, same⟩ := List.getElem?_eq_some_iff.mp record
  obtain ⟨inside', same'⟩ := List.getElem?_eq_some_iff.mp record'
  constructor
  · intro before
    exact rising m n inside inside' before p (by rw [same]; rfl) q (by rw [same']; rfl)
  · intro lower
    rcases Nat.lt_trichotomy m n with before | here | after
    · exact before
    · subst here
      rw [record] at record'
      cases record'
      omega
    · have higher := rising n m inside' inside after q (by rw [same']; rfl) p (by rw [same]; rfl)
      omega

section

variable {b : Brief} {s : Schedule} {log : List Entry} {e f : Entry} {r : ResourceId}

theorem Follows.hasBarrierBetween_iff (follows : s.Follows log) (same : logged log = b.live)
    (member : e ∈ log) (member' : f ∈ log) : s.HasBarrierBetween r e.id f.id ↔
      ∃ g ∈ log, e.id.index < g.id.index ∧ g.id.index ≤ f.id.index ∧ Guards s.events g.id r := by
  have declared : s.recordedPasses.Pairwise fun p q => p.index < q.index := by
    rw [follows.recordedPasses]
    exact List.pairwise_map.mpr (Brief.pairwise_log same)
  have distinct := Brief.nodup_ids same
  have position (g : Entry) (member : g ∈ log) :=
    List.mem_iff_getElem?.mp (follows.recordedInto distinct member).mem_events
  constructor
  · rintro ⟨l, m, n, first, second, list, batch, before, after, record, barriers, record', names⟩
    rcases follows.batched m list batch barriers with
      ⟨g, found, next, _⟩ | ⟨_, _, submit, last, _⟩
    · refine ⟨g, found, ?_, ?_, m, list, batch, barriers, next, names⟩
      · exact (lt_iff_of_recorded declared record next).mp (by omega)
      · apply Nat.le_of_not_lt
        intro lower
        have later := (lt_iff_of_recorded declared record' next).mpr lower
        omega
    · -- The batch that restores states comes after all passes.
      have inside := (List.getElem?_eq_some_iff.mp record').1
      have here : n = m + 1 := by omega
      rw [here, submit] at record'
      cases record'
  · rintro ⟨g, found, lower, upper, m, list, batch, barriers, next, names⟩
    obtain ⟨l, record⟩ := position e member
    obtain ⟨n, record'⟩ := position f member'
    refine ⟨l, m, n, e.list, f.list, list, batch, ?_, ?_, record, barriers, record', names⟩
    · have before := (lt_iff_of_recorded declared record next).mpr lower
      have apart : l ≠ m := by
        rintro rfl
        rw [record] at barriers
        cases barriers
      omega
    · have notAfter : ¬ n < m + 1 := fun after =>
        Nat.not_lt_of_le upper ((lt_iff_of_recorded declared record' next).mp after)
      omega

theorem Follows.hasChainBetween {d : Declaration} (follows : s.Follows log)
    (live : b.live = d.surviving) (same : logged log = b.live) (member : e ∈ log)
    (member' : f ∈ log) (own : e.pass.queue = f.pass.queue)
    (detours : d.Detours (e.id, e.pass) (f.id, f.pass)) : s.HasChainBetween e.id f.id := by
  obtain ⟨x, _, apart, leaves, returns⟩ := detours
  have distinct := Brief.nodup_ids same
  obtain ⟨g, found, rfl, first⟩ := follows.leads_of_precedes live same member leaves
  obtain ⟨h, found', equal, second⟩ := follows.leads_of_precedes live same found returns
  have last : h = f := List.inj_on_of_nodup_map distinct found' member' (congrArg Prod.fst equal)
  subst last
  have before := first.resolve_left fun here => apart here.1.symm
  have before' := second.resolve_left fun here => apart (here.1.trans own.symm)
  exact ⟨e.list, h.list, follows.recordedInto distinct member,
    follows.recordedInto distinct member',
    follows.orders (follows.queues e member) (follows.queues h member') (before.comp before')⟩

end

end Schedule

/-! Between two accesses that need no barrier in a row, a resource does not turn from a read-only
state into another one or back. -/

theorem ResourceState.not_isReadOnly_of_unordered (extra : ResourceState) :
    ¬ (unorderedAccess ∪ extra).isReadOnly = true := by
  have writes : (unorderedAccess ∪ extra).meets writable = true := by
    have bit : ((unorderedAccess ∪ extra).bits &&& writable.bits).getLsbD 6 = true := by
      rw [bits_union, BitVec.getLsbD_and, BitVec.getLsbD_or]
      have set : unorderedAccess.bits.getLsbD 6 = true ∧ writable.bits.getLsbD 6 = true := by decide
      rw [set.1, set.2, Bool.true_or, Bool.and_self]
    rw [meets, bne_iff_ne]
    intro empty
    rw [empty] at bit
    simp at bit
  simp [isReadOnly, writes]

namespace Touch

variable {t u : Touch} {p q : PassId}

theorem isReadOnly_iff_of_not_parts (served : u.IsServed) (unparted : ¬ t.Parts u) :
    t.access.state.isReadOnly = true ↔ u.access.state.isReadOnly = true := by
  by_cases same : t.access.state = u.access.state
  · rw [same]
  · have both : t.access.state.isReadOnly = true ∧ u.access.state.isReadOnly = true := by
      by_contra changes
      exact unparted ⟨served, Or.inr ⟨same, changes⟩⟩
    exact iff_of_true both.1 both.2

def Alike (p q : PassId) (t u : Touch) : Prop := t.IsBetween p q → u.IsBetween p q →
  (t.access.state.isReadOnly = true ↔ u.access.state.isReadOnly = true)

instance (p q : PassId) : Std.Symm (Alike p q) :=
  ⟨fun _ _ alike between between' => (alike between' between).symm⟩

theorem pairwise_alike {touches : List Touch}
    (rising : touches.Pairwise fun t u => t.pass.index ≤ u.pass.index)
    (served : ∀ u ∈ touches, u.IsBetween p q → u.IsServed)
    (unparted : ∀ t u, [t, u] <:+: touches → u.IsBetween p q → ¬ t.Parts u) :
    touches.Pairwise (Alike p q) := by
  induction touches with
  | nil => exact .nil
  | cons x rest ih =>
    obtain ⟨least, rising⟩ := List.pairwise_cons.mp rising
    have later := ih rising (fun u member => served u (List.mem_cons_of_mem x member))
      fun t u pair => unparted t u (pair.trans (List.suffix_cons x rest).isInfix)
    refine List.pairwise_cons.mpr ⟨fun y member between between' => ?_, later⟩
    cases rest with
    | nil => cases member
    | cons head rest =>
      have between'' : head.IsBetween p q := by
        have low := least head List.mem_cons_self
        have high : head.pass.index ≤ y.pass.index := by
          rcases List.mem_cons.mp member with rfl | after
          · exact Nat.le_refl _
          · exact (List.pairwise_cons.mp rising).1 y after
        exact ⟨Nat.lt_of_lt_of_le between.1 low, Nat.le_trans high between'.2⟩
      have step := isReadOnly_iff_of_not_parts
        (served head (List.mem_cons_of_mem x List.mem_cons_self) between'')
        (unparted x head ⟨[], rest, rfl⟩ between'')
      rcases List.mem_cons.mp member with rfl | after
      · exact step
      · exact step.trans ((List.pairwise_cons.mp later).1 y after between'' between')

end Touch

theorem exists_touch_of_access {pass : Pass} (p : PassId) {a : Access}
    (member : a ∈ pass.accesses) :
    ∃ t ∈ pass.touchesOf p a.resource, t.access = a := by
  simp only [Pass.accesses, List.mem_append] at member
  have made (role : Role) {accesses : List Access} (member : a ∈ accesses) :
      (⟨p, pass.queue, role, a⟩ : Touch) ∈ touchesBy p pass.queue role accesses a.resource :=
    List.mem_map_of_mem (List.mem_filter.mpr ⟨member, beq_self_eq_true _⟩)
  rcases member with (creates | reads) | writes
  · exact ⟨_, List.mem_append_left _ (List.mem_append_left _ (made .create creates)), rfl⟩
  · exact ⟨_, List.mem_append_left _ (List.mem_append_right _ (made .read reads)), rfl⟩
  · exact ⟨_, List.mem_append_right _ (made .write writes), rfl⟩

theorem mem_touchesOf {live : List (PassId × Pass)} {p : PassId} {pass : Pass} {r : ResourceId}
    {t : Touch} (member : (p, pass) ∈ live) (touch : t ∈ pass.touchesOf p r) :
    t ∈ touchesOf live r :=
  List.mem_flatMap.mpr ⟨(p, pass), member, touch⟩

theorem pairwise_touchesOf {live : List (PassId × Pass)} (r : ResourceId)
    (declared : live.Pairwise fun e f => e.1.index < f.1.index) :
    (touchesOf live r).Pairwise fun t u => t.pass.index ≤ u.pass.index := by
  refine List.pairwise_flatMap.mpr
    ⟨fun e _ => ?_, declared.imp fun {e f} before t first u second => ?_⟩
  · refine List.pairwise_of_forall_mem_list fun t first u second => ?_
    rw [pass_of_mem_touchesOf first, pass_of_mem_touchesOf second]
  · rw [pass_of_mem_touchesOf first, pass_of_mem_touchesOf second]
    exact Nat.le_of_lt before

theorem Recounts.parts_of_guards {d : Declaration} {events : List Event} {log : List Entry}
    {r : ResourceId} {e f : Entry} {g : PassId} (recounts : Recounts events log r)
    (same : logged log = d.surviving) (member : e ∈ log) (member' : f ∈ log)
    (touches : e.pass.touches r = true) (uses : f.pass.UsesUnordered r)
    (served : ∀ u ∈ touchesOf d.surviving r, u.IsBetween e.id f.id → u.IsServed)
    (guards : Guards events g r) (lower : e.id.index < g.index) (upper : g.index ≤ f.id.index) :
    d.Parts r e.id f.id := by
  have declared := d.pairwise_survivors d.cull.survival
  obtain ⟨k, h, held, rfl, disturbed⟩ := recounts.calm g guards
  have before : touchesOf (logged (log.take k)) r ≠ [] := by
    obtain ⟨a, access, here⟩ := List.any_eq_true.mp touches
    rw [← eq_of_beq here]
    obtain ⟨t, touch, _⟩ := exists_touch_of_access e.id access
    have early : (e.id, e.pass) ∈ logged (log.take k) := by
      obtain ⟨j, held'⟩ := List.mem_iff_getElem?.mp member
      have first := Brief.lt_of_index_lt (b := ⟨d, d.cull.survival, true⟩) same held' held lower
      refine List.mem_map.mpr ⟨e, List.mem_iff_getElem?.mpr ⟨j, ?_⟩, rfl⟩
      rw [List.getElem?_take_of_lt first, held']
    exact List.ne_nil_of_mem (mem_touchesOf early touch)
  obtain ⟨t, u, pair, own, serves, pending | apart⟩ := disturbed before
  · rw [same] at pair
    exact ⟨t, u, pair, ⟨own ▸ lower, own ▸ upper⟩, serves, Or.inl pending⟩
  -- Else the states in between are all read-only, which that of an unordered access is not.
  by_contra unparted
  rw [same] at pair
  have between : u.IsBetween e.id f.id := ⟨own ▸ lower, own ▸ upper⟩
  have readOnly : t.access.state.isReadOnly = true ∧ u.access.state.isReadOnly = true := by
    by_contra changes
    exact unparted ⟨t, u, pair, between, serves, Or.inr ⟨apart, changes⟩⟩
  obtain ⟨a, access, rfl, unordered⟩ := uses
  have accessed : a ∈ f.pass.accesses := by
    simp only [Pass.accesses, List.mem_append] at access ⊢
    tauto
  obtain ⟨z, touch, rfl⟩ := exists_touch_of_access f.id accessed
  have between' : z.IsBetween e.id f.id := by
    rw [Touch.IsBetween, pass_of_mem_touchesOf touch]
    exact ⟨Nat.lt_of_lt_of_le lower upper, Nat.le_refl _⟩
  have member'' : z ∈ touchesOf d.surviving z.access.resource :=
    mem_touchesOf (same ▸ List.mem_map_of_mem member') touch
  have alike := (Touch.pairwise_alike (pairwise_touchesOf _ declared) served
    fun t u pair between parts => unparted ⟨t, u, pair, between, parts⟩).forall_of_forall
    (fun _ _ _ _ => Iff.rfl) (pair.subset (by simp)) member'' between between'
  have writable : ¬ z.access.state.isReadOnly = true := by
    rw [Access.state]
    rcases unordered with usage | usage <;>
    · rw [usage]
      exact ResourceState.not_isReadOnly_of_unordered _
  exact writable (alike.mp readOnly.2)

namespace Session

variable {s s' : Session}

/-- Between an unordered write and a later unordered access on the same queue there is a barrier if
two accesses in a row need one, which is the only reason for a barrier where barriers can be made
for all accesses in between. There is a chain of syncs if the passes in between lead over another
queue. -/
theorem unordered_hazards (reachable : s.Reachable) (does : s.Does Graph.compile s') :
    ∃ c, s'.graph.compilation = some c ∧
      ∀ p pass q other r, (p, pass) ∈ s'.graph.declaration.surviving →
        (q, other) ∈ s'.graph.declaration.surviving → p.index < q.index →
        pass.queue = other.queue → pass.queue ≠ .copy → pass.WritesUnordered r →
        other.UsesUnordered r →
        (s'.graph.declaration.Parts r p q → c.schedule.HasBarrierBetween r p q) ∧
        (s'.graph.declaration.Detours (p, pass) (q, other) → c.schedule.HasChainBetween p q) ∧
        ((∀ u ∈ touchesOf s'.graph.declaration.surviving r, u.IsBetween p q → u.IsServed) →
          c.schedule.HasBarrierBetween r p q → s'.graph.declaration.Parts r p q) := by
  obtain ⟨c, made, compiled, _, declaration, _⟩ := does.compiled
  have closed : s'.graph.declaration.Closed := declaration ▸ reachable.closed
  have live : (s'.graph.brief s'.graph.config.mergesReads).live =
      s'.graph.declaration.surviving := by
    simp only [Brief.live, Graph.brief, Declaration.surviving, compiled.survival]
  obtain ⟨log, same, follows, recounts⟩ := Brief.recounts_of_schedule closed compiled.schedule
  refine ⟨c, compiled.compilation, ?_⟩
  intro p pass q other r survives survives' before queue _ writes uses
  rw [← live] at survives survives'
  obtain ⟨j, e, held, rfl, rfl⟩ := Brief.exists_entry same survives
  obtain ⟨k, f, held', rfl, rfl⟩ := Brief.exists_entry same survives'
  have member := List.mem_of_getElem? held
  have member' := List.mem_of_getElem? held'
  obtain ⟨a, output, rfl, unordered⟩ := writes
  have accessed : a ∈ e.pass.accesses := by
    simp only [Pass.accesses, Pass.outputs, List.mem_append] at output ⊢
    tauto
  have touches := Pass.touches_of_mem accessed
  have inside : a.resource.index < s'.graph.declaration.resources.length :=
    closed _ (Declaration.mem_passes_of_mem_survivors survives) a accessed
  have recounts := recounts a.resource inside
  refine ⟨?_, ?_, ?_⟩
  · rintro ⟨t, u, pair, between, parts⟩
    rw [← live, ← same] at pair
    have guards : Guards c.schedule.events u.pass a.resource :=
      rel_of_isChain recounts.parted pair parts
    obtain ⟨_, list, _, _, record, _⟩ := id guards
    obtain ⟨g, found, _, own⟩ := follows.exists_entry (List.mem_of_getElem? record)
    rw [← own] at guards
    exact (follows.hasBarrierBetween_iff same member member').mpr
      ⟨g, found, own ▸ between.1, own ▸ between.2, guards⟩
  · exact follows.hasChainBetween live same member member' queue
  · intro served barrier
    obtain ⟨g, _, lower, upper, guards⟩ :=
      (follows.hasBarrierBetween_iff same member member').mp barrier
    exact recounts.parts_of_guards (same.trans live) member member' touches uses served guards
      lower upper

/-! A grid that is cleared and then splatted into on the compute queue. -/

def splatted : Session := [
  .declare "clear" .compute [.create { extent := .buffer 16 64 } "grid" .unorderedWrite []] none,
  .declare "splat" .compute
    [.write ⟨0⟩ "grid" .unorderedWrite [], .sideEffects true] none].foldl act (start {} [] {})

theorem splatted_cull : splatted.graph.declaration.cull =
    ⟨{ passRefs := [1, 1], resourceRefs := [0], live := [true] },
      [.culled ⟨0⟩, .revived ⟨0⟩ ⟨1⟩]⟩ := by
  unfold splatted
  cbv

theorem splatted_compiles : splatted.Does Graph.compile (splatted.act .compile) := by
  apply does_after
  rw [Graph.run_compile_of_fresh (by decide +kernel) (by decide +kernel) splatted_cull]
  decide +kernel

def clearPass : Pass where
  name := "clear"
  queue := .compute
  creates := [{ name := "grid", resource := ⟨0⟩, usage := .unorderedWrite }]

def splatPass : Pass where
  name := "splat"
  queue := .compute
  writes := [{ name := "grid", resource := ⟨0⟩, usage := .unorderedWrite }]
  sideEffects := true

theorem splatted_surviving : (splatted.act .compile).graph.declaration.surviving =
    [(⟨0⟩, clearPass), (⟨1⟩, splatPass)] := by
  obtain ⟨_, _, _, _, declaration, _⟩ := splatted_compiles.compiled
  rw [declaration, Declaration.surviving, splatted_cull]
  decide +kernel

theorem splatted_hazard : splatted.Reachable ∧
    splatted.Does Graph.compile (splatted.act .compile) ∧
    ∃ c, (splatted.act .compile).graph.compilation = some c ∧
      c.schedule.HasBarrierBetween ⟨0⟩ ⟨0⟩ ⟨1⟩ := by
  have reachable : splatted.Reachable := (Reachable.start {} [] {}).foldl _
  obtain ⟨c, compilation, hazards⟩ := unordered_hazards reachable splatted_compiles
  rw [splatted_surviving] at hazards
  refine ⟨reachable, splatted_compiles, c, compilation, ?_⟩
  refine (hazards ⟨0⟩ clearPass ⟨1⟩ splatPass ⟨0⟩ (by simp) (by simp) (by decide) rfl (by decide)
    ?_ ?_).1 ?_
  · exact ⟨_, List.mem_cons_self, rfl, rfl⟩
  · exact ⟨_, List.mem_cons_self, rfl, Or.inr rfl⟩
  · rw [Declaration.Parts, splatted_surviving]
    refine ⟨_, _, List.prefix_rfl.isInfix, ⟨by decide, by decide⟩, ⟨by decide, by decide⟩, ?_⟩
    exact Or.inl (by decide)

/-! Particles that are simulated on the graphics queue, measured on the compute queue and drawn. -/

def relayed : Session := [
  .manage "particles" { extent := .buffer 16 64 } .unorderedWrite,
  .declare "simulate" .graphics [.write ⟨0⟩ "particles" .unorderedWrite []] none,
  .declare "measure" .compute
    [.read ⟨0⟩ "particles" .unorderedRead [], .sideEffects true] none,
  .declare "draw" .graphics
    [.read ⟨0⟩ "particles" .unorderedRead [], .sideEffects true] none].foldl act (start {} [] {})

theorem relayed_cull : relayed.graph.declaration.cull =
    ⟨{ passRefs := [1, 0, 0], resourceRefs := [2], live := [true] }, []⟩ := by
  unfold relayed
  cbv

theorem relayed_compiles : relayed.Does Graph.compile (relayed.act .compile) := by
  apply does_after
  rw [Graph.run_compile_of_fresh (by decide +kernel) (by decide +kernel) relayed_cull]
  decide +kernel

def simulatePass : Pass where
  name := "simulate"
  queue := .graphics
  writes := [{ name := "particles", resource := ⟨0⟩, usage := .unorderedWrite }]

def measurePass : Pass where
  name := "measure"
  queue := .compute
  reads := [{ name := "particles", resource := ⟨0⟩, usage := .unorderedRead }]
  sideEffects := true

def drawParticlesPass : Pass where
  name := "draw"
  queue := .graphics
  reads := [{ name := "particles", resource := ⟨0⟩, usage := .unorderedRead }]
  sideEffects := true

theorem relayed_surviving : (relayed.act .compile).graph.declaration.surviving =
    [(⟨0⟩, simulatePass), (⟨1⟩, measurePass), (⟨2⟩, drawParticlesPass)] := by
  obtain ⟨_, _, _, _, declaration, _⟩ := relayed_compiles.compiled
  rw [declaration, Declaration.surviving, relayed_cull]
  decide +kernel

def relayedSchedule : Schedule where
  events := [
    .openList .graphics ⟨0⟩,
    .record ⟨0⟩ ⟨0⟩,
    .submit ⟨0⟩,
    .openList .compute ⟨1⟩,
    .sync .graphics .compute ⟨0⟩,
    .record ⟨1⟩ ⟨1⟩,
    .submit ⟨1⟩,
    .openList .graphics ⟨2⟩,
    .record ⟨2⟩ ⟨2⟩,
    .submit ⟨2⟩]
  lists := [.graphics, .compute, .graphics]
  fences := [.graphics]
  finalStates := [some .unorderedAccess]

theorem schedule_of_relayed {c : Compilation}
    (compilation : (relayed.act .compile).graph.compilation = some c) :
    c.schedule = relayedSchedule := by
  have made := relayed_compiles.schedule_eq relayed_cull compilation
  have expected : (Brief.mk relayed.graph.declaration
      { passRefs := [1, 0, 0], resourceRefs := [2], live := [true] }
      relayed.graph.config.mergesReads).schedule = .ok relayedSchedule := by decide +kernel
  rw [expected] at made
  exact (Except.ok.inj made).symm

/-- Measuring on the compute queue takes the pending write of the particles away, although nothing
makes the graphics queue wait before it draws them. -/
theorem not_all_unordered_hazards :
    ¬ ∀ (s s' : Session) (c : Compilation) p pass q other r, s.Reachable →
      s.Does Graph.compile s' → s'.graph.compilation = some c →
      (p, pass) ∈ s'.graph.declaration.surviving →
      (q, other) ∈ s'.graph.declaration.surviving → p.index < q.index →
      pass.queue = other.queue → pass.queue ≠ .copy → pass.WritesUnordered r →
      other.UsesUnordered r →
      c.schedule.HasBarrierBetween r p q ∨ c.schedule.HasChainBetween p q := by
  intro claim
  obtain ⟨c, _, compiled, _⟩ := relayed_compiles.compiled
  have schedule := schedule_of_relayed compiled.compilation
  have reachable : relayed.Reachable := (Reachable.start {} [] {}).foldl _
  have simulates : (⟨0⟩, simulatePass) ∈ (relayed.act .compile).graph.declaration.surviving := by
    rw [relayed_surviving]
    exact List.mem_cons_self
  have draws : (⟨2⟩, drawParticlesPass) ∈
      (relayed.act .compile).graph.declaration.surviving := by
    rw [relayed_surviving]
    simp
  rcases claim relayed _ c ⟨0⟩ simulatePass ⟨2⟩ drawParticlesPass ⟨0⟩ reachable relayed_compiles
    compiled.compilation simulates draws (by decide) rfl (by decide)
    ⟨_, List.mem_cons_self, rfl, rfl⟩ ⟨_, List.mem_cons_self, rfl, Or.inl rfl⟩ with
    ⟨_, _, _, _, _, _, _, _, _, _, barriers, _⟩ |
      ⟨first, second, _, into, source, waiting, _, _, _, _, _, opened, _, _, chain, _⟩
  · rw [schedule] at barriers
    have member := List.mem_of_getElem? barriers
    simp [relayedSchedule] at member
  · have here : second = ⟨2⟩ := by
      have recorded := into.mem_events
      rw [schedule] at recorded
      simpa [relayedSchedule] using recorded
    subst here
    obtain ⟨signal, fence, sync⟩ := chain.last_sync
    rw [schedule] at opened sync
    cases opened
    have member := List.mem_of_getElem? sync
    simp [relayedSchedule] at member

end Session

end RenderGraph
