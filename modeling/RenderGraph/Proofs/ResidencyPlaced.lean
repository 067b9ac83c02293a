import RenderGraph.Proofs.CallsMade

/-! What the graph holds on the device once it is compiled: for every live resource of its own as
many copies as are due, in the order of declaration. -/

namespace RenderGraph

theorem Op.run_within_ok {σ τ α : Type} {part : σ → τ} {put : τ → σ → σ} {op : Op τ α} {s s' : σ}
    {rig rig' : Rig} {a : α} (ran : (within part put op).run s rig = (.ok a, s', rig')) :
    ∃ t, op.run (part s) rig = (.ok a, t, rig') ∧ s' = put t s := by
  rw [run_within] at ran
  obtain ⟨result, rest⟩ := Prod.mk.inj ran
  obtain ⟨rfl, rfl⟩ := Prod.mk.inj rest
  exact ⟨_, by rw [← result], rfl⟩

def Copy.natives (copies : List Copy) : List ResourceKey := copies.map (·.native)

namespace Order

variable {o : Order} {n : Nat} {copies after : List Copy} {rig rig' : Rig}

theorem keeps_natives_addView (native : ResourceKey) (kind : ViewKind) (spec : ViewSpec) :
    (addView native kind spec).Keeps Copy.natives := by
  refine (Op.keeps_call _).bind fun view => Op.keeps_update fun copies => ?_
  rw [Copy.natives, Copy.natives, List.map_map]
  refine List.map_congr_left fun copy _ => ?_
  rw [Function.comp_apply, Copy.addView]
  split <;> rfl

theorem natives_of_addCopy (ran : o.addCopy.run copies rig = (.ok (), after, rig')) :
    ∃ native mid, Copy.natives after = Copy.natives copies ++ [native] ∧
      mid.traffic.toList = rig.traffic.toList ++ [.command (.createResource native o.request)] ∧
      (o.views.forM fun (kind, spec) => addView native kind spec).run
        (copies ++ [({ native } : Copy)]) mid = (.ok (), after, rig') := by
  obtain ⟨native, _, mid, called, rest⟩ := Op.run_bind_ok.mp ran
  obtain ⟨rfl, traffic⟩ := Op.traffic_of_call called
  obtain ⟨_, _, _, added, views⟩ := Op.run_bind_ok.mp rest
  cases added
  have keeps : (o.views.forM fun view => addView native view.1 view.2).Keeps Copy.natives :=
    Op.keeps_forM _ fun _ => keeps_natives_addView _ _ _
  refine ⟨native, mid, ?_, traffic, views⟩
  rw [keeps.of_run views, Copy.natives, List.map_append]
  rfl

theorem length_of_addCopy (ran : o.addCopy.run copies rig = (.ok (), after, rig')) :
    after.length = copies.length + 1 := by
  obtain ⟨native, _, natives, _⟩ := natives_of_addCopy ran
  simpa [Copy.natives] using congrArg List.length natives

theorem length_of_addCopies (ran : (o.addCopies n).run copies rig = (.ok (), after, rig')) :
    after.length = copies.length + n := by
  induction n generalizing copies rig with
  | zero =>
    cases ran
    rfl
  | succ n ih =>
    obtain ⟨_, _, _, first, rest⟩ := Op.run_bind_ok.mp ran
    rw [ih rest, length_of_addCopy first]
    omega

end Order

namespace Residency

variable {o : Order} {orders : List Order} {held after : Residency} {rig rig' : Rig}

def census (held : Residency) : List (ResourceId × Nat) :=
  held.map fun holding => (holding.resource, holding.copies.length)

def due (orders : List Order) : List (ResourceId × Nat) := orders.map fun o => (o.resource, o.count)

/-- The holding came about by making the copies that the order asks for. -/
structure Placed (o : Order) (last : Rig) (holding : Holding) : Prop where
  row : holding.resource = o.resource
  made : ∃ start mid, (o.addCopies o.count).run [] start = (.ok (), holding.copies, mid) ∧
    mid.Leads Call.IsUpkeep last

theorem Placed.leads {holding : Holding} (placed : Placed o rig holding)
    (leads : rig.Leads Call.IsUpkeep rig') : Placed o rig' holding where
  row := placed.row
  made := by
    obtain ⟨start, mid, made, before⟩ := placed.made
    exact ⟨start, mid, made, before.trans leads⟩

theorem placed_of_place (ran : (place o).run held rig = (.ok (), after, rig')) :
    ∃ holding, after = held ++ [holding] ∧ Placed o rig' holding := by
  obtain ⟨⟨result, copies⟩, _, _, making, ran⟩ := Op.run_bind_ok.mp ran
  obtain ⟨made, rfl⟩ := Op.run_aside_ok.mp making
  rcases result with failure | ⟨⟩
  · cases failure with
    | device error =>
      obtain ⟨_, _, _, _, ran⟩ := Op.run_bind_ok.mp ran
      obtain ⟨_, _, _, _, ran⟩ := Op.run_bind_ok.mp ran
      obtain ⟨_, _, _, _, ran⟩ := Op.run_bind_ok.mp ran
      cases ran
    | _ =>
      obtain ⟨_, _, _, _, ran⟩ := Op.run_bind_ok.mp ran
      cases ran
  · cases ran
    exact ⟨⟨o.resource, copies⟩, rfl, rfl, rig, _, made, .refl⟩

theorem placed_of_places (ran : (orders.forM place).run held rig = (.ok (), after, rig')) :
    ∃ more, after = held ++ more ∧ List.Forall₂ (Placed · rig') orders more := by
  induction orders generalizing held rig with
  | nil =>
    cases ran
    exact ⟨[], (List.append_nil _).symm, .nil⟩
  | cons o orders ih =>
    obtain ⟨_, mid, rigMid, first, rest⟩ := Op.run_bind_ok.mp ran
    obtain ⟨holding, rfl, placed⟩ := placed_of_place first
    obtain ⟨more, rfl, others⟩ := ih rest
    have leads := Op.makes_forM orders makes_place (held ++ [holding]) rigMid
    rw [rest] at leads
    exact ⟨holding :: more, by simp, .cons (placed.leads leads) others⟩

theorem placed_of_placeAll (ran : (placeAll orders).run held rig = (.ok (), after, rig')) :
    ∃ more, after = held ++ more ∧ List.Forall₂ (Placed · rig') orders more := by
  obtain ⟨_, _, _, placing, noted⟩ := Op.run_bind_ok.mp ran
  cases noted
  obtain ⟨more, whole, placed⟩ := placed_of_places placing
  exact ⟨more, whole, placed.imp fun _ _ placed => placed.leads (Rig.leads_note _ _ _)⟩

theorem Placed.count {holding : Holding} (placed : Placed o rig holding) :
    holding.copies.length = o.count := by
  obtain ⟨_, _, made, _⟩ := placed.made
  simpa using Order.length_of_addCopies made

theorem census_of_placed (placed : List.Forall₂ (Placed · rig) orders held) :
    census held = due orders := by
  induction placed with
  | nil => rfl
  | cons here _ ih =>
    rw [census, due, List.map_cons, List.map_cons, here.row, here.count]
    exact congrArg _ ih

theorem copiesOf_ne_nil_iff {r : ResourceId} (held' : census held = due orders)
    (positive : ∀ o ∈ orders, 0 < o.count) :
    held.copiesOf r ≠ [] ↔ ∃ o ∈ orders, o.resource = r := by
  have ordered {holding : Holding} (member : holding ∈ held) :
      ∃ o ∈ orders, o.resource = holding.resource ∧ o.count = holding.copies.length := by
    have listed : (holding.resource, holding.copies.length) ∈ due orders :=
      held' ▸ List.mem_map.mpr ⟨holding, member, rfl⟩
    obtain ⟨o, member', same⟩ := List.mem_map.mp listed
    obtain ⟨resource, count⟩ := Prod.mk.inj same
    exact ⟨o, member', resource, count⟩
  unfold copiesOf
  cases found : held.find? (·.resource == r) with
  | none =>
    refine iff_of_false (fun some => some rfl) ?_
    rintro ⟨o, member, rfl⟩
    have listed : (o.resource, o.count) ∈ census held :=
      held' ▸ List.mem_map.mpr ⟨o, member, rfl⟩
    obtain ⟨holding, member', same⟩ := List.mem_map.mp listed
    have other := List.find?_eq_none.mp found holding member'
    simp [(Prod.mk.inj same).1] at other
  | some holding =>
    have same : holding.resource = r := by simpa using List.find?_some found
    obtain ⟨o, member, resource, count⟩ := ordered (List.mem_of_find?_eq_some found)
    refine iff_of_true ?_ ⟨o, member, resource.trans same⟩
    have some := positive o member
    rw [count] at some
    exact List.ne_nil_of_length_pos some

theorem eq_nil_of_releaseAll (ran : releaseAll.run held rig = (.ok (), after, rig')) :
    after = [] := by
  obtain ⟨_, _, _, _, ran⟩ := Op.run_bind_ok.mp ran
  obtain ⟨_, _, _, _, ran⟩ := Op.run_bind_ok.mp ran
  cases ran
  rfl

end Residency

namespace Declaration

variable {d : Declaration} {s : Survival} {frameCount : Nat} {o : Order} {r : ResourceId}

theorem count_pos_of_mem_orders (member : o ∈ d.orders s frameCount) : 0 < o.count := by
  obtain ⟨⟨resource, i⟩, _, made⟩ := List.mem_filterMap.mp member
  dsimp only at made
  split at made
  · cases made
    simp only [order]
    split <;> omega
  · cases made

theorem exists_order_iff : (∃ o ∈ d.orders s frameCount, o.resource = r) ↔
    s.isLive r = true ∧ ∃ resource, d.resource? r = some resource ∧
      resource.origin.isImported = false := by
  constructor
  · rintro ⟨o, member, rfl⟩
    obtain ⟨⟨resource, i⟩, found, made⟩ := List.mem_filterMap.mp member
    dsimp only at made
    split at made
    · rename_i due
      cases made
      rw [Bool.and_eq_true, Bool.not_eq_true'] at due
      exact ⟨due.1, resource, List.mk_mem_zipIdx_iff_getElem?.mp found, due.2⟩
    · cases made
  · rintro ⟨live, resource, found, owned⟩
    refine ⟨d.order s frameCount r resource, List.mem_filterMap.mpr ⟨(resource, r.index),
      List.mk_mem_zipIdx_iff_getElem?.mpr found, ?_⟩, rfl⟩
    exact if_pos (by simpa [owned] using live)

end Declaration

namespace Graph

variable {g g' : Graph} {rig rig' : Rig}

theorem residency_of_release (ran : release.run g rig = (.ok (), g', rig')) :
    g'.residency = [] := by
  have rest {mid : Graph} {rigMid : Rig}
      (ran : (do releaseResidency; Op.update ({ · with compilation := none })).run mid rigMid =
        (.ok (), g', rig')) : g'.residency = [] := by
    obtain ⟨_, _, _, releasing, update⟩ := Op.run_bind_ok.mp ran
    obtain ⟨_, emptied, rfl⟩ := Op.run_within_ok releasing
    cases update
    exact Residency.eq_nil_of_releaseAll emptied
  obtain ⟨_, _, _, _, ran⟩ := Op.run_bind_ok.mp ran
  obtain ⟨_, _, _, _, ran⟩ := Op.run_bind_ok.mp ran
  dsimp only at ran
  split at ran
  · obtain ⟨_, _, _, _, ran⟩ := Op.run_bind_ok.mp ran
    exact rest ran
  · exact rest ran

theorem placed_of_placeResources (empty : g.residency = [])
    (ran : placeResources.run g rig = (.ok (), g', rig')) :
    List.Forall₂ (Residency.Placed · rig')
      (g.declaration.orders g.survival g.config.frameCount) g'.residency := by
  obtain ⟨_, _, _, reading, ran⟩ := Op.run_bind_ok.mp ran
  cases reading
  obtain ⟨_, placing, rfl⟩ := Op.run_within_ok ran
  obtain ⟨more, whole, placed⟩ := Residency.placed_of_placeAll placing
  rw [empty, List.nil_append] at whole
  exact whole ▸ placed

theorem keeps_residency_of_assemble {mid : Graph}
    (ran : g.assemble.run mid rig = (.ok (), g', rig')) : g'.residency = mid.residency := by
  obtain ⟨⟨result, _⟩, _, _, aside, ran⟩ := Op.run_bind_ok.mp ran
  obtain ⟨_, rfl⟩ := Op.run_aside_ok.mp aside
  cases result with
  | error failure =>
    obtain ⟨_, _, _, _, ran⟩ := Op.run_bind_ok.mp ran
    cases ran
  | ok c =>
    dsimp only at ran
    split at ran <;> cases ran <;> rfl

end Graph

namespace Session

variable {s s' : Session}

theorem Does.placed (does : s.Does Graph.compile s') :
    ∃ (culled placed : Graph) (rig rigPlaced : Rig), culled.residency = [] ∧
      Graph.placeResources.run culled rig = (.ok (), placed, rigPlaced) ∧
      placed.assemble.run placed rigPlaced = (.ok (), s'.graph, s'.rig) ∧
      culled.declaration.orders culled.survival culled.config.frameCount =
        s'.graph.declaration.orders s'.graph.survival s'.graph.config.frameCount := by
  obtain ⟨_, released, _, releasing, ran⟩ := Op.run_bind_ok.mp does
  obtain ⟨_, culled, rig, culling, building⟩ := Op.run_bind_ok.mp ran
  have emptied : culled.residency = [] := by
    have keeps : Graph.cull.Keeps (·.residency) := Graph.keeps_cull fun _ _ _ => rfl
    exact (keeps.of_run culling).trans (Graph.residency_of_release releasing)
  have keeps : Graph.build.Keeps fun g => (g.declaration, g.survival, g.config) :=
    Graph.keeps_build fun _ _ _ _ => rfl
  have kept := keeps.of_run building
  simp only [Prod.mk.injEq] at kept
  rw [Graph.build_eq] at building
  obtain ⟨_, placed, rigPlaced, placing, ran⟩ := Op.run_bind_ok.mp building
  obtain ⟨_, _, _, reading, assembling⟩ := Op.run_bind_ok.mp ran
  cases reading
  refine ⟨culled, placed, rig, rigPlaced, emptied, placing, assembling, ?_⟩
  rw [kept.1, kept.2.1, kept.2.2]

theorem Does.residency_placed (does : s.Does Graph.compile s') :
    List.Forall₂ (Residency.Placed · s'.rig)
      (s'.graph.declaration.orders s'.graph.survival s'.graph.config.frameCount)
      s'.graph.residency := by
  obtain ⟨culled, placed, rig, rigPlaced, emptied, placing, assembling, orders⟩ := does.placed
  have leads := placed.makes_assemble placed rigPlaced
  rw [assembling] at leads
  rw [Graph.keeps_residency_of_assemble assembling, ← orders]
  exact (Graph.placed_of_placeResources emptied placing).imp fun _ _ held => held.leads leads

theorem Does.census (does : s.Does Graph.compile s') :
    Residency.census s'.graph.residency = Residency.due
      (s'.graph.declaration.orders s'.graph.survival s'.graph.config.frameCount) :=
  Residency.census_of_placed does.residency_placed

theorem Does.copiesOf_ne_nil_iff (does : s.Does Graph.compile s') (r : ResourceId) :
    s'.graph.residency.copiesOf r ≠ [] ↔ s'.graph.survival.isLive r = true ∧
      ∃ resource, s'.graph.declaration.resource? r = some resource ∧
        resource.origin.isImported = false :=
  (Residency.copiesOf_ne_nil_iff does.census
    fun _ => Declaration.count_pos_of_mem_orders).trans Declaration.exists_order_iff

end Session

end RenderGraph
