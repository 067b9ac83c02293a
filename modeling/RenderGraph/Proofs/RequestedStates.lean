import RenderGraph.Proofs.ExactOwnership

/-! What the device was asked for. Every copy that a compiled graph holds of a row was requested for
that row, in its initial state. -/

namespace RenderGraph

theorem exists_related {α β : Type} {R : α → β → Prop} {xs : List α} {ys : List β} {x : α}
    (related : List.Forall₂ R xs ys) (member : x ∈ xs) : ∃ y ∈ ys, R x y := by
  induction related with
  | nil => cases member
  | cons head _ ih =>
    rcases List.mem_cons.mp member with rfl | member
    · exact ⟨_, List.mem_cons_self, head⟩
    · obtain ⟨y, inside, holds⟩ := ih member
      exact ⟨y, List.mem_cons_of_mem _ inside, holds⟩

theorem Scene.copies_of_owned {s : Scene} {r : ResourceId} {resource : Resource}
    (held : s.declaration.resource? r = some resource)
    (owned : resource.origin.isImported = false) : s.copies r = s.residency.copiesOf r := by
  unfold copies
  rw [held]
  obtain ⟨name, origin, _⟩ := resource
  cases origin with
  | imported bound => cases owned
  | managed | transient => rfl

def Rig.MadeFor (rig : Rig) (request : ResourceRequest) (native : ResourceKey) : Prop :=
  .command (.createResource native request) ∈ rig.traffic.toList

theorem Rig.MadeFor.extends {rig after : Rig} {request : ResourceRequest} {native : ResourceKey}
    (made : rig.MadeFor request native) (extend : rig.Extends after) :
    after.MadeFor request native :=
  extend.subset made

namespace Order

def Made (o : Order) (copies : List Copy) (rig : Rig) : Prop :=
  ∀ copy ∈ copies, rig.MadeFor o.request copy.native

variable {o : Order} {copies : List Copy} {rig after : Rig}

theorem Made.extends (made : o.Made copies rig) (extend : rig.Extends after) :
    o.Made copies after := fun copy member => (made copy member).extends extend

theorem upholds_addView_made (native : ResourceKey) (kind : ViewKind) (spec : ViewSpec) :
    (addView native kind spec).Upholds o.Made := by
  intro copies rig made
  have extend := (Rig.Leads.refl.call (.createView native kind spec) trivial :
    rig.Leads (fun _ => True) _).extends
  rw [addView, Op.run_bind, Op.run_call]
  rcases called : rig.call (.createView native kind spec) with ⟨failure | view, after⟩
  all_goals rw [called] at extend
  · exact made.extends extend
  · intro copy member
    obtain ⟨old, inside, rfl⟩ := List.mem_map.mp member
    have same : (Copy.addView native kind view old).native = old.native := by
      unfold Copy.addView
      split <;> rfl
    rw [same]
    exact (made old inside).extends extend

theorem upholds_addCopy_made : o.addCopy.Upholds o.Made := by
  intro copies rig made
  have extend := (Rig.Leads.refl.call (.createResource o.request) trivial :
    rig.Leads (fun _ => True) _).extends
  rw [addCopy, Op.run_bind, Op.run_call]
  rcases called : rig.call (.createResource o.request) with ⟨failure | native, after⟩
  all_goals rw [called] at extend
  · exact made.extends extend
  · obtain ⟨_, _, _, traffic⟩ := Rig.call_ok called
    have fresh : after.MadeFor o.request native := by
      rw [Rig.MadeFor, traffic, Array.toList_push]
      exact List.mem_concat_self
    have more : o.Made (copies ++ [({ native } : Copy)]) after := by
      intro copy member
      rcases List.mem_append.mp member with old | new
      · exact (made copy old).extends extend
      · rw [List.mem_singleton.mp new]
        exact fresh
    dsimp only
    rw [Op.run_bind, Op.run_update]
    exact Op.upholds_forM o.views (fun view => upholds_addView_made _ _ _) _ _ more

theorem upholds_addCopies_made (n : Nat) : (o.addCopies n).Upholds o.Made := by
  induction n with
  | zero => exact fun _ _ made => made
  | succ n ih => exact upholds_addCopy_made.bind fun _ => ih

end Order

theorem Residency.Placed.made_for {o : Order} {rig : Rig} {holding : Holding}
    (placed : Placed o rig holding) : o.Made holding.copies rig := by
  obtain ⟨_, _, made, leads⟩ := placed.made
  have fresh := (Order.upholds_addCopies_made o.count).of_run made
    fun _ (none : _ ∈ []) => by cases none
  exact fresh.extends leads.extends

theorem Declaration.request_of_mem_orders {d : Declaration} {s : Survival} {frameCount : Nat}
    {o : Order} (member : o ∈ d.orders s frameCount) :
    ∃ resource, d.resource? o.resource = some resource ∧
      o.request.state = resource.initialState := by
  obtain ⟨⟨resource, i⟩, found, made⟩ := List.mem_filterMap.mp member
  dsimp only at made
  split at made
  · cases made
    exact ⟨resource, List.mk_mem_zipIdx_iff_getElem?.mp found, rfl⟩
  · cases made

namespace Session

variable {s s' : Session}

theorem Does.requested (does : s.Does Graph.compile s') {r : ResourceId} {resource : Resource}
    (held : s'.graph.declaration.resource? r = some resource)
    (owned : resource.origin.isImported = false) {frameIndex : Nat} {native : ResourceKey}
    (behind : s'.graph.scene.native? r frameIndex = some native) :
    ∃ request, s'.rig.MadeFor request native ∧ request.state = resource.initialState := by
  obtain ⟨copy, found, rfl⟩ := Option.map_eq_some_iff.mp behind
  have inside := List.mem_of_getElem? found
  rw [Scene.copies_of_owned held owned] at inside
  unfold Residency.copiesOf at inside
  cases holds : s'.graph.scene.residency.find? (·.resource == r) with
  | none =>
    rw [holds] at inside
    cases inside
  | some holding =>
    rw [holds] at inside
    have row : holding.resource = r := by simpa using List.find?_some holds
    obtain ⟨o, ordered, placed⟩ :=
      exists_related does.residency_placed.flip (List.mem_of_find?_eq_some holds)
    obtain ⟨other, found, state⟩ := Declaration.request_of_mem_orders ordered
    rw [← placed.row, row, held] at found
    cases found
    exact ⟨o.request, placed.made_for copy inside, state⟩

end Session

end RenderGraph
