import RenderGraph.Proofs.RequestedStates

/-! The copies that compiling makes, one after another. Each of them is requested as its order says
and gets exactly the views that the order asks for, each made of its own native. -/

namespace RenderGraph

def Rig.ViewMade (rig : Rig) (native : ResourceKey) (kind : ViewKind) (view : ViewKey)
    (spec : ViewSpec) : Prop :=
  .command (.createView native kind view spec) ∈ rig.traffic.toList

theorem Rig.ViewMade.extends {rig after : Rig} {native : ResourceKey} {kind : ViewKind}
    {view : ViewKey} {spec : ViewSpec} (made : rig.ViewMade native kind view spec)
    (extend : rig.Extends after) : after.ViewMade native kind view spec :=
  extend.subset made

namespace Order

/-- The copy was made for the order, with the views that the order asks for and no others. -/
structure Furnishes (o : Order) (rig : Rig) (copy : Copy) : Prop where
  made : rig.MadeFor o.request copy.native
  viewed : ∀ kind spec, (kind, spec) ∈ o.views →
    ∃ view, copy.views.get kind = some view ∧ rig.ViewMade copy.native kind view spec
  bare : ∀ kind, kind ∉ o.views.map Prod.fst → copy.views.get kind = none

variable {o : Order} {n : Nat} {rig after : Rig} {done copies left : List Copy} {copy : Copy}
  {views : List (ViewKind × ViewSpec)}

theorem Furnishes.extends (furnishes : o.Furnishes rig copy) (extend : rig.Extends after) :
    o.Furnishes after copy where
  made := furnishes.made.extends extend
  viewed kind spec member := by
    obtain ⟨view, entered, made⟩ := furnishes.viewed kind spec member
    exact ⟨view, entered, made.extends extend⟩
  bare := furnishes.bare

theorem addViews_ok (copy : Copy) (apart : ∀ other ∈ done, other.native ≠ copy.native)
    (distinct : (views.map Prod.fst).Nodup)
    (ran : (views.forM fun (kind, spec) => addView copy.native kind spec).run (done ++ [copy]) rig =
      (.ok (), copies, after)) :
    rig.Extends after ∧ ∃ copy', copies = done ++ [copy'] ∧ copy'.native = copy.native ∧
      (∀ kind spec, (kind, spec) ∈ views →
        ∃ view, copy'.views.get kind = some view ∧ after.ViewMade copy.native kind view spec) ∧
      ∀ kind, kind ∉ views.map Prod.fst → copy'.views.get kind = copy.views.get kind := by
  induction views generalizing copy rig with
  | nil =>
    cases ran
    exact ⟨List.prefix_refl _, copy, rfl, rfl, by simp, by simp⟩
  | cons head views ih =>
    obtain ⟨kind, spec⟩ := head
    obtain ⟨new, distinct⟩ := List.nodup_cons.mp distinct
    obtain ⟨_, _, mid, first, rest⟩ := Op.run_bind_ok.mp ran
    obtain ⟨view, _, _, called, entered⟩ := Op.run_bind_ok.mp first
    obtain ⟨rfl, traffic⟩ := Op.traffic_of_call called
    rw [Op.run_update, Copy.map_addView apart] at entered
    cases entered
    obtain ⟨extend, copy', same, native, made, kept⟩ :=
      ih { copy with views := copy.views.set kind (some view) } apart distinct rest
    have here : mid.ViewMade copy.native kind view spec := by
      rw [Rig.ViewMade, traffic]
      exact List.mem_concat_self
    have begins : rig.Extends mid := ⟨_, traffic.symm⟩
    refine ⟨begins.trans extend, copy', same, native, fun other spec' member => ?_,
      fun other absent => ?_⟩
    · rcases List.mem_cons.mp member with this | later
      · cases this
        refine ⟨view, ?_, here.extends extend⟩
        rw [kept kind new]
        simp [PerView.get_set]
      · exact made other spec' later
    · rw [List.map_cons, List.mem_cons, not_or] at absent
      rw [kept other absent.2]
      simp [PerView.get_set, absent.1]

theorem addCopy_ok (proper : o.Proper) (ran : o.addCopy.run copies rig = (.ok (), left, after))
    (once : (Copy.natives left).Nodup) :
    ∃ copy, left = copies ++ [copy] ∧ o.Furnishes after copy ∧ rig.Extends after := by
  obtain ⟨native, mid, natives, traffic, views⟩ := natives_of_addCopy ran
  have apart : ∀ other ∈ copies, other.native ≠ native := by
    rw [natives] at once
    exact fun other member => (List.nodup_append.mp once).2.2 other.native
      (List.mem_map_of_mem member) native (List.mem_singleton_self _)
  obtain ⟨extend, copy, same, equal, made, bare⟩ := addViews_ok { native } apart proper views
  have begins : rig.Extends mid := ⟨_, traffic.symm⟩
  refine ⟨copy, same, ⟨?_, ?_, fun kind absent => ?_⟩, begins.trans extend⟩
  · rw [Rig.MadeFor, equal]
    exact extend.subset (traffic ▸ List.mem_concat_self)
  · rw [equal]
    exact made
  · rw [bare kind absent]
    exact PerView.get_fill none kind

theorem natives_le_of_addCopies (ran : (o.addCopies n).run copies rig = (.ok (), left, after)) :
    Copy.natives copies <+: Copy.natives left := by
  induction n generalizing copies rig with
  | zero =>
    cases ran
    exact List.prefix_refl _
  | succ n ih =>
    obtain ⟨_, _, _, first, rest⟩ := Op.run_bind_ok.mp ran
    obtain ⟨native, _, natives, _⟩ := natives_of_addCopy first
    exact (natives ▸ List.prefix_append _ _).trans (ih rest)

theorem addCopies_ok (proper : o.Proper)
    (ran : (o.addCopies n).run copies rig = (.ok (), left, after))
    (once : (Copy.natives left).Nodup) (before : ∀ copy ∈ copies, o.Furnishes rig copy) :
    ∀ copy ∈ left, o.Furnishes after copy := by
  induction n generalizing copies rig with
  | zero =>
    cases ran
    exact before
  | succ n ih =>
    obtain ⟨_, mid, rigMid, first, rest⟩ := Op.run_bind_ok.mp ran
    have once' := once.sublist (natives_le_of_addCopies rest).sublist
    obtain ⟨copy, rfl, furnishes, extend⟩ := addCopy_ok proper first once'
    refine ih rest fun other member => ?_
    rcases List.mem_append.mp member with old | new
    · exact (before other old).extends extend
    · rw [List.mem_singleton.mp new]
      exact furnishes

end Order

namespace Residency

variable {o : Order} {rig : Rig}

def Apart (held : Residency) : Prop := ∀ holding ∈ held, (Copy.natives holding.copies).Nodup

theorem Placed.furnished {holding : Holding} (placed : Placed o rig holding) (proper : o.Proper)
    (once : (Copy.natives holding.copies).Nodup) :
    ∀ copy ∈ holding.copies, o.Furnishes rig copy := by
  obtain ⟨_, _, made, leads⟩ := placed.made
  intro copy member
  exact (Order.addCopies_ok proper made once (fun _ member => nomatch member) copy member).extends
    leads.extends

end Residency

end RenderGraph
