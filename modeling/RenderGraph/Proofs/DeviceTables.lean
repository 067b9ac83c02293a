import RenderGraph.Proofs.CallsMade

/-! The tables of the device. Lists and fences stay where they are unless a call makes or gives up
one of them, and only a signal moves a fence. Keys in the tables have been handed out before. -/

namespace RenderGraph

namespace Device

def queueOf? (d : Device) (list : ListKey) : Option Queue := d.lists.lookup list

variable {d after : Device} {c : Call} {reply : c.Reply} {command : Command}

structure Numbered (d : Device) : Prop where
  lists : ∀ entry ∈ d.lists, entry.1.raw ≤ d.lastKey
  fences : ∀ entry ∈ d.fences, entry.1.raw ≤ d.lastKey

theorem Numbered.skipKey (numbered : d.Numbered) : d.skipKey.Numbered where
  lists entry member := Nat.le_succ_of_le (numbered.lists entry member)
  fences entry member := Nat.le_succ_of_le (numbered.fences entry member)

theorem eq_of_respond (quiet : c.IsQuiet) (answered : d.respond c = .ok (reply, command, after)) :
    after = d := by
  cases c with
  | barrier =>
    cases answered
    rfl
  | resetList list | submit queue list =>
    simp only [respond, bind, Except.bind] at answered
    split at answered
    · cases answered
    · first
        | cases answered
          rfl
        | split at answered <;> cases answered
          rfl
  | wait queue fence value | waitCpu fence value =>
    simp only [respond] at answered
    split at answered
    · cases answered
    · first
        | cases answered
          rfl
        | split at answered <;> cases answered
          rfl
  | createList | destroyList | createResource | destroyResource | createView | freeView
    | createFence | signal | destroyFence => cases quiet

theorem kept_of_respond (answered : d.respond c = .ok (reply, command, after)) :
    after.history = d.history ∧ after.refusesResources = d.refusesResources := by
  cases c with
  | resetList | barrier | submit | wait | waitCpu =>
    have same : after = d := eq_of_respond (by trivial) answered
    exact same ▸ ⟨rfl, rfl⟩
  | createList | destroyList | destroyResource | freeView | createFence | destroyFence =>
    cases answered
    exact ⟨rfl, rfl⟩
  | createResource | createView =>
    simp only [respond] at answered
    split at answered <;> cases answered
    exact ⟨rfl, rfl⟩
  | signal =>
    simp only [respond] at answered
    split at answered
    · cases answered
    · split at answered <;> cases answered
      exact ⟨rfl, rfl⟩

theorem Numbered.respond (numbered : d.Numbered)
    (answered : d.respond c = .ok (reply, command, after)) : after.Numbered := by
  have grown {d' : Device} (lists : d'.lists ⊆ d.lists) (fences : d'.fences ⊆ d.fences)
      (last : d.lastKey ≤ d'.lastKey) : d'.Numbered :=
    ⟨fun entry member => Nat.le_trans (numbered.lists entry (lists member)) last,
      fun entry member => Nat.le_trans (numbered.fences entry (fences member)) last⟩
  cases c with
  | resetList | barrier | submit | wait | waitCpu =>
    have same : after = d := eq_of_respond (by trivial) answered
    exact same ▸ numbered
  | createList queue =>
    cases answered
    refine ⟨fun entry member => ?_, numbered.skipKey.fences⟩
    rcases List.mem_append.mp member with old | new
    · exact numbered.skipKey.lists entry old
    · rw [List.mem_singleton.mp new]
      exact Nat.le_refl _
  | createFence =>
    cases answered
    refine ⟨numbered.skipKey.lists, fun entry member => ?_⟩
    rcases List.mem_append.mp member with old | new
    · exact numbered.skipKey.fences entry old
    · rw [List.mem_singleton.mp new]
      exact Nat.le_refl _
  | destroyList list =>
    cases answered
    exact grown (List.filter_subset_self _) (List.Subset.refl _) (Nat.le_refl _)
  | destroyFence fence =>
    cases answered
    exact grown (List.Subset.refl _) (List.filter_subset_self _) (Nat.le_refl _)
  | destroyResource | freeView =>
    cases answered
    exact ⟨numbered.lists, numbered.fences⟩
  | createResource request | createView resource kind spec =>
    simp only [Device.respond] at answered
    split at answered <;> cases answered
    exact ⟨numbered.skipKey.lists, numbered.skipKey.fences⟩
  | signal queue fence value =>
    simp only [Device.respond] at answered
    split at answered
    · cases answered
    · rename_i current known
      split at answered <;> cases answered
      refine ⟨numbered.lists, fun entry member => ?_⟩
      obtain ⟨old, present, rfl⟩ := List.mem_map.mp member
      have below := numbered.fences old present
      split
      · rename_i same
        exact same ▸ below
      · exact below

theorem lookup_concat_fresh {κ β : Type} [BEq κ] [LawfulBEq κ] {entries : List (κ × β)}
    {raw : κ → Nat} {last : Nat} (below : ∀ entry ∈ entries, raw entry.1 ≤ last) {key : κ}
    (fresh : last < raw key) (value : β) :
    (entries ++ [(key, value)]).lookup key = some value := by
  have absent : entries.lookup key = none := by
    apply List.lookup_eq_none_iff.mpr
    intro entry member
    apply bne_iff_ne.mpr
    rintro rfl
    exact Nat.not_le_of_lt fresh (below entry member)
  simp [List.lookup_append, absent]

theorem lookup_append_of_some {κ β : Type} [BEq κ] {entries : List (κ × β)} {key : κ} {value : β}
    (known : entries.lookup key = some value) (more : List (κ × β)) :
    (entries ++ more).lookup key = some value := by
  rw [List.lookup_append, known, Option.some_or]

theorem fenceValue?_setFence (d : Device) (fence key : FenceKey) (value : Nat) :
    (d.setFence fence value).fenceValue? key =
      if key = fence then (d.fenceValue? key).map fun _ => value else d.fenceValue? key := by
  unfold fenceValue? setFence
  generalize d.fences = entries
  induction entries with
  | nil => split <;> rfl
  | cons entry entries ih =>
    obtain ⟨own, old⟩ := entry
    by_cases same : key = own
    · subst same
      by_cases here : key = fence <;> simp [here]
    · have apart : (key == own) = false := beq_eq_false_iff_ne.mpr same
      by_cases here : own = fence
      · subst here
        simpa [List.lookup_cons, apart] using ih
      · simpa [List.lookup_cons, apart, here] using ih

end Device

namespace Rig

variable {rig after : Rig} {c : Call} {failure : Failure}

theorem tables_of_call_error (ran : rig.call c = (.error failure, after)) :
    after.device.lists = rig.device.lists ∧ after.device.fences = rig.device.fences := by
  rcases (call_error ran).2 with same | same <;> rw [same] <;> exact ⟨rfl, rfl⟩

theorem tables_of_quiet (quiet : c.IsQuiet) :
    (rig.call c).2.device.lists = rig.device.lists ∧
      (rig.call c).2.device.fences = rig.device.fences := by
  rcases ran : rig.call c with ⟨failure | reply, after⟩
  · exact tables_of_call_error ran
  · obtain ⟨device, answered, recorded, _⟩ := call_ok ran
    rw [recorded, Device.eq_of_respond quiet answered]
    exact ⟨rfl, rfl⟩

theorem numbered_call (numbered : rig.device.Numbered) (c : Call) :
    (rig.call c).2.device.Numbered := by
  rcases ran : rig.call c with ⟨failure | reply, after⟩
  · rcases (call_error ran).2 with same | same
    · exact same ▸ numbered
    · exact same ▸ numbered.skipKey
  · obtain ⟨device, answered, recorded, _⟩ := call_ok ran
    have numbered' := numbered.respond answered
    rw [recorded]
    exact ⟨numbered'.lists, numbered'.fences⟩

theorem Leads.numbered {may : Call → Prop} (leads : rig.Leads may after)
    (numbered : rig.device.Numbered) : after.device.Numbered := by
  induction leads with
  | refl => exact numbered
  | note _ _ _ ih | recording _ _ ih => exact ih
  | call _ c _ ih => exact numbered_call ih c

theorem Leads.tables_of_quiet {may : Call → Prop} (leads : rig.Leads may after)
    (quiet : ∀ c, may c → c.IsQuiet) :
    after.device.lists = rig.device.lists ∧ after.device.fences = rig.device.fences := by
  induction leads with
  | refl => exact ⟨rfl, rfl⟩
  | note _ _ _ ih | recording _ _ ih => exact ih
  | call _ c allowed ih =>
    obtain ⟨lists, fences⟩ := Rig.tables_of_quiet (quiet c allowed)
    exact ⟨lists.trans ih.1, fences.trans ih.2⟩

theorem fenceValue?_of_signal {queue : Queue} {fence : FenceKey} {value : Nat}
    (ran : rig.call (.signal queue fence value) = (.ok (), after)) :
    after.device.lists = rig.device.lists ∧
      ∃ current, rig.device.fenceValue? fence = some current ∧ current < value ∧
        ∀ key, after.device.fenceValue? key =
          if key = fence then some value else rig.device.fenceValue? key := by
  obtain ⟨device, answered, recorded, _⟩ := call_ok ran
  simp only [Device.respond] at answered
  split at answered
  · cases answered
  · rename_i current known
    split at answered <;> cases answered
    rename_i fresh
    rw [recorded]
    refine ⟨rfl, current, known, Nat.lt_of_not_le fresh, fun key => ?_⟩
    refine (rig.device.fenceValue?_setFence fence key value).trans ?_
    split
    · rename_i same
      rw [same, known]
      rfl
    · rfl

end Rig

end RenderGraph
