import RenderGraph.Proofs.Declared
import RenderGraph.Culling

/-! The tables of culling. There is one entry for every pass and one for every resource from start
to end, and whatever is looked up on the way has an entry. -/

namespace RenderGraph

namespace Declaration

variable {d : Declaration} {p : PassId} {pass : Pass} {r : ResourceId}

theorem mem_entries : (p, pass) ∈ d.entries ↔ d.pass? p = some pass := by
  unfold entries
  rw [List.mem_map]
  constructor
  · rintro ⟨⟨other, i⟩, member, same⟩
    cases same
    exact List.mk_mem_zipIdx_iff_getElem?.mp member
  · intro held
    exact ⟨(pass, p.index), List.mk_mem_zipIdx_iff_getElem?.mpr held, rfl⟩

theorem index_lt_of_pass? (held : d.pass? p = some pass) : p.index < d.passes.length :=
  (List.getElem?_eq_some_iff.mp held).1

theorem mem_writers :
    p ∈ d.writers r ↔ ∃ pass, d.pass? p = some pass ∧ pass.outputsTo r = true := by
  unfold writers
  rw [List.mem_map]
  constructor
  · rintro ⟨⟨_, pass⟩, member, rfl⟩
    rw [List.mem_filter, mem_entries] at member
    exact ⟨pass, member⟩
  · rintro ⟨pass, held, outputs⟩
    exact ⟨(p, pass), List.mem_filter.mpr ⟨mem_entries.mpr held, outputs⟩, rfl⟩

theorem index_lt_of_mem_writers (writer : p ∈ d.writers r) : p.index < d.passes.length := by
  obtain ⟨_, held, _⟩ := mem_writers.mp writer
  exact index_lt_of_pass? held

theorem index_lt_of_mem_needs (need : p ∈ d.needs pass) : p.index < d.passes.length := by
  rcases List.mem_append.mp need with creator | writer
  · obtain ⟨_, _, member⟩ := List.mem_flatMap.mp creator
    exact index_lt_of_mem_writers (List.mem_filter.mp member).1
  · obtain ⟨_, _, member⟩ := List.mem_flatMap.mp writer
    exact index_lt_of_mem_writers member

theorem mem_resourceIds : r ∈ d.resourceIds ↔ r.index < d.resources.length := by
  unfold resourceIds
  rw [List.mem_map]
  constructor
  · rintro ⟨i, inside, rfl⟩
    exact List.mem_range.mp inside
  · intro inside
    exact ⟨r.index, List.mem_range.mpr inside, rfl⟩

theorem length_resourceIds (d : Declaration) : d.resourceIds.length = d.resources.length := by
  simp [resourceIds]

end Declaration

namespace Tally

structure Shaped (d : Declaration) (t : Tally) : Prop where
  passes : t.passRefs.length = d.passes.length
  resources : t.resourceRefs.length = d.resources.length
  unread : ∀ r ∈ t.unread, r.index < d.resources.length

/-- The tallies that counting down goes through, every change of an entry by itself. -/
inductive Occurs (d : Declaration) : Tally → Prop
  | start : Occurs d (start d)
  | step {t : Tally} (occurs : Occurs d t) (s : CullStep) : Occurs d (t.step s)
  | unread {t : Tally} {r : ResourceId} (occurs : Occurs d t) (declared : r ∈ d.resourceIds) :
    Occurs d (t.unreadOnce r)
  | lower {t : Tally} {p : PassId} {left : Nat} (occurs : Occurs d t)
    (held : t.passRefs[p.index]? = some (left + 1)) :
    Occurs d { t with passRefs := t.passRefs.set p.index left }
  | take {t : Tally} {r : ResourceId} {rest : List ResourceId} (occurs : Occurs d t)
    (next : t.unread = r :: rest) : Occurs d { t with unread := rest }

variable {d : Declaration} {t : Tally}

theorem shaped_start (d : Declaration) : (start d).Shaped d where
  passes := List.length_map _
  resources := (List.length_map _).trans d.length_resourceIds
  unread _ member := Declaration.mem_resourceIds.mp (List.mem_filter.mp member).1

theorem Shaped.unreadOnce (shaped : t.Shaped d) {r : ResourceId}
    (inside : r.index < d.resources.length) : (t.unreadOnce r).Shaped d where
  passes := shaped.passes
  resources := List.length_set.trans shaped.resources
  unread := by
    intro x member
    simp only [Tally.unreadOnce] at member
    split at member
    · rcases List.mem_append.mp member with old | new
      · exact shaped.unread x old
      · rw [List.mem_singleton.mp new]
        exact inside
    · exact shaped.unread x member

theorem Occurs.shaped (occurs : Occurs d t) : t.Shaped d := by
  induction occurs with
  | start => exact shaped_start d
  | step _ _ ih => exact ⟨ih.passes, ih.resources, ih.unread⟩
  | unread _ declared ih => exact ih.unreadOnce (Declaration.mem_resourceIds.mp declared)
  | lower _ _ ih => exact ⟨List.length_set.trans ih.passes, ih.resources, ih.unread⟩
  | take _ next ih =>
    exact ⟨ih.passes, ih.resources,
      fun x member => ih.unread x (next ▸ List.mem_cons_of_mem _ member)⟩

theorem Occurs.release (occurs : Occurs d t) (p : PassId) : Occurs d (t.release d p) := by
  apply List.foldlRecOn _ _ occurs
  intro t occurs r member
  cases held : d.pass? p with
  | none =>
    rw [held] at member
    cases member
  | some pass =>
    rw [held] at member
    exact occurs.unread (List.mem_filter.mp member).1

theorem Occurs.releaseEmpty (occurs : Occurs d t) : Occurs d (t.releaseEmpty d) := by
  apply List.foldlRecOn _ _ occurs
  rintro t occurs ⟨p, pass⟩ _
  dsimp only
  split
  · exact (occurs.step _).release p
  · exact occurs

theorem Occurs.dropWriter (occurs : Occurs d t) (p : PassId) : Occurs d (t.dropWriter d p) := by
  unfold Tally.dropWriter
  split
  · exact occurs
  · split
    · rename_i left held
      dsimp only
      split
      · exact ((occurs.lower held).step _).release p
      · exact occurs.lower held
    · exact occurs

theorem Occurs.dropResource (occurs : Occurs d t) (r : ResourceId) :
    Occurs d (t.dropResource d r) :=
  List.foldlRecOn _ _ occurs fun _ occurs p _ => occurs.dropWriter p

theorem Occurs.settle (occurs : Occurs d t) : Occurs d (t.settle d) := by
  fun_induction Tally.settle d t with
  | case1 => exact occurs
  | case2 t r rest next ih => exact ih ((occurs.take next).dropResource r)

end Tally

theorem Declaration.occurs_tally (d : Declaration) : Tally.Occurs d d.tally :=
  Tally.Occurs.start.releaseEmpty.settle

end RenderGraph
