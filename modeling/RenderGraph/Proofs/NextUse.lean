import RenderGraph.Proofs.SettledStates

/-! The uses of a resource, and what merging reads goes by: where the next use of a resource is a
read on the graphics queue too, a read brings the resource into a state for both. -/

namespace RenderGraph

/-- A read on the graphics queue in a read-only state, for which the read before can be widened. -/
structure Use.Joins (use : Use) : Prop where
  queue : use.queue = .graphics
  reads : use.output = false
  readOnly : use.state.isReadOnly = true

namespace Brief

variable {b : Brief} {n : Nat} {p : PassId} {pass : Pass} {r : ResourceId} {use other : Use}

def merging (b : Brief) (mergesReads : Bool) : Brief := { b with mergesReads }

@[simp] theorem live_merging (b : Brief) (merges : Bool) : (b.merging merges).live = b.live := rfl

def nextUse (b : Brief) (n : Nat) (r : ResourceId) : Option Use :=
  (b.usesOf r).find? (n ≤ ·.ordinal)

theorem exists_pass_of_mem_usesOf (member : use ∈ b.usesOf r) :
    ∃ p pass, b.live[use.ordinal]? = some (p, pass) ∧ use.queue = pass.queue ∧
      pass.touches r = true ∧ (use.output = false →
        ∃ a ∈ pass.reads.filter (·.resource == r), use.state = a.state) := by
  obtain ⟨⟨⟨p, pass⟩, n⟩, entry, here⟩ := List.mem_flatMap.mp member
  have held := List.mk_mem_zipIdx_iff_getElem?.mp entry
  rcases List.mem_append.mp here with isRead | outputs
  · obtain ⟨a, access, rfl⟩ := List.mem_map.mp isRead
    obtain ⟨reads, same⟩ := List.mem_filter.mp access
    obtain rfl := eq_of_beq same
    exact ⟨p, pass, held, rfl,
      Pass.touches_of_mem (List.mem_append_left _ (List.mem_append_right _ reads)),
      fun _ => ⟨a, access, rfl⟩⟩
  · obtain ⟨a, access, rfl⟩ := List.mem_map.mp outputs
    obtain ⟨outputs, same⟩ := List.mem_filter.mp access
    refine ⟨p, pass, held, rfl, ?_, fun none => by cases none⟩
    rw [Pass.touches_eq, Bool.or_eq_true]
    exact Or.inl (List.any_eq_true.mpr ⟨a, outputs, same⟩)

theorem mem_usesOf_of_read (entry : b.live[n]? = some (p, pass)) {a : Access}
    (access : a ∈ pass.reads.filter (·.resource == r)) :
    ⟨n, pass.queue, a.state, false⟩ ∈ b.usesOf r :=
  List.mem_flatMap.mpr ⟨((p, pass), n), List.mk_mem_zipIdx_iff_getElem?.mpr entry,
    List.mem_append_left _ (List.mem_map_of_mem access)⟩

theorem pairwise_usesOf (b : Brief) (r : ResourceId) :
    (b.usesOf r).Pairwise fun x y => x.ordinal ≤ y.ordinal := by
  have own {entry : (PassId × Pass) × Nat} {use : Use} (member : use ∈
      (entry.1.2.reads.filter (·.resource == r)).map
        (fun a => (⟨entry.2, entry.1.2.queue, a.state, false⟩ : Use)) ++
      (entry.1.2.outputs.filter (·.resource == r)).map
        fun a => ⟨entry.2, entry.1.2.queue, a.state, true⟩) : use.ordinal = entry.2 := by
    rcases List.mem_append.mp member with isRead | outputs
    · obtain ⟨a, _, rfl⟩ := List.mem_map.mp isRead
      rfl
    · obtain ⟨a, _, rfl⟩ := List.mem_map.mp outputs
      rfl
  unfold usesOf
  rw [List.pairwise_flatMap]
  constructor
  · intro entry _
    refine List.pairwise_of_forall_mem_list fun x member y member' => ?_
    exact Nat.le_of_eq ((own member).trans (own member').symm)
  · have rising : b.live.zipIdx.Pairwise fun x y => x.2 < y.2 := by
      rw [List.pairwise_iff_getElem]
      intro i j _ _ before
      simpa using before
    refine rising.imp fun before x member y member' => ?_
    rw [own member, own member']
    exact Nat.le_of_lt before

theorem nextUse_succ (unused : ∀ use ∈ b.usesOf r, use.ordinal ≠ n) :
    b.nextUse (n + 1) r = b.nextUse n r := by
  refine List.find?_congr fun use member => ?_
  have other := unused use member
  rw [decide_eq_decide]
  omega

theorem unused_of_untouched (entry : b.live[n]? = some (p, pass))
    (untouched : pass.touches r = false) : ∀ use ∈ b.usesOf r, use.ordinal ≠ n := by
  rintro use member rfl
  obtain ⟨_, _, held, _, touches, _⟩ := exists_pass_of_mem_usesOf member
  cases held.symm.trans entry
  simp [untouched] at touches

theorem ordinal_of_nextUse (next : b.nextUse n r = some use) (member : other ∈ b.usesOf r)
    (here : other.ordinal = n) : use.ordinal = n := by
  obtain ⟨later, early, late, split, before⟩ := List.find?_eq_some_iff_append.mp next
  have low : n ≤ use.ordinal := of_decide_eq_true later
  have sorted := b.pairwise_usesOf r
  rw [split] at member sorted
  rcases List.mem_append.mp member with first | rest
  · have none := before other first
    simp [here] at none
  · rcases List.mem_cons.mp rest with rfl | after
    · exact here
    · have le := (List.pairwise_cons.mp (List.pairwise_append.mp sorted).2.1).1 other after
      omega

theorem state_of_nextUse (entry : b.live[n]? = some (p, pass)) {a : Access}
    (single : pass.reads.filter (·.resource == r) = [a]) (next : b.nextUse n r = some use)
    (reads : use.output = false) : use.state = a.state := by
  have here := mem_usesOf_of_read entry (single ▸ List.mem_singleton_self a)
  have same := ordinal_of_nextUse next here rfl
  obtain ⟨_, _, held, _, _, isRead⟩ := exists_pass_of_mem_usesOf (List.mem_of_find?_eq_some next)
  rw [same] at held
  cases held.symm.trans entry
  obtain ⟨c, access, state⟩ := isRead reads
  rw [single] at access
  rw [state, List.mem_singleton.mp access]

theorem nextUse_length (b : Brief) (r : ResourceId) : b.nextUse b.live.length r = none := by
  refine List.find?_eq_none.mpr fun use member => ?_
  obtain ⟨_, _, held, _⟩ := exists_pass_of_mem_usesOf member
  have inside := (List.getElem?_eq_some_iff.mp held).1
  simpa using inside

/-! The states aimed at. -/

theorem targetState_output (b : Brief) (n : Nat) (queue : Queue) (a : Access) :
    b.targetState n queue a true = a.state := by
  simp [targetState]

theorem targetState_plain (b : Brief) (n : Nat) (queue : Queue) (a : Access) :
    (b.merging false).targetState n queue a false = a.state := by
  simp [targetState, merging]

theorem targetState_merged (b : Brief) (n : Nat) (queue : Queue) (a : Access) :
    (b.merging true).targetState n queue a false = a.state ∨
      a.state.isReadOnly = true ∧ ∃ use, b.nextUse (n + 1) a.resource = some use ∧ use.Joins ∧
        (b.merging true).targetState n queue a false = a.state ∪ use.state := by
  unfold targetState
  split
  · exact Or.inl rfl
  · rename_i merges
    simp only [Bool.or_eq_true, not_or, Bool.not_eq_true', Bool.not_eq_false] at merges
    split
    · rename_i use next
      split
      · rename_i joins
        simp only [Bool.and_eq_true, beq_iff_eq, Bool.not_eq_true'] at joins
        exact Or.inr ⟨merges.2, use, next, ⟨joins.1.1, joins.1.2, joins.2⟩, rfl⟩
      · exact Or.inl rfl
    · exact Or.inl rfl

end Brief

end RenderGraph
