import RenderGraph.Culling.Tally

/-! Bringing culled passes back. A surviving pass still needs the creator of what it writes and the
earlier writers of what it reads, and so does every pass revived for it. -/

namespace RenderGraph

/-- References while passes are revived, and the used passes whose needs are still to be met, the
next one first. -/
structure Revival where
  passRefs : List Nat
  waiting : List PassId
  steps : List CullStep := []
  deriving DecidableEq, Repr

namespace Revival

def revive (d : Declaration) (dependent : PassId) (v : Revival) (p : PassId) : Revival :=
  if dependent.index ≤ p.index || d.hasSideEffects p then v
  else match v.passRefs[p.index]? with
    | some 0 =>
      { passRefs := v.passRefs.set p.index (max ((d.pass? p).elim 0 (·.outputs.length)) 1)
        waiting := p :: v.waiting
        steps := v.steps ++ [.revived p dependent] }
    | _ => v

def meetNeeds (d : Declaration) (v : Revival) (p : PassId) : Revival :=
  ((d.pass? p).elim [] d.needs).foldl (revive d p) v

def weight (v : Revival) : Nat := v.waiting.length + 2 * v.passRefs.count 0

theorem weight_revive_le (d : Declaration) (q p : PassId) (v : Revival) :
    (v.revive d q p).weight ≤ v.weight := by
  unfold revive
  split
  · exact Nat.le_refl _
  · split
    · rename_i held
      obtain ⟨bound, zero⟩ := List.getElem?_eq_some_iff.mp held
      have count :=
        List.count_set (a := max ((d.pass? p).elim 0 (·.outputs.length)) 1) (b := 0) bound
      have some_zero : 0 < v.passRefs.count 0 :=
        List.count_pos_iff.mpr (zero ▸ List.getElem_mem bound)
      have positive : (max ((d.pass? p).elim 0 (·.outputs.length)) 1 == 0) = false := by
        simp
      simp only [zero, positive, beq_self_eq_true, Bool.false_eq_true, ↓reduceIte] at count
      simp only [weight, List.length_cons]
      omega
    · exact Nat.le_refl _

theorem weight_meetNeeds_le (d : Declaration) (v : Revival) (p : PassId) :
    (v.meetNeeds d p).weight ≤ v.weight := by
  unfold meetNeeds
  generalize (d.pass? p).elim [] d.needs = ps
  induction ps generalizing v with
  | nil => exact Nat.le_refl _
  | cons q ps ih => exact Nat.le_trans (ih _) (weight_revive_le d p q v)

def settle (d : Declaration) (v : Revival) : Revival :=
  match _waiting : v.waiting with
  | [] => v
  | p :: rest => settle d ({ v with waiting := rest }.meetNeeds d p)
  termination_by v.weight
  decreasing_by
    refine Nat.lt_of_le_of_lt (weight_meetNeeds_le d _ p) ?_
    simp [weight, _waiting]

end Revival

end RenderGraph
