import RenderGraph.Proofs.QueueOrder
import RenderGraph.Proofs.RevivalClosure

/-! What culling leaves of a frame's meaning. A pass is any function from what it sees of the
resources it reads to what it leaves in the resources it outputs to. -/

namespace RenderGraph

universe u

variable {V : Type u}

namespace Pass

def sees (pass : Pass) (contents : ResourceId → V) (r : ResourceId) : Option V :=
  if pass.readsFrom r then some (contents r) else none

/-- The contents after the pass, which makes new ones for all its outputs from what it sees. -/
def leaves (pass : Pass) (make : (ResourceId → Option V) → ResourceId → V)
    (contents : ResourceId → V) (r : ResourceId) : V :=
  if pass.outputsTo r then make (pass.sees contents) r else contents r

theorem leaves_of_not_outputs {pass : Pass} {r : ResourceId} (other : pass.outputsTo r = false)
    (make : (ResourceId → Option V) → ResourceId → V) (contents : ResourceId → V) :
    pass.leaves make contents r = contents r :=
  if_neg (Bool.eq_false_iff.mp other)

theorem sees_congr {pass : Pass} {contents other : ResourceId → V}
    (same : ∀ r, pass.readsFrom r = true → contents r = other r) :
    pass.sees contents = pass.sees other := by
  funext r
  unfold sees
  split
  · rename_i reads
    rw [same r reads]
  · rfl

end Pass

/-- What every pass sees when the passes run one after another. -/
def sights (work : PassId → (ResourceId → Option V) → ResourceId → V) :
    List (PassId × Pass) → (ResourceId → V) → List ((PassId × Pass) × (ResourceId → Option V))
  | [], _ => []
  | (p, pass) :: rest, contents =>
    ((p, pass), pass.sees contents) :: sights work rest (pass.leaves (work p) contents)

/-- Leaving out passes changes nothing for the others if none of those reads what an earlier pass
that is left out outputs to. -/
theorem sights_filter (work : PassId → (ResourceId → Option V) → ResourceId → V)
    (keeps : PassId × Pass → Bool) {entries : List (PassId × Pass)}
    (closed : entries.Pairwise fun e f => keeps f = true → ∀ r, f.2.readsFrom r = true →
      e.2.outputsTo r = true → keeps e = true)
    {contents fewer : ResourceId → V}
    (same : ∀ e ∈ entries, keeps e = true → ∀ r, e.2.readsFrom r = true → fewer r = contents r) :
    sights work (entries.filter keeps) fewer =
      (sights work entries contents).filter fun sight => keeps sight.1 := by
  induction entries generalizing contents fewer with
  | nil => rfl
  | cons e rest ih =>
    obtain ⟨p, pass⟩ := e
    obtain ⟨earlier, later⟩ := List.pairwise_cons.mp closed
    cases kept : keeps (p, pass) with
    | true =>
      have sight : pass.sees fewer = pass.sees contents :=
        Pass.sees_congr (same _ List.mem_cons_self kept)
      have left : ∀ e ∈ rest, keeps e = true → ∀ r, e.2.readsFrom r = true →
          pass.leaves (work p) fewer r = pass.leaves (work p) contents r := by
        intro e member keep r reads
        unfold Pass.leaves
        rw [sight, same e (List.mem_cons_of_mem _ member) keep r reads]
      simp only [List.filter_cons, sights, kept, if_true, sight, ih later left]
    | false =>
      have skipped := Bool.eq_false_iff.mp kept
      -- The pass that is left out outputs to nothing that a later one reads.
      have left : ∀ e ∈ rest, keeps e = true → ∀ r, e.2.readsFrom r = true →
          fewer r = pass.leaves (work p) contents r := by
        intro e member keep r reads
        have other : pass.outputsTo r = false :=
          Bool.eq_false_iff.mpr fun outputs => skipped (earlier e member keep r reads outputs)
        rw [Pass.leaves_of_not_outputs other]
        exact same e (List.mem_cons_of_mem _ member) keep r reads
      simp only [List.filter_cons, sights, kept, Bool.false_eq_true, if_false, ih later left]

namespace Declaration

theorem pairwise_entries_survive (d : Declaration) :
    d.entries.Pairwise fun e f => d.cull.survival.uses f.1 f.2 = true → ∀ r,
      f.2.readsFrom r = true → e.2.outputsTo r = true →
      d.cull.survival.uses e.1 e.2 = true := by
  apply d.pairwise_entries.imp_of_mem
  rintro ⟨p, writer⟩ ⟨q, reader⟩ member member' before used r reads outputs
  have held := mem_entries.mp member
  have survives : (q, reader) ∈ d.survivors d.cull.survival :=
    List.mem_filter.mpr ⟨member', used⟩
  have need : p ∈ d.needs reader :=
    mem_needs_of_readsFrom reads (mem_writers.mpr ⟨writer, held, outputs⟩)
  obtain ⟨other, kept⟩ := survives_of_need survives need before
  rcases mem_survivors.mp kept with ⟨found, uses⟩
  exact (uses_iff held).mpr uses

/-- Every surviving pass sees the same when only the surviving passes run as it sees when all
declared passes run, whatever the passes do and whatever the contents are at the start. -/
theorem sights_surviving (d : Declaration)
    (work : PassId → (ResourceId → Option V) → ResourceId → V) (start : ResourceId → V) :
    sights work d.surviving start =
      (sights work d.entries start).filter fun sight =>
        d.cull.survival.uses sight.1.1 sight.1.2 :=
  sights_filter work (fun e => d.cull.survival.uses e.1 e.2) d.pairwise_entries_survive
    fun _ _ _ _ _ => rfl

end Declaration

end RenderGraph
