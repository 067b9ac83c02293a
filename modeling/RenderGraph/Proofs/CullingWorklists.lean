import Mathlib.Data.List.Perm.Subperm
import RenderGraph.Proofs.CountingMoves

/-! The two worklists of culling. Counting down drops every resource at most once and reviving takes
up every pass at most once, so both come to an end, and all references are counted right. -/

namespace RenderGraph

namespace Revival

variable {d : Declaration} {v w : Revival} {p : PassId} {met : List PassId}
  {turns : List (PassId × Revival)}

abbrev Settles (d : Declaration) : Revival → List (PassId × Revival) → Revival → Prop :=
  Loop Revival.waiting (fun v rest => { v with waiting := rest }) (meetNeeds d)

theorem exists_settles (d : Declaration) (v : Revival) :
    ∃ turns, v.Settles d turns (v.settle d) := by
  fun_induction Revival.settle d v with
  | case1 v done => exact ⟨[], .stop done⟩
  | case2 v p rest next ih =>
    obtain ⟨turns, settles⟩ := ih
    exact ⟨_, .next next settles⟩

/-- The passes that were taken up and those that wait are used, and none of them comes twice. -/
structure Once (d : Declaration) (met : List PassId) (v : Revival) : Prop where
  nodup : (met ++ v.waiting).Nodup
  used : ∀ p ∈ met ++ v.waiting, d.Uses v.passRefs p

theorem Once.revive (once : v.Once d met) (p q : PassId) : (v.revive d p q).Once d met := by
  have kept := (advances_revive d v p q).kept
  rcases v.revive_cases d p q with ⟨same, _⟩ | ⟨refs, positive, _, idle, unused, made⟩
  · rwa [same]
  · have fresh : q ∉ met ++ v.waiting := by
      intro old
      have used := once.used q old
      simp [Declaration.Uses, idle, unused] at used
    have revived : d.Uses (v.revive d p q).passRefs q := by
      have inside := (List.getElem?_eq_some_iff.mp unused).1
      rw [made, Declaration.Uses, getD_set _ _ _ inside, if_pos rfl]
      exact Or.inl positive
    have waits : (v.revive d p q).waiting = q :: v.waiting := by rw [made]
    constructor
    · rw [waits]
      exact List.nodup_middle.mpr (List.nodup_cons.mpr ⟨fresh, once.nodup⟩)
    · intro x member
      rw [waits, List.perm_middle.mem_iff] at member
      rcases List.mem_cons.mp member with rfl | old
      · exact revived
      · exact kept x (once.used x old)

theorem Once.meetNeeds {rest : List PassId} (once : v.Once d met) (next : v.waiting = p :: rest) :
    (({ v with waiting := rest } : Revival).meetNeeds d p).Once d (met ++ [p]) := by
  have taken : ({ v with waiting := rest } : Revival).Once d (met ++ [p]) := by
    have same : met ++ v.waiting = met ++ [p] ++ rest := by simp [next]
    exact ⟨same ▸ once.nodup, fun x member => once.used x (same ▸ member)⟩
  exact List.foldlRecOn _ _ taken fun _ once' q _ => once'.revive p q

theorem Once.settles (settles : v.Settles d turns w) (once : v.Once d met) :
    w.Once d (met ++ turns.map Prod.fst) := by
  induction settles generalizing met with
  | stop =>
    rw [List.map_nil, List.append_nil]
    exact once
  | next next _ ih =>
    rw [List.map_cons, List.append_cons]
    exact ih (once.meetNeeds next)

end Revival

namespace Declaration

variable {d : Declaration}

theorem once_firstRevival (d : Declaration) : d.firstRevival.Once d [] where
  nodup := List.nodup_reverse.mpr (d.nodup_entered.sublist (List.filter_sublist.map _))
  used _ := uses_of_firstRevival

/-- Counting down from the first resource that enters the queue on: those that nobody reads enter
it, the passes that output to nothing are released, and then come the turns of the loop. -/
def countMoves (d : Declaration) (turns : List (ResourceId × Tally)) : List CountMove :=
  (Tally.start d).unread.map .enters ++ (Tally.start d).releaseEmptyMoves d ++
    turns.flatMap (Tally.turnMoves d)

section

variable {turns : List (ResourceId × Tally)}
  (settles : ((Tally.start d).releaseEmpty d).Settles d turns d.tally)

include settles

theorem accounts_countMoves : Tally.Accounts { Tally.start d with unread := [] }
    (turns.map Prod.fst) (d.countMoves turns) d.tally := by
  have opens : Tally.Accounts { Tally.start d with unread := [] } []
      ((Tally.start d).unread.map .enters) (Tally.start d) := by
    refine ⟨?_, fun _ r => ?_, fun _ p => ?_⟩
    · simp [List.filterMap_map, Function.comp_def, CountMove.entered?]
    · simp [List.countP_map, Function.comp_def, CountMove.unreadsFrom]
    · simp [List.countP_map, Function.comp_def, CountMove.lowersPass]
  exact (opens.trans (Tally.accounts_releaseEmpty d _)).trans (Tally.accounts_settles settles)

theorem covered_countMoves : ∀ m ∈ d.countMoves turns, m.Covered := by
  have opens : ∀ m ∈ (Tally.start d).unread.map CountMove.enters, m.Covered :=
    List.forall_mem_map.mpr fun _ _ => trivial
  have balanced := Tally.balanced_releaseEmpty d
  obtain ⟨covered, _⟩ := balanced.settles settles Tally.Occurs.start.releaseEmpty
  exact List.forall_mem_append.mpr
    ⟨List.forall_mem_append.mpr ⟨opens, Tally.covered_releaseEmpty d⟩, covered⟩

theorem dropped_once : (turns.map Prod.fst).Nodup ∧ turns.length ≤ d.resources.length := by
  have balanced := Tally.balanced_releaseEmpty d
  obtain ⟨_, done, ends, declared⟩ := balanced.settles settles Tally.Occurs.start.releaseEmpty
  have once : (turns.map Prod.fst).Nodup := by simpa [done] using ends.counted.once
  have fewer := (once.subperm declared).length_le
  rw [List.length_map, length_resourceIds] at fewer
  exact ⟨once, fewer⟩

end

theorem met_once {turns : List (PassId × Revival)}
    (settles : d.firstRevival.Settles d turns (d.revival d.tally.passRefs)) :
    (turns.map Prod.fst).Nodup ∧ turns.length ≤ d.passes.length := by
  have ends := d.once_firstRevival.settles settles
  have once : (turns.map Prod.fst).Nodup := ends.nodup.of_append_left
  have declared : turns.map Prod.fst ⊆ d.passIds := by
    intro p member
    have used := ends.used p (List.mem_append_left _ member)
    have inside := index_lt_of_uses d.sound_revival.1.length used
    exact List.mem_map.mpr ⟨p.index, List.mem_range.mpr inside, rfl⟩
  have fewer := (once.subperm declared).length_le
  rw [List.length_map, passIds, List.length_map, List.length_range] at fewer
  exact ⟨once, fewer⟩

/-- Both worklists are sound and come to an end. The loop of counting down takes the resources in
the order in which they enter its queue, each of them once. All references that are taken are there,
and what it leaves a resource are the used passes that read it without outputting to it. The loop of
reviving then takes up every pass once at most. -/
theorem worklists_drained (d : Declaration) :
    ∃ (drops : List (ResourceId × Tally)) (meets : List (PassId × Revival)),
      ((Tally.start d).releaseEmpty d).Settles d drops d.tally ∧
      drops.map Prod.fst = (d.countMoves drops).filterMap CountMove.entered? ∧
      ((d.countMoves drops).filterMap CountMove.entered?).Nodup ∧
      drops.length ≤ d.resources.length ∧
      (∀ m ∈ d.countMoves drops, m.Covered) ∧
      (∀ r ∈ d.resourceIds,
        d.tally.resourceRefs.getD r.index 0 +
          (d.countMoves drops).countP (CountMove.unreadsFrom r) = d.readerCount r ∧
        d.tally.resourceRefs.getD r.index 0 = d.readersLeft d.tally.passRefs r) ∧
      (∀ p pass, d.pass? p = some pass →
        d.tally.passRefs.getD p.index 0 +
          (d.countMoves drops).countP (CountMove.lowersPass p) = (d.outputsOf pass).length) ∧
      d.firstRevival.Settles d meets (d.revival d.tally.passRefs) ∧
      (meets.map Prod.fst).Nodup ∧ meets.length ≤ d.passes.length := by
  obtain ⟨drops, settles⟩ := Tally.exists_settles d ((Tally.start d).releaseEmpty d)
  obtain ⟨meets, settles'⟩ := Revival.exists_settles d d.firstRevival
  have balanced := Tally.balanced_releaseEmpty d
  obtain ⟨_, done, ends, _⟩ := balanced.settles settles Tally.Occurs.start.releaseEmpty
  have accounts := accounts_countMoves settles
  have covered := covered_countMoves settles
  obtain ⟨once, fewer⟩ := dropped_once settles
  have queue : drops.map Prod.fst = (d.countMoves drops).filterMap CountMove.entered? := by
    have queue := accounts.queue
    rw [show d.tally.unread = [] from done, List.append_nil] at queue
    exact queue.symm
  refine ⟨drops, meets, settles, queue, queue ▸ once, fewer, covered, fun r declared => ⟨?_, ?_⟩,
    ?_, settles', met_once settles'⟩
  · exact (accounts.resources covered r).trans (Tally.resourceRefs_start declared)
  · exact ends.counted.refs r declared
  · exact fun p pass held => (accounts.passes covered p).trans (Tally.passRefs_start held)

end Declaration

end RenderGraph
