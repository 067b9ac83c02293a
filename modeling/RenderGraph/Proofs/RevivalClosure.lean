import RenderGraph.Proofs.CullingTables

/-! What reviving comes to. Every pass that is used in the end has the passes it depends on among
the used ones, as far as they are declared before it: the creators of what it writes and the writers
of what it reads. -/

namespace RenderGraph

theorem getD_eq_succ_iff {refs : List Nat} {i n : Nat} :
    refs.getD i 0 = n + 1 ↔ refs[i]? = some (n + 1) := by
  rw [List.getD_eq_getElem?_getD]
  cases refs[i]? <;> simp

theorem index_lt_of_getD_pos {refs : List Nat} {i : Nat} (positive : 0 < refs.getD i 0) :
    i < refs.length := by
  obtain ⟨n, held⟩ := Nat.exists_eq_add_one.mpr positive
  exact (List.getElem?_eq_some_iff.mp (getD_eq_succ_iff.mp held)).1

namespace Declaration

variable {d : Declaration} {p : PassId} {pass : Pass} {r : ResourceId}

def Uses (d : Declaration) (refs : List Nat) (p : PassId) : Prop :=
  0 < refs.getD p.index 0 ∨ d.hasSideEffects p = true

theorem uses_iff {s : Survival} (held : d.pass? p = some pass) :
    s.uses p pass = true ↔ d.Uses s.passRefs p := by
  simp [Survival.uses, Survival.passRef, Uses, hasSideEffects, held]

theorem index_lt_of_uses {refs : List Nat} (length : refs.length = d.passes.length)
    (used : d.Uses refs p) : p.index < d.passes.length := by
  rcases used with positive | effects
  · exact length ▸ index_lt_of_getD_pos positive
  · cases held : d.pass? p with
    | none => simp [hasSideEffects, held] at effects
    | some pass => exact index_lt_of_pass? held

theorem mem_survivors {s : Survival} :
    (p, pass) ∈ d.survivors s ↔ d.pass? p = some pass ∧ d.Uses s.passRefs p := by
  unfold survivors
  rw [List.mem_filter, mem_entries]
  exact and_congr_right uses_iff

theorem mem_needs_of_readsFrom (reads : pass.readsFrom r = true) (writer : p ∈ d.writers r) :
    p ∈ d.needs pass := by
  obtain ⟨a, access, same⟩ := List.any_eq_true.mp reads
  refine List.mem_append_right _ (List.mem_flatMap.mpr ⟨a, access, ?_⟩)
  rwa [eq_of_beq same]

theorem mem_needs_of_writesTo {creator : Pass} (writes : pass.writesTo r = true)
    (held : d.pass? p = some creator) (creates : creator.isCreatorOf r = true) :
    p ∈ d.needs pass := by
  obtain ⟨a, access, same⟩ := List.any_eq_true.mp writes
  have outputs : creator.outputsTo r = true := by
    rw [Pass.outputsTo_eq, creates, Bool.true_or]
  refine List.mem_append_left _ (List.mem_flatMap.mpr ⟨a, access, List.mem_filter.mpr ⟨?_, ?_⟩⟩)
  · rw [eq_of_beq same]
    exact mem_writers.mpr ⟨creator, held, outputs⟩
  · rw [held, eq_of_beq same]
    exact creates

end Declaration

namespace Revival

variable {d : Declaration} {v w : Revival} {p : PassId} {ps : List PassId}

def Meets (d : Declaration) (v : Revival) (p : PassId) : Prop :=
  ∀ pass, d.pass? p = some pass → ∀ q ∈ d.needs pass, q.index < p.index → d.Uses v.passRefs q

theorem revive_cases (d : Declaration) (v : Revival) (p q : PassId) :
    (v.revive d p q = v ∧
      (q.index < p.index → q.index < v.passRefs.length → d.Uses v.passRefs q)) ∨
    ∃ refs, 0 < refs ∧ q.index < p.index ∧ d.hasSideEffects q = false ∧
      v.passRefs[q.index]? = some 0 ∧
      v.revive d p q =
        { passRefs := v.passRefs.set q.index refs
          waiting := q :: v.waiting
          steps := v.steps ++ [.revived q p] } := by
  unfold revive
  split
  · rename_i idle
    simp only [Bool.or_eq_true, decide_eq_true_eq] at idle
    refine Or.inl ⟨rfl, fun before _ => Or.inr ?_⟩
    exact idle.resolve_left (Nat.not_le_of_lt before)
  · rename_i due
    simp only [Bool.or_eq_true, decide_eq_true_eq, not_or, Nat.not_le,
      Bool.not_eq_true] at due
    split
    · rename_i unused
      exact Or.inr ⟨_, Nat.lt_of_lt_of_le Nat.zero_lt_one (Nat.le_max_right _ 1), due.1, due.2,
        unused, rfl⟩
    · rename_i other
      refine Or.inl ⟨rfl, fun _ inside => Or.inl (Nat.pos_of_ne_zero ?_)⟩
      rw [List.getD_eq_getElem?_getD, List.getElem?_eq_getElem inside]
      intro zero
      exact other ((List.getElem?_eq_getElem inside).trans (congrArg some zero))

/-- What reviving some passes for a pass changes, and what it achieves. -/
structure Advances (d : Declaration) (p : PassId) (ps : List PassId) (v w : Revival) : Prop where
  length : w.passRefs.length = v.passRefs.length
  kept : ∀ x, d.Uses v.passRefs x → d.Uses w.passRefs x
  waits : ∀ x ∈ v.waiting, x ∈ w.waiting
  fresh : ∀ x, d.Uses w.passRefs x → d.Uses v.passRefs x ∨ x ∈ w.waiting
  added : ∀ x ∈ w.waiting, x ∈ v.waiting ∨ x ∈ ps
  revived : ∀ q ∈ ps, q.index < p.index → q.index < v.passRefs.length → d.Uses w.passRefs q

theorem getD_set (refs : List Nat) {i : Nat} (j n : Nat) (inside : i < refs.length) :
    (refs.set i n).getD j 0 = if i = j then n else refs.getD j 0 := by
  simp only [List.getD_eq_getElem?_getD, List.getElem?_set, if_pos inside]
  split <;> rfl

theorem advances_revive (d : Declaration) (v : Revival) (p q : PassId) :
    Advances d p [q] v (v.revive d p q) := by
  rcases v.revive_cases d p q with ⟨same, used⟩ | ⟨refs, positive, _, _, unused, made⟩
  · rw [same]
    refine ⟨rfl, fun _ => id, fun _ => id, fun _ => Or.inl, fun _ => Or.inl, ?_⟩
    intro x member
    rw [List.mem_singleton.mp member]
    exact used
  · rw [made]
    have inside := (List.getElem?_eq_some_iff.mp unused).1
    constructor
    · exact List.length_set
    · intro x used
      unfold Declaration.Uses at used ⊢
      rw [getD_set _ _ _ inside]
      split
      · exact Or.inl positive
      · exact used
    · exact fun x member => List.mem_cons_of_mem _ member
    · intro x used
      unfold Declaration.Uses at used ⊢
      rw [getD_set _ _ _ inside] at used
      split at used
      · rename_i same
        have equal : q = x := congrArg PassId.mk same
        exact Or.inr (equal ▸ List.mem_cons_self)
      · exact Or.inl used
    · intro x member
      exact (List.mem_cons.mp member).symm.imp_right List.mem_singleton.mpr
    · intro x member _ _
      rw [List.mem_singleton.mp member]
      unfold Declaration.Uses
      rw [getD_set _ _ _ inside, if_pos rfl]
      exact Or.inl positive

theorem Advances.trans {u : Revival} {qs : List PassId} (first : Advances d p ps v w)
    (second : Advances d p qs w u) : Advances d p (ps ++ qs) v u where
  length := second.length.trans first.length
  kept x used := second.kept x (first.kept x used)
  waits x member := second.waits x (first.waits x member)
  fresh := by
    intro x used
    rcases second.fresh x used with earlier | waiting
    · exact (first.fresh x earlier).imp_right (second.waits x)
    · exact Or.inr waiting
  added := by
    intro x member
    rcases second.added x member with earlier | new
    · exact (first.added x earlier).imp_right (List.mem_append_left _)
    · exact Or.inr (List.mem_append_right _ new)
  revived := by
    intro q member before inside
    rcases List.mem_append.mp member with early | late
    · exact second.kept q (first.revived q early before inside)
    · exact second.revived q late before (first.length ▸ inside)

theorem advances_foldl (d : Declaration) (v : Revival) (p : PassId) (ps : List PassId) :
    Advances d p ps v (ps.foldl (revive d p) v) := by
  induction ps generalizing v with
  | nil =>
    exact ⟨rfl, fun _ => id, fun _ => id, fun _ => Or.inl, fun _ => Or.inl,
      fun _ member => by cases member⟩
  | cons q ps ih => exact (advances_revive d v p q).trans (ih _)

theorem advances_meetNeeds (d : Declaration) (v : Revival) (p : PassId) :
    Advances d p ((d.pass? p).elim [] d.needs) v (v.meetNeeds d p) := advances_foldl d v p _

/-- The revivals that reviving goes through. -/
inductive Occurs (d : Declaration) (start : Revival) : Revival → Prop
  | start : Occurs d start start
  | meet {v : Revival} {p : PassId} {rest : List PassId} (occurs : Occurs d start v)
    (next : v.waiting = p :: rest) : Occurs d start ({ v with waiting := rest }.meetNeeds d p)

/-- There is one entry for every pass, every waiting pass has one, and every used pass waits or has
its needs met. -/
structure Sound (d : Declaration) (v : Revival) : Prop where
  length : v.passRefs.length = d.passes.length
  within : ∀ p ∈ v.waiting, p.index < d.passes.length
  met : ∀ p, d.Uses v.passRefs p → p ∈ v.waiting ∨ v.Meets d p

theorem Meets.mono (meets : v.Meets d p)
    (kept : ∀ x, d.Uses v.passRefs x → d.Uses w.passRefs x) : w.Meets d p :=
  fun pass held q need before => kept q (meets pass held q need before)

theorem Sound.meetNeeds (sound : v.Sound d) {rest : List PassId} (next : v.waiting = p :: rest) :
    (({ v with waiting := rest } : Revival).meetNeeds d p).Sound d := by
  have advances := advances_meetNeeds d { v with waiting := rest } p
  have later {x : PassId} (member : x ∈ rest) : x ∈ v.waiting :=
    next ▸ List.mem_cons_of_mem _ member
  constructor
  · exact advances.length.trans sound.length
  · intro x member
    rcases advances.added x member with old | need
    · exact sound.within x (later old)
    · cases held : d.pass? p with
      | none =>
        rw [held] at need
        cases need
      | some pass =>
        rw [held] at need
        exact Declaration.index_lt_of_mem_needs need
  · intro x used
    rcases advances.fresh x used with earlier | waits
    · rcases sound.met x earlier with member | meets
      · rw [next] at member
        rcases List.mem_cons.mp member with rfl | old
        · right
          intro pass held q need before
          refine advances.revived q ?_ before ?_
          · rw [held]
            exact need
          · exact Nat.lt_of_lt_of_eq (Declaration.index_lt_of_mem_needs need) sound.length.symm
        · exact Or.inl (advances.waits x old)
      · exact Or.inr (Meets.mono (v := v) meets advances.kept)
    · exact Or.inl waits

theorem Occurs.sound {start : Revival} (sound : start.Sound d) (occurs : Occurs d start v) :
    v.Sound d := by
  induction occurs with
  | start => exact sound
  | meet _ next ih => exact ih.meetNeeds next

theorem Occurs.settle {start : Revival} (occurs : Occurs d start v) :
    Occurs d start (v.settle d) ∧ (v.settle d).waiting = [] := by
  fun_induction Revival.settle d v with
  | case1 v done => exact ⟨occurs, done⟩
  | case2 v p rest next ih => exact ih (occurs.meet next)

end Revival

namespace Declaration

variable {d : Declaration} {p q : PassId} {pass : Pass}

def firstRevival (d : Declaration) : Revival where
  passRefs := d.tally.passRefs
  waiting := ((d.survivors { passRefs := d.tally.passRefs }).map Prod.fst).reverse

theorem uses_of_firstRevival (waits : p ∈ d.firstRevival.waiting) :
    d.Uses d.firstRevival.passRefs p := by
  obtain ⟨⟨p, pass⟩, survives, rfl⟩ := List.mem_map.mp (List.mem_reverse.mp waits)
  exact (mem_survivors.mp survives).2

theorem sound_firstRevival (d : Declaration) : d.firstRevival.Sound d where
  length := d.occurs_tally.shaped.passes
  within := by
    intro p member
    obtain ⟨⟨p, pass⟩, survives, rfl⟩ := List.mem_map.mp (List.mem_reverse.mp member)
    exact index_lt_of_pass? (mem_survivors.mp survives).1
  met := by
    intro p used
    cases held : d.pass? p with
    | none =>
      refine Or.inr fun pass found => ?_
      rw [held] at found
      cases found
    | some pass =>
      have survives : (p, pass) ∈ d.survivors { passRefs := d.tally.passRefs } :=
        mem_survivors.mpr ⟨held, used⟩
      exact Or.inl (List.mem_reverse.mpr (List.mem_map.mpr ⟨_, survives, rfl⟩))

theorem sound_revival (d : Declaration) :
    (d.revival d.tally.passRefs).Sound d ∧ (d.revival d.tally.passRefs).waiting = [] := by
  have begins : Revival.Occurs d d.firstRevival d.firstRevival := Revival.Occurs.start
  rcases begins.settle with ⟨occurs, done⟩
  exact ⟨occurs.sound d.sound_firstRevival, done⟩

theorem survives_of_need (survives : (p, pass) ∈ d.survivors d.cull.survival)
    (need : q ∈ d.needs pass) (before : q.index < p.index) :
    ∃ other, (q, other) ∈ d.survivors d.cull.survival := by
  rcases mem_survivors.mp survives with ⟨held, used⟩
  rcases d.sound_revival with ⟨sound, done⟩
  have met : (d.revival d.tally.passRefs).Meets d p := by
    rcases sound.met p used with waits | meets
    · rw [done] at waits
      cases waits
    · exact meets
  have found := List.getElem?_eq_getElem (index_lt_of_mem_needs need)
  exact ⟨_, mem_survivors.mpr ⟨found, met pass held q need before⟩⟩

end Declaration

end RenderGraph
