import RenderGraph.Proofs.CullingBalance

/-! Counting down move by move. A move is written down for every resource that enters the queue and
for every reference that is taken, with the count found there. The moves account for the queue and
for all counts, and no reference is taken from a count of zero. -/

namespace RenderGraph

/-- A loop over a queue. As long as there is one, the first element leaves the queue and the body is
run on it. The turns are these elements, each with the state that the body is run in. -/
inductive Loop {σ α : Type} (queue : σ → List α) (leave : σ → List α → σ) (body : σ → α → σ) :
    σ → List (α × σ) → σ → Prop
  | stop {s : σ} (done : queue s = []) : Loop queue leave body s [] s
  | next {s t : σ} {x : α} {rest : List α} {turns : List (α × σ)} (next : queue s = x :: rest)
    (later : Loop queue leave body (body (leave s rest) x) turns t) :
    Loop queue leave body s ((x, leave s rest) :: turns) t

inductive CountMove where
  /-- The resource enters the queue of unread resources. -/
  | enters (resource : ResourceId)
  /-- The resource loses one of the readers found. -/
  | unreads (resource : ResourceId) (found : Nat)
  /-- The pass, which has no side effects, owes a dropped resource one of the references found. -/
  | lowers (pass : PassId) (found : Nat)
  deriving DecidableEq, Repr

namespace CountMove

def entered? : CountMove → Option ResourceId
  | enters r => some r
  | _ => none

def unreadsFrom (r : ResourceId) : CountMove → Bool
  | unreads x _ => x == r
  | _ => false

def lowersPass (p : PassId) : CountMove → Bool
  | lowers x _ => x == p
  | _ => false

/-- What is taken is there. -/
def Covered : CountMove → Prop
  | enters _ => True
  | unreads _ found => 0 < found
  | lowers _ found => 0 < found

end CountMove

namespace Tally

open Declaration CountMove

def movesAlong {α : Type} (f : Tally → α → Tally) (moves : Tally → α → List CountMove) :
    Tally → List α → List CountMove
  | _, [] => []
  | t, x :: xs => moves t x ++ movesAlong f moves (f t x) xs

def unreadOnceMoves (t : Tally) (r : ResourceId) : List CountMove :=
  let found := t.resourceRefs.getD r.index 0
  .unreads r found :: if found - 1 = 0 then [.enters r] else []

def releaseMoves (d : Declaration) (t : Tally) (p : PassId) : List CountMove :=
  movesAlong unreadOnce unreadOnceMoves t ((d.pass? p).elim [] d.countedReads)

def releaseIfEmptyMoves (d : Declaration) (t : Tally) (e : PassId × Pass) : List CountMove :=
  if (d.outputsOf e.2).isEmpty && !e.2.sideEffects then (t.step (.empty e.1)).releaseMoves d e.1
  else []

def releaseEmptyMoves (d : Declaration) (t : Tally) : List CountMove :=
  movesAlong (releaseIfEmpty d) (releaseIfEmptyMoves d) t d.entries

def lowerMoves (d : Declaration) (t : Tally) (p : PassId) (left : Nat) : List CountMove :=
  if left = 0 then
    (({ t with passRefs := t.passRefs.set p.index left } : Tally).step (.culled p)).releaseMoves d p
  else []

/-- The reference is owed even if the pass holds none, and then it is not taken. -/
def dropWriterMoves (d : Declaration) (t : Tally) (p : PassId) : List CountMove :=
  if d.hasSideEffects p then []
  else match t.passRefs[p.index]? with
    | some (left + 1) => .lowers p (left + 1) :: t.lowerMoves d p left
    | _ => [.lowers p 0]

def dropResourceMoves (d : Declaration) (t : Tally) (r : ResourceId) : List CountMove :=
  movesAlong (dropWriter d) (dropWriterMoves d) t (d.writers r)

abbrev Settles (d : Declaration) : Tally → List (ResourceId × Tally) → Tally → Prop :=
  Loop Tally.unread (fun t rest => { t with unread := rest }) (dropResource d)

def turnMoves (d : Declaration) (turn : ResourceId × Tally) : List CountMove :=
  turn.2.dropResourceMoves d turn.1

variable {d : Declaration} {t u w : Tally} {p : PassId} {pass : Pass} {r : ResourceId}
  {ms ns : List CountMove} {gone : List ResourceId} {turns : List (ResourceId × Tally)}

theorem exists_settles (d : Declaration) (t : Tally) : ∃ turns, t.Settles d turns (t.settle d) := by
  fun_induction Tally.settle d t with
  | case1 t done => exact ⟨[], .stop done⟩
  | case2 t r rest next ih =>
    obtain ⟨turns, settles⟩ := ih
    exact ⟨_, .next next settles⟩

theorem dropWriterMoves_eq {left : Nat} (idle : d.hasSideEffects p = false)
    (found : t.passRefs[p.index]? = some (left + 1)) :
    t.dropWriterMoves d p = .lowers p (left + 1) :: t.lowerMoves d p left := by
  simp [dropWriterMoves, idle, found]

theorem drop_of_unused (idle : d.hasSideEffects p = false)
    (unused : t.passRefs.getD p.index 0 = 0) :
    t.dropWriter d p = t ∧ t.dropWriterMoves d p = [.lowers p 0] := by
  have none : ∀ left, t.passRefs[p.index]? ≠ some (left + 1) := by
    intro left found
    rw [getD_eq_succ_iff.mpr found] at unused
    cases unused
  simp only [dropWriter, dropWriterMoves, idle]
  constructor <;> split <;> simp_all

/-! What the moves account for. -/

/-- What is in the queue and what enters it leaves it in this order or is still in it. If nothing is
taken from a count of zero, every count is what is left of it and what was taken from it. -/
structure Accounts (t : Tally) (dropped : List ResourceId) (ms : List CountMove) (u : Tally) :
    Prop where
  queue : t.unread ++ ms.filterMap entered? = dropped ++ u.unread
  resources : (∀ m ∈ ms, m.Covered) → ∀ r : ResourceId,
    u.resourceRefs.getD r.index 0 + ms.countP (unreadsFrom r) = t.resourceRefs.getD r.index 0
  passes : (∀ m ∈ ms, m.Covered) → ∀ p : PassId,
    u.passRefs.getD p.index 0 + ms.countP (lowersPass p) = t.passRefs.getD p.index 0

theorem accounts_nil (t : Tally) : Accounts t [] [] t :=
  ⟨List.append_nil _, fun _ _ => rfl, fun _ _ => rfl⟩

theorem Accounts.trans {rs xs : List ResourceId} (first : Accounts t rs ms u)
    (second : Accounts u xs ns w) : Accounts t (rs ++ xs) (ms ++ ns) w where
  queue := by
    rw [List.filterMap_append, ← List.append_assoc, first.queue, List.append_assoc, second.queue,
      List.append_assoc]
  resources := by
    intro covered r
    obtain ⟨early, late⟩ := List.forall_mem_append.mp covered
    rw [← first.resources early r, ← second.resources late r, List.countP_append]
    omega
  passes := by
    intro covered p
    obtain ⟨early, late⟩ := List.forall_mem_append.mp covered
    rw [← first.passes early p, ← second.passes late p, List.countP_append]
    omega

theorem accounts_movesAlong {α : Type} {f : Tally → α → Tally}
    {moves : Tally → α → List CountMove} (each : ∀ t x, Accounts t [] (moves t x) (f t x))
    (t : Tally) (xs : List α) : Accounts t [] (movesAlong f moves t xs) (xs.foldl f t) := by
  induction xs generalizing t with
  | nil => exact accounts_nil t
  | cons x xs ih => exact (each t x).trans (ih _)

theorem accounts_unreadOnce (t : Tally) (r : ResourceId) :
    Accounts t [] (t.unreadOnceMoves r) (t.unreadOnce r) where
  queue := by
    simp only [unreadOnceMoves, unreadOnce]
    split <;> simp [entered?, List.filterMap_cons]
  resources := by
    intro covered x
    have positive : 0 < t.resourceRefs.getD r.index 0 := covered _ List.mem_cons_self
    have taken : (t.unreadOnceMoves r).countP (unreadsFrom x) = if r = x then 1 else 0 := by
      simp only [unreadOnceMoves]
      split <;> simp [unreadsFrom, List.countP_cons]
    simp only [unreadOnce]
    rw [taken, Revival.getD_set _ _ _ (index_lt_of_getD_pos positive)]
    by_cases here : r = x
    · subst here
      rw [if_pos rfl, if_pos rfl]
      omega
    · rw [if_neg fun same => here (congrArg ResourceId.mk same), if_neg here, Nat.add_zero]
  passes := by
    intro _ p
    simp only [unreadOnceMoves, unreadOnce]
    split <;> simp [lowersPass]

theorem accounts_release (d : Declaration) (t : Tally) (p : PassId) :
    Accounts t [] (t.releaseMoves d p) (t.release d p) :=
  accounts_movesAlong accounts_unreadOnce t _

theorem Accounts.of_step {s : CullStep} (accounts : Accounts (t.step s) [] ms u) :
    Accounts t [] ms u :=
  ⟨accounts.queue, accounts.resources, accounts.passes⟩

theorem accounts_releaseIfEmpty (d : Declaration) (t : Tally) (e : PassId × Pass) :
    Accounts t [] (t.releaseIfEmptyMoves d e) (t.releaseIfEmpty d e) := by
  unfold releaseIfEmptyMoves releaseIfEmpty
  split
  · exact (accounts_release d _ e.1).of_step
  · exact accounts_nil t

theorem accounts_releaseEmpty (d : Declaration) (t : Tally) :
    Accounts t [] (t.releaseEmptyMoves d) (t.releaseEmpty d) :=
  accounts_movesAlong (accounts_releaseIfEmpty d) t d.entries

theorem accounts_lower {left : Nat} (found : t.passRefs[p.index]? = some (left + 1)) :
    Accounts t [] (.lowers p (left + 1) :: t.lowerMoves d p left) (t.lower d p left) := by
  have lowered : Accounts t [] [.lowers p (left + 1)]
      { t with passRefs := t.passRefs.set p.index left } := by
    refine ⟨List.append_nil _, fun _ _ => rfl, fun _ q => ?_⟩
    rw [Revival.getD_set _ _ _ (List.getElem?_eq_some_iff.mp found).1]
    by_cases here : p = q
    · subst here
      rw [if_pos rfl, getD_eq_succ_iff.mpr found]
      simp [lowersPass]
    · rw [if_neg fun same => here (congrArg PassId.mk same)]
      simp [lowersPass, here]
  have released : Accounts { t with passRefs := t.passRefs.set p.index left } []
      (t.lowerMoves d p left) (t.lower d p left) := by
    unfold lowerMoves lower
    split
    · exact (accounts_release d _ p).of_step
    · exact accounts_nil _
  exact lowered.trans released

theorem accounts_dropWriter (d : Declaration) (t : Tally) (p : PassId) :
    Accounts t [] (t.dropWriterMoves d p) (t.dropWriter d p) := by
  cases effects : d.hasSideEffects p with
  | true =>
    simp only [dropWriterMoves, dropWriter, effects]
    exact accounts_nil t
  | false =>
    cases held : t.passRefs.getD p.index 0 with
    | zero =>
      -- The move takes nothing and is not covered, so that the counts need not add up.
      obtain ⟨same, owed⟩ := drop_of_unused effects held
      rw [same, owed]
      have bare : ¬ ∀ m ∈ [lowers p 0], m.Covered := fun covered =>
        Nat.lt_irrefl 0 (covered _ List.mem_cons_self)
      exact ⟨List.append_nil _, fun covered => absurd covered bare, fun covered =>
        absurd covered bare⟩
    | succ left =>
      have found := getD_eq_succ_iff.mp held
      rw [dropWriter_eq_lower effects found, dropWriterMoves_eq effects found]
      exact accounts_lower found

theorem accounts_dropResource (d : Declaration) (t : Tally) (r : ResourceId) :
    Accounts t [] (t.dropResourceMoves d r) (t.dropResource d r) :=
  accounts_movesAlong (accounts_dropWriter d) t _

theorem accounts_settles (settles : t.Settles d turns u) :
    Accounts t (turns.map Prod.fst) (turns.flatMap (turnMoves d)) u := by
  induction settles with
  | stop done => exact accounts_nil _
  | @next t _ r rest _ next _ ih =>
    have taken : Accounts t [r] [] { t with unread := rest } :=
      ⟨(List.append_nil _).trans next, fun _ _ => rfl, fun _ _ => rfl⟩
    exact (taken.trans (accounts_dropResource d _ r)).trans ih

/-! What is taken is there. -/

theorem covered_movesAlong {α : Type} {f : Tally → α → Tally}
    {moves : Tally → α → List CountMove} {motive : Tally → List α → Prop}
    (each : ∀ t x xs, motive t (x :: xs) → (∀ m ∈ moves t x, m.Covered) ∧ motive (f t x) xs)
    {xs : List α} (begins : motive t xs) : ∀ m ∈ movesAlong f moves t xs, m.Covered := by
  induction xs generalizing t with
  | nil =>
    intro m none
    cases none
  | cons x xs ih =>
    obtain ⟨covered, continues⟩ := each t x xs begins
    exact List.forall_mem_append.mpr ⟨covered, ih continues⟩

theorem covered_release (held : d.pass? p = some pass)
    (reads : ∀ r ∈ d.resourceIds, pass.onlyReads r = true →
      0 < t.resourceRefs.getD r.index 0) : ∀ m ∈ t.releaseMoves d p, m.Covered := by
  unfold releaseMoves
  rw [held]
  refine covered_movesAlong (motive := fun t rs => rs.Nodup ∧
    ∀ r ∈ rs, 0 < t.resourceRefs.getD r.index 0) ?_ ⟨d.nodup_resourceIds.filter _, ?_⟩
  · rintro t r rs ⟨nodup, positive⟩
    obtain ⟨fresh, distinct⟩ := List.nodup_cons.mp nodup
    have here := positive r List.mem_cons_self
    refine ⟨List.forall_mem_cons.mpr ⟨here, ?_⟩, distinct, fun x member => ?_⟩
    · split <;> simp [Covered]
    · have apart : r.index ≠ x.index := by
        intro same
        rw [show r = x from congrArg ResourceId.mk same] at fresh
        exact fresh member
      simp only [unreadOnce]
      rw [Revival.getD_set _ _ _ (index_lt_of_getD_pos here), if_neg apart]
      exact positive x (List.mem_cons_of_mem r member)
  · intro r member
    have declared : r ∈ d.resourceIds := (List.mem_filter.mp member).1
    exact reads r declared ((mem_countedReads declared).mp member)

theorem covered_releaseEmpty (d : Declaration) :
    ∀ m ∈ (start d).releaseEmptyMoves d, m.Covered := by
  refine covered_movesAlong (motive := fun t later => Counted d t (readersBefore d later) [] ∧
    Occurs d t ∧ (∀ e ∈ later, d.pass? e.1 = some e.2) ∧ later.Nodup) ?_
    ⟨counted_start d, .start, fun _ member => mem_entries.mp member, d.nodup_entries⟩
  rintro t ⟨p, pass⟩ later ⟨counted, occurs, declared, nodup⟩
  have held := declared _ List.mem_cons_self
  obtain ⟨fresh, distinct⟩ := List.nodup_cons.mp nodup
  refine ⟨?_, counted.releaseIfEmpty occurs held fresh, occurs.releaseIfEmpty _,
    fun e member => declared e (List.mem_cons_of_mem _ member), distinct⟩
  unfold releaseIfEmptyMoves
  split
  · exact covered_release held fun r declared reads =>
      Nat.lt_of_lt_of_eq (readersBefore_pos held reads) (counted.refs r declared).symm
  · intro m none
    cases none

theorem Balanced.covered_dropWriter {due : List PassId} (balanced : Balanced d t gone (p :: due))
    (held : d.pass? p = some pass) : ∀ m ∈ t.dropWriterMoves d p, m.Covered := by
  cases effects : d.hasSideEffects p with
  | true =>
    intro m none
    simp [dropWriterMoves, effects] at none
  | false =>
    have found := balanced.found held effects
    have used : d.Uses t.passRefs p := uses_of_succ found
    rw [dropWriterMoves_eq effects found]
    refine List.forall_mem_cons.mpr ⟨Nat.succ_pos _, ?_⟩
    unfold lowerMoves
    split
    · exact covered_release held fun r declared reads =>
        Nat.lt_of_lt_of_eq (readersLeft_pos held used reads) (balanced.counted.refs r declared).symm
    · intro m none
      cases none

theorem Balanced.covered_dropNext {rest : List ResourceId} (balanced : Balanced d t gone [])
    (occurs : Occurs d t) (next : t.unread = r :: rest) :
    ∀ m ∈ ({ t with unread := rest } : Tally).dropResourceMoves d r, m.Covered := by
  refine covered_movesAlong (motive := fun u due => Balanced d u (r :: gone) due ∧ Occurs d u ∧
    due.Nodup ∧ ∀ p ∈ due, p ∈ d.writers r) ?_
    ⟨balanced.take next, occurs.take next, d.nodup_writers r, fun _ => id⟩
  rintro u p due ⟨balanced', occurs', nodup, writers⟩
  obtain ⟨fresh, distinct⟩ := List.nodup_cons.mp nodup
  obtain ⟨pass, held, _⟩ := mem_writers.mp (writers p List.mem_cons_self)
  exact ⟨balanced'.covered_dropWriter held, balanced'.dropWriter fresh held occurs',
    occurs'.dropWriter p, distinct, fun q member => writers q (List.mem_cons_of_mem p member)⟩

/-- The loop stops in balance with the queue empty. Nothing is taken that is not there, and the
resources that leave the queue are those dropped. -/
theorem Balanced.settles (settles : t.Settles d turns u) (balanced : Balanced d t gone [])
    (occurs : Occurs d t) : (∀ m ∈ turns.flatMap (turnMoves d), m.Covered) ∧ u.unread = [] ∧
      Balanced d u ((turns.map Prod.fst).reverse ++ gone) [] ∧
      ∀ r ∈ turns.map Prod.fst, r ∈ d.resourceIds := by
  induction settles generalizing gone with
  | stop done =>
    refine ⟨?_, done, balanced, ?_⟩ <;> simp
  | @next t _ r rest _ next _ ih =>
    obtain ⟨covered, done, settled, declared⟩ :=
      ih (balanced.dropNext occurs next) ((occurs.take next).dropResource r)
    have inside : r ∈ d.resourceIds :=
      mem_resourceIds.mpr (balanced.shaped.unread r (next ▸ List.mem_cons_self))
    refine ⟨?_, done, ?_, List.forall_mem_cons.mpr ⟨inside, declared⟩⟩
    · exact List.forall_mem_append.mpr ⟨balanced.covered_dropNext occurs next, covered⟩
    · simpa using settled

end Tally

end RenderGraph
