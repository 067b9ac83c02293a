import RenderGraph.Culling.Survival

/-! Counting references down. A pass holds one reference for every resource it outputs to, a
resource one for every pass that reads it without outputting to it. Resources that nobody reads are
dropped, each taking a reference from its writers; a pass without side effects that loses its last
reference is culled and gives up what it read. -/

namespace RenderGraph

inductive CullStep where
  | empty (pass : PassId)
  | culled (pass : PassId)
  | revived (pass dependent : PassId)
  deriving DecidableEq, Repr

/-- References in the course of culling, the unread resources still to be dropped, and the
decisions so far. -/
structure Tally where
  passRefs : List Nat
  resourceRefs : List Nat
  unread : List ResourceId := []
  steps : List CullStep := []
  deriving DecidableEq, Repr

namespace Tally

def start (d : Declaration) : Tally :=
  { passRefs := d.passes.map fun pass => (d.outputsOf pass).length
    resourceRefs := d.resourceIds.map d.readerCount
    unread := d.resourceIds.filter fun r => d.readerCount r == 0 }

def unreadOnce (t : Tally) (r : ResourceId) : Tally :=
  let left := t.resourceRefs.getD r.index 0 - 1
  { t with
    resourceRefs := t.resourceRefs.set r.index left
    unread := if left = 0 then t.unread ++ [r] else t.unread }

def release (d : Declaration) (t : Tally) (p : PassId) : Tally :=
  ((d.pass? p).elim [] d.countedReads).foldl unreadOnce t

def step (t : Tally) (s : CullStep) : Tally := { t with steps := t.steps ++ [s] }

def releaseEmpty (d : Declaration) (t : Tally) : Tally :=
  d.entries.foldl (fun t (p, pass) =>
    if (d.outputsOf pass).isEmpty && !pass.sideEffects then (t.step (.empty p)).release d p
    else t) t

def dropWriter (d : Declaration) (t : Tally) (p : PassId) : Tally :=
  if d.hasSideEffects p then t
  else match t.passRefs[p.index]? with
    | some (left + 1) =>
      let t := { t with passRefs := t.passRefs.set p.index left }
      if left = 0 then (t.step (.culled p)).release d p else t
    | _ => t

def dropResource (d : Declaration) (t : Tally) (r : ResourceId) : Tally :=
  (d.writers r).foldl (dropWriter d) t

def held (passRefs : List Nat) : Nat := passRefs.foldr (· + ·) 0

/-- The references still held outweigh whatever one release can add to the unread resources. -/
def weight (d : Declaration) (t : Tally) : Nat :=
  t.unread.length + (d.resources.length + 1) * held t.passRefs

theorem passRefs_foldl_unreadOnce (rs : List ResourceId) (t : Tally) :
    (rs.foldl unreadOnce t).passRefs = t.passRefs := by
  induction rs generalizing t with
  | nil => rfl
  | cons r rs ih => simp [ih, unreadOnce]

theorem length_unread_foldl_unreadOnce (rs : List ResourceId) (t : Tally) :
    (rs.foldl unreadOnce t).unread.length ≤ t.unread.length + rs.length := by
  induction rs generalizing t with
  | nil => simp
  | cons r rs ih =>
    have := ih (t.unreadOnce r)
    have : (t.unreadOnce r).unread.length ≤ t.unread.length + 1 := by
      simp only [unreadOnce]
      split <;> simp
    simp only [List.foldl_cons, List.length_cons]
    omega

@[simp] theorem passRefs_release (d : Declaration) (t : Tally) (p : PassId) :
    (t.release d p).passRefs = t.passRefs := passRefs_foldl_unreadOnce _ _

theorem length_unread_release (d : Declaration) (t : Tally) (p : PassId) :
    (t.release d p).unread.length ≤ t.unread.length + d.resources.length := by
  refine Nat.le_trans (length_unread_foldl_unreadOnce _ t) (Nat.add_le_add_left ?_ _)
  cases d.pass? p with
  | none => simp
  | some pass =>
    simpa [Declaration.countedReads, Declaration.resourceIds] using
      List.length_filter_le (fun r => pass.readsFrom r && !pass.outputsTo r) d.resourceIds

theorem held_set {refs : List Nat} {i n : Nat} (found : refs[i]? = some (n + 1)) :
    held (refs.set i n) + 1 = held refs := by
  induction refs generalizing i with
  | nil => simp at found
  | cons ref refs ih =>
    cases i with
    | zero =>
      have first : ref = n + 1 := by simpa using found
      simp only [List.set_cons_zero, held, List.foldr_cons, first]
      omega
    | succ i =>
      have rest := ih (i := i) (by simpa using found)
      simp only [held] at rest
      simp only [List.set_cons_succ, held, List.foldr_cons]
      omega

theorem weight_dropWriter_le (d : Declaration) (t : Tally) (p : PassId) :
    (t.dropWriter d p).weight d ≤ t.weight d := by
  unfold dropWriter
  split
  · exact Nat.le_refl _
  · split
    · rename_i left found
      have sum := held_set found
      have scaled : (d.resources.length + 1) * held t.passRefs =
          (d.resources.length + 1) * held (t.passRefs.set p.index left) +
            (d.resources.length + 1) := by
        rw [← sum, Nat.mul_add, Nat.mul_one]
      have added := length_unread_release d
        ({ t with passRefs := t.passRefs.set p.index left }.step (.culled p)) p
      simp only [step] at added
      dsimp only
      split
      · simp only [weight, passRefs_release, step]
        omega
      · simp only [weight]
        omega
    · exact Nat.le_refl _

theorem weight_dropResource_le (d : Declaration) (t : Tally) (r : ResourceId) :
    (t.dropResource d r).weight d ≤ t.weight d := by
  unfold dropResource
  generalize d.writers r = ps
  induction ps generalizing t with
  | nil => exact Nat.le_refl _
  | cons p ps ih => exact Nat.le_trans (ih _) (weight_dropWriter_le d t p)

/-- Drops unread resources, the first one first, until none is left. -/
def settle (d : Declaration) (t : Tally) : Tally :=
  match _unread : t.unread with
  | [] => t
  | r :: rest => settle d ({ t with unread := rest }.dropResource d r)
  termination_by t.weight d
  decreasing_by
    refine Nat.lt_of_le_of_lt (weight_dropResource_le d _ r) ?_
    simp [weight, _unread]

end Tally

end RenderGraph
