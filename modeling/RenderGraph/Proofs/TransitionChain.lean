import RenderGraph.Proofs.StateReplay

/-! The transitions of a batch, taken resource by resource: a batch fits together if the transitions
of every resource lead from one state to the next. -/

namespace RenderGraph

def transitionsOf (r : ResourceId) : List Barrier → List Transition
  | [] => []
  | .transition t :: rest =>
    if t.resource = r then t :: transitionsOf r rest else transitionsOf r rest
  | .unordered _ :: rest => transitionsOf r rest

/-- Transitions that lead from one state to another, each of them changing the state. -/
inductive Links : ResourceState → List Transition → ResourceState → Prop
  | nil (state : ResourceState) : Links state [] state
  | cons {t : Transition} {rest : List Transition} {last : ResourceState}
    (changes : t.before ≠ t.after) (links : Links t.after rest last) :
    Links t.before (t :: rest) last

section

variable {r q : ResourceId} {batch done rest : List Barrier} {t : Transition}
  {first middle last required : ResourceState} {ts us : List Transition} {s : States}

theorem transitionsOf_append (r : ResourceId) (xs ys : List Barrier) :
    transitionsOf r (xs ++ ys) = transitionsOf r xs ++ transitionsOf r ys := by
  induction xs with
  | nil => rfl
  | cons barrier xs ih =>
    cases barrier with
    | unordered q => exact ih
    | transition t =>
      simp only [List.cons_append, transitionsOf, ih]
      split <;> rfl

theorem mem_transitionsOf :
    t ∈ transitionsOf r batch ↔ .transition t ∈ batch ∧ t.resource = r := by
  induction batch with
  | nil => simp [transitionsOf]
  | cons barrier batch ih =>
    cases barrier with
    | unordered q => simp [transitionsOf, ih]
    | transition u =>
      rw [transitionsOf]
      split <;> simp [ih] <;> grind

theorem transitionsOf_transition : transitionsOf t.resource [.transition t] = [t] := by
  simp [transitionsOf]

theorem transitionsOf_other (other : t.resource ≠ r) : transitionsOf r [.transition t] = [] := by
  simp [transitionsOf, other]

theorem links_single (changes : t.before ≠ t.after) : Links t.before [t] t.after :=
  .cons changes (.nil _)

theorem Links.concat (links : Links first ts t.before) (changes : t.before ≠ t.after) :
    Links first (ts ++ [t]) t.after := by
  generalize reached : t.before = middle at links
  induction links with
  | nil => exact reached ▸ links_single changes
  | cons changes' _ ih => exact .cons changes' (ih reached)

theorem Links.split (links : Links first (ts ++ t :: us) last) :
    Links first ts t.before ∧ t.before ≠ t.after := by
  induction ts generalizing first with
  | nil =>
    cases links with
    | cons changes _ => exact ⟨.nil _, changes⟩
  | cons u ts ih =>
    cases links with
    | cons changes later => exact ⟨.cons changes (ih later).1, (ih later).2⟩

namespace States

theorem crossAll_of_links (held : s r = some first)
    (links : Links first (transitionsOf r batch) last) :
    s.crossAll batch r = some last := by
  induction batch generalizing s first with
  | nil =>
    cases links
    exact held
  | cons barrier batch ih =>
    cases barrier with
    | unordered q => exact ih held links
    | transition t =>
      simp only [transitionsOf] at links
      split at links
      · rename_i here
        cases links with
        | cons _ later => exact ih (by simp [cross, set, here]) later
      · rename_i other
        exact ih (by simpa [cross, set, Ne.symm other] using held) links

theorem crossAll_of_none (none : transitionsOf r batch = []) : s.crossAll batch r = s r := by
  induction batch generalizing s with
  | nil => rfl
  | cons barrier batch ih =>
    cases barrier with
    | unordered q => exact ih none
    | transition t =>
      simp only [transitionsOf] at none
      split at none
      · cases none
      · rename_i other
        have kept := ih (s := s.cross (.transition t)) none
        refine kept.trans ?_
        simp [cross, set, Ne.symm other]

def Crosses (s : States) (batch : List Barrier) (last : States) : Prop :=
  ∀ r, s r = last r ∧ transitionsOf r batch = [] ∨
    ∃ first final, s r = some first ∧ last r = some final ∧
      Links first (transitionsOf r batch) final

theorem Crosses.crossAll {last : States} (crosses : s.Crosses batch last) :
    s.crossAll batch = last := by
  funext r
  rcases crosses r with ⟨kept, none⟩ | ⟨first, final, held, reached, links⟩
  · rw [crossAll_of_none none, kept]
  · rw [crossAll_of_links held links, reached]

theorem Crosses.chains {last : States} (crosses : s.Crosses batch last) : s.Chains batch := by
  intro done t rest split
  have parts : transitionsOf t.resource batch =
      transitionsOf t.resource done ++ t :: transitionsOf t.resource rest := by
    rw [split, transitionsOf_append]
    simp [transitionsOf]
  rcases crosses t.resource with ⟨_, none⟩ | ⟨first, final, held, _, links⟩
  · rw [parts] at none
    simp at none
  · rw [parts] at links
    exact ⟨crossAll_of_links held links.split.1, links.split.2⟩

end States

/-! Widening a transition that is in the batch already. -/

theorem transitionsOf_widen_other {after : ResourceState} {batch' : List Barrier} (other : q ≠ r)
    (widened : widen r required batch = some (after, batch')) :
    transitionsOf q batch' = transitionsOf q batch := by
  induction batch generalizing batch' with
  | nil => cases widened
  | cons barrier batch ih =>
    cases barrier with
    | unordered p =>
      obtain ⟨⟨after', wider⟩, found, same⟩ := Option.map_eq_some_iff.mp widened
      obtain ⟨rfl, rfl⟩ := Prod.mk.inj same
      have kept := ih found
      exact kept
    | transition t =>
      rw [widen] at widened
      split at widened
      · rename_i here
        cases widened
        have apart : t.resource ≠ q := by
          rw [here.1]
          exact Ne.symm other
        simp [transitionsOf, apart]
      · obtain ⟨⟨after', wider⟩, found, same⟩ := Option.map_eq_some_iff.mp widened
        obtain ⟨rfl, rfl⟩ := Prod.mk.inj same
        simp only [transitionsOf, ih found]

theorem widen_of_nil (fresh : transitionsOf r batch = []) :
    widen r required batch = none := by
  induction batch with
  | nil => rfl
  | cons barrier batch ih =>
    cases barrier with
    | unordered p => simp [widen, ih fresh]
    | transition t =>
      simp only [transitionsOf] at fresh
      split at fresh
      · cases fresh
      · rename_i other
        simp [widen, other, ih fresh]

theorem widen_of_single (required : ResourceState) (single : transitionsOf r batch = [t]) :
    if t.after.isReadOnly = true ∧ required.isReadOnly = true then
      ∃ batch', widen r required batch = some (t.after ∪ required, batch') ∧
        transitionsOf r batch' = [{ t with after := t.after ∪ required }]
    else widen r required batch = none := by
  induction batch with
  | nil => cases single
  | cons barrier batch ih =>
    cases barrier with
    | unordered p =>
      have tail := ih single
      split at tail
      · rename_i readOnly
        obtain ⟨batch', widened, only⟩ := tail
        rw [if_pos readOnly]
        exact ⟨.unordered p :: batch', by simp [widen, widened], only⟩
      · rename_i notBoth
        rw [if_neg notBoth]
        simp [widen, tail]
    | transition u =>
      simp only [transitionsOf] at single
      split at single
      · rename_i here
        obtain ⟨rfl, fresh⟩ := List.cons.inj single
        split
        · rename_i readOnly
          refine ⟨.transition { u with after := u.after ∪ required } :: batch, ?_, ?_⟩
          · simp [widen, here, readOnly]
          · simp [transitionsOf, here, fresh]
        · rename_i notBoth
          have all : ¬ (u.resource = r ∧ u.after.isReadOnly = true ∧
              required.isReadOnly = true) := fun all => notBoth all.2
          rw [widen, if_neg all, widen_of_nil fresh]
          rfl
      · rename_i other
        have tail := ih single
        split at tail
        · rename_i readOnly
          obtain ⟨batch', widened, only⟩ := tail
          rw [if_pos readOnly]
          refine ⟨.transition u :: batch', ?_, ?_⟩
          · simp [widen, other, widened]
          · simp [transitionsOf, other, only]
        · rename_i notBoth
          rw [if_neg notBoth]
          simp [widen, other, tail]

end

end RenderGraph
