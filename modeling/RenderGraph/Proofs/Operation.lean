import RenderGraph.Operation

/-! Reading runs of operations backwards, and what an operation leaves alone whether it fails or
not. -/

namespace RenderGraph

namespace Op

variable {σ τ α β γ : Type}

theorem run_bind_ok {op : Op σ α} {next : α → Op σ β} {s s' : σ} {rig rig' : Rig} {b : β} :
    (op >>= next).run s rig = (.ok b, s', rig') ↔
      ∃ a mid rigMid, op.run s rig = (.ok a, mid, rigMid) ∧
        (next a).run mid rigMid = (.ok b, s', rig') := by
  rw [run_bind]
  obtain ⟨result, mid, rigMid⟩ := op.run s rig
  cases result with
  | ok a => simp [and_assoc]
  | error failure => simp

theorem run_bind_error {op : Op σ α} {next : α → Op σ β} {s s' : σ} {rig rig' : Rig}
    {failure : Failure} :
    (op >>= next).run s rig = (.error failure, s', rig') ↔
      op.run s rig = (.error failure, s', rig') ∨
        ∃ a mid rigMid, op.run s rig = (.ok a, mid, rigMid) ∧
          (next a).run mid rigMid = (.error failure, s', rig') := by
  rw [run_bind]
  obtain ⟨result, mid, rigMid⟩ := op.run s rig
  cases result with
  | ok a => simp [and_assoc]
  | error failure => simp

theorem run_bind_congr {op : Op σ α} {next next' : α → Op σ β} {s : σ} {rig : Rig}
    (same : ∀ a mid rigMid, op.run s rig = (.ok a, mid, rigMid) →
      (next a).run mid rigMid = (next' a).run mid rigMid) :
    (op >>= next).run s rig = (op >>= next').run s rig := by
  rw [run_bind, run_bind]
  rcases ran : op.run s rig with ⟨failure | a, mid, rigMid⟩
  · rfl
  · exact same a mid rigMid ran

theorem run_aside_ok {op : Op τ α} {t t' : τ} {s s' : σ} {rig rig' : Rig}
    {result : Except Failure α} :
    (aside op t : Op σ _).run s rig = (.ok (result, t'), s', rig') ↔
      op.run t rig = (result, t', rig') ∧ s' = s := by
  rw [run_aside]
  obtain ⟨outcome, left, rigLeft⟩ := op.run t rig
  simp only [Prod.mk.injEq, Except.ok.injEq]
  constructor
  · rintro ⟨⟨rfl, rfl⟩, rfl, rfl⟩
    exact ⟨⟨rfl, rfl, rfl⟩, rfl⟩
  · rintro ⟨⟨rfl, rfl, rfl⟩, rfl⟩
    exact ⟨⟨rfl, rfl⟩, rfl, rfl⟩

/-- Whatever becomes of the operation, the view of the value it works on stays. -/
def Keeps (op : Op σ α) (view : σ → γ) : Prop := ∀ s rig, view (op.run s rig).2.1 = view s

section Keeps

variable {view : σ → γ}

theorem Keeps.of_run {op : Op σ α} (keeps : op.Keeps view) {s s' : σ} {rig rig' : Rig}
    {result : Except Failure α} (ran : op.run s rig = (result, s', rig')) : view s' = view s := by
  have kept := keeps s rig
  rw [ran] at kept
  exact kept

theorem keeps_pure (a : α) : (pure a : Op σ α).Keeps view := fun _ _ => rfl

theorem keeps_fail (failure : Failure) : (fail failure : Op σ α).Keeps view := fun _ _ => rfl

theorem keeps_call (c : Call) : (call c : Op σ c.Reply).Keeps view := fun _ _ => rfl

theorem keeps_read : (read : Op σ σ).Keeps view := fun _ _ => rfl

theorem keeps_onRig (f : Rig → Rig) : (onRig f : Op σ Unit).Keeps view := fun _ _ => rfl

theorem keeps_note (level : Level) (text : String) : (note level text : Op σ Unit).Keeps view :=
  fun _ _ => rfl

theorem keeps_aside (op : Op τ α) (t : τ) :
    (aside op t : Op σ (Except Failure α × τ)).Keeps view := fun _ _ => rfl

theorem keeps_update {f : σ → σ} (same : ∀ s, view (f s) = view s) : (update f).Keeps view :=
  fun s _ => same s

theorem keeps_within {part : σ → τ} {put : τ → σ → σ} (op : Op τ α)
    (same : ∀ t s, view (put t s) = view s) : (within part put op).Keeps view :=
  fun s rig => same (op.run (part s) rig).2.1 s

theorem Keeps.bind {op : Op σ α} {next : α → Op σ β} (first : op.Keeps view)
    (rest : ∀ a, (next a).Keeps view) : (op >>= next).Keeps view := by
  intro s rig
  rw [run_bind]
  cases ran : op.run s rig with
  | mk result after =>
    have kept := first.of_run ran
    cases result with
    | ok a => exact (rest a after.1 after.2).trans kept
    | error failure => exact kept

theorem keeps_forM (xs : List α) {f : α → Op σ Unit} (each : ∀ x, (f x).Keeps view) :
    (xs.forM f).Keeps view := by
  induction xs with
  | nil => exact keeps_pure ()
  | cons x xs ih => exact (each x).bind fun _ => ih

end Keeps

def Maintains (op : Op σ α) (I : σ → Prop) : Prop := ∀ s rig, I s → I (op.run s rig).2.1

section Maintains

variable {I : σ → Prop}

theorem Maintains.of_run {op : Op σ α} (maintains : op.Maintains I) {s s' : σ} {rig rig' : Rig}
    {result : Except Failure α} (ran : op.run s rig = (result, s', rig')) (holds : I s) : I s' := by
  have held := maintains s rig holds
  rw [ran] at held
  exact held

theorem Keeps.maintains {op : Op σ α} {view : σ → γ} (keeps : op.Keeps view)
    (same : ∀ s s', view s' = view s → I s → I s') : op.Maintains I :=
  fun s rig => same s _ (keeps s rig)

theorem Maintains.bind {op : Op σ α} {next : α → Op σ β} (first : op.Maintains I)
    (rest : ∀ a, (next a).Maintains I) : (op >>= next).Maintains I := by
  intro s rig holds
  rw [run_bind]
  cases ran : op.run s rig with
  | mk result after =>
    have held := first.of_run ran holds
    cases result with
    | ok a => exact rest a after.1 after.2 held
    | error failure => exact held

theorem maintains_update {f : σ → σ} (holds : ∀ s, I s → I (f s)) : (update f).Maintains I :=
  fun s _ => holds s

theorem maintains_fail (failure : Failure) : (fail failure : Op σ α).Maintains I :=
  fun _ _ holds => holds

theorem maintains_read_bind {next : σ → Op σ β}
    (rest : ∀ s rig, I s → I ((next s).run s rig).2.1) : (read >>= next).Maintains I := by
  intro s rig holds
  rw [run_bind]
  exact rest s rig holds

end Maintains

def Upholds (op : Op σ α) (I : σ → Rig → Prop) : Prop :=
  ∀ s rig, I s rig → I (op.run s rig).2.1 (op.run s rig).2.2

section Upholds

variable {I : σ → Rig → Prop}

theorem Upholds.of_run {op : Op σ α} (upholds : op.Upholds I) {s s' : σ} {rig rig' : Rig}
    {result : Except Failure α} (ran : op.run s rig = (result, s', rig')) (holds : I s rig) :
    I s' rig' := by
  have held := upholds s rig holds
  rw [ran] at held
  exact held

theorem upholds_read : (read : Op σ σ).Upholds I := fun _ _ holds => holds

theorem Upholds.bind {op : Op σ α} {next : α → Op σ β} (first : op.Upholds I)
    (rest : ∀ a, (next a).Upholds I) : (op >>= next).Upholds I := by
  intro s rig holds
  rw [run_bind]
  cases ran : op.run s rig with
  | mk result after =>
    have held := first.of_run ran holds
    cases result with
    | ok a => exact rest a after.1 after.2 held
    | error failure => exact held

theorem upholds_forM (xs : List α) {f : α → Op σ Unit} (each : ∀ x, (f x).Upholds I) :
    (xs.forM f).Upholds I := by
  induction xs with
  | nil => exact fun _ _ holds => holds
  | cons x xs ih => exact (each x).bind fun _ => ih

theorem upholds_mapM (xs : List α) {f : α → Op σ β} (each : ∀ x, (f x).Upholds I) :
    (xs.mapM f).Upholds I := by
  induction xs with
  | nil => exact fun _ _ holds => holds
  | cons x xs ih =>
    rw [List.mapM_cons]
    exact (each x).bind fun _ => ih.bind fun _ _ _ holds => holds

end Upholds

end Op

end RenderGraph
