import RenderGraph.Device.Rig

/-! An operation works on a value of its own beside a rig. When it fails, the value and the rig
stay as they are at that moment; whoever wants them cleaned up does so. The equations for `run` say
what each building block does to the two. -/

namespace RenderGraph

abbrev Op (σ α : Type) := ExceptT Failure (StateM (σ × Rig)) α

namespace Op

variable {σ τ α β : Type}

def call (c : Call) : Op σ c.Reply := ExceptT.mk fun (s, rig) =>
  let (reply, rig) := rig.call c
  (reply, s, rig)

def fail (failure : Failure) : Op σ α := throw failure

def read : Op σ σ := do return (← get).1

def update (f : σ → σ) : Op σ Unit := modify fun (s, rig) => (f s, rig)

def onRig (f : Rig → Rig) : Op σ Unit := modify fun (s, rig) => (s, f rig)

def note (level : Level) (text : String) : Op σ Unit := onRig (·.note level text)

def run (op : Op σ α) (s : σ) (rig : Rig) : Except Failure α × σ × Rig := ExceptT.run op (s, rig)

/-- Runs an operation on a value of another type and hands over what is left of that value. -/
def aside (op : Op τ α) (t : τ) : Op σ (Except Failure α × τ) := ExceptT.mk fun (s, rig) =>
  let (result, t, rig) := op.run t rig
  (.ok (result, t), s, rig)

def within (part : σ → τ) (put : τ → σ → σ) (op : Op τ α) : Op σ α := ExceptT.mk fun (s, rig) =>
  let (result, t, rig) := op.run (part s) rig
  (result, put t s, rig)

@[simp] theorem run_pure (a : α) (s : σ) (rig : Rig) :
    (pure a : Op σ α).run s rig = (.ok a, s, rig) := rfl

@[simp] theorem run_fail (failure : Failure) (s : σ) (rig : Rig) :
    (fail failure : Op σ α).run s rig = (.error failure, s, rig) := rfl

theorem run_bind (op : Op σ α) (next : α → Op σ β) (s : σ) (rig : Rig) :
    (op >>= next).run s rig =
      match op.run s rig with
      | (.ok a, s, rig) => (next a).run s rig
      | (.error failure, s, rig) => (.error failure, s, rig) := by
  simp only [run, ExceptT.run, bind, ExceptT.bind, ExceptT.mk, StateT.bind, ExceptT.bindCont]
  rcases op (s, rig) with ⟨_ | _, _, _⟩ <;> rfl

@[simp] theorem run_call (c : Call) (s : σ) (rig : Rig) :
    (call c : Op σ c.Reply).run s rig = ((rig.call c).1, s, (rig.call c).2) := rfl

@[simp] theorem run_read (s : σ) (rig : Rig) : (read : Op σ σ).run s rig = (.ok s, s, rig) := rfl

@[simp] theorem run_update (f : σ → σ) (s : σ) (rig : Rig) :
    (update f).run s rig = (.ok (), f s, rig) := rfl

@[simp] theorem run_onRig (f : Rig → Rig) (s : σ) (rig : Rig) :
    (onRig f).run s rig = (.ok (), s, f rig) := rfl

@[simp] theorem run_note (level : Level) (text : String) (s : σ) (rig : Rig) :
    (note level text).run s rig = (.ok (), s, rig.note level text) := rfl

@[simp] theorem run_aside (op : Op τ α) (t : τ) (s : σ) (rig : Rig) :
    (aside op t).run s rig =
      (.ok ((op.run t rig).1, (op.run t rig).2.1), s, (op.run t rig).2.2) := rfl

@[simp] theorem run_within (part : σ → τ) (put : τ → σ → σ) (op : Op τ α) (s : σ) (rig : Rig) :
    (within part put op).run s rig =
      ((op.run (part s) rig).1, put (op.run (part s) rig).2.1 s, (op.run (part s) rig).2.2) := rfl

end Op

end RenderGraph
