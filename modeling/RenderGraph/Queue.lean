import RenderGraph.ResourceState

/-! The queues of a device. Work on one queue runs in the order of submission; work on different
queues is ordered by fences alone. -/

namespace RenderGraph

inductive Queue where
  | graphics
  | compute
  | copy
  deriving DecidableEq, Repr, Inhabited

namespace Queue

def all : List Queue := [graphics, compute, copy]

def index : Queue → Nat
  | graphics => 0
  | compute => 1
  | copy => 2

def name : Queue → String
  | graphics => "Graphics"
  | compute => "Compute"
  | copy => "Copy"

def recordsTransitions (q : Queue) : Bool := q != copy

/-- Whether a transition on the queue may name the state as its start or its end. -/
def supports (q : Queue) (s : ResourceState) : Bool :=
  match q with
  | graphics => true
  | compute => !s.meets ResourceState.graphicsOnly
  | copy => false

def compare (a b : Queue) : Ordering := Ord.compare a.index b.index

theorem mem_all (q : Queue) : q ∈ all := by cases q <;> simp [all]

end Queue

structure PerQueue (α : Type) where
  graphics : α
  compute : α
  copy : α
  deriving DecidableEq, Repr

namespace PerQueue

variable {α β : Type}

def fill (a : α) : PerQueue α := ⟨a, a, a⟩

def get (t : PerQueue α) : Queue → α
  | .graphics => t.graphics
  | .compute => t.compute
  | .copy => t.copy

def set (t : PerQueue α) (q : Queue) (a : α) : PerQueue α :=
  match q with
  | .graphics => { t with graphics := a }
  | .compute => { t with compute := a }
  | .copy => { t with copy := a }

def tabulate (f : Queue → α) : PerQueue α := ⟨f .graphics, f .compute, f .copy⟩

@[simp] theorem get_fill (a : α) (q : Queue) : (fill a).get q = a := by cases q <;> rfl

@[simp] theorem get_tabulate (f : Queue → α) (q : Queue) : (tabulate f).get q = f q := by
  cases q <;> rfl

theorem get_set (t : PerQueue α) (p q : Queue) (a : α) :
    (t.set p a).get q = if q = p then a else t.get q := by
  cases p <;> cases q <;> rfl

end PerQueue

end RenderGraph
