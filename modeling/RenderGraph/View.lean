import RenderGraph.Format
import RenderGraph.Text.Record

/-! Views are how shaders and render passes see a resource. There are four kinds, and tables with
one entry for each kind describe which views are wanted, how they are made and where they are. -/

namespace RenderGraph

inductive ViewKind where
  | shaderRead
  | unorderedAccess
  | colorTarget
  | depthTarget
  deriving DecidableEq, Repr, Inhabited

namespace ViewKind

def all : List ViewKind := [shaderRead, unorderedAccess, colorTarget, depthTarget]

def index : ViewKind → Nat
  | shaderRead => 0
  | unorderedAccess => 1
  | colorTarget => 2
  | depthTarget => 3

def bit : ViewKind → Nat
  | shaderRead => 1
  | unorderedAccess => 2
  | colorTarget => 4
  | depthTarget => 8

def name : ViewKind → String
  | shaderRead => "ShaderRead"
  | unorderedAccess => "UnorderedAccess"
  | colorTarget => "ColorTarget"
  | depthTarget => "DepthTarget"

theorem mem_all (k : ViewKind) : k ∈ all := by cases k <;> simp [all]

end ViewKind

structure PerView (α : Type) where
  shaderRead : α
  unorderedAccess : α
  colorTarget : α
  depthTarget : α
  deriving DecidableEq, Repr

namespace PerView

variable {α β : Type}

def tabulate (f : ViewKind → α) : PerView α :=
  ⟨f .shaderRead, f .unorderedAccess, f .colorTarget, f .depthTarget⟩

def fill (a : α) : PerView α := tabulate fun _ => a

def get (t : PerView α) : ViewKind → α
  | .shaderRead => t.shaderRead
  | .unorderedAccess => t.unorderedAccess
  | .colorTarget => t.colorTarget
  | .depthTarget => t.depthTarget

def set (t : PerView α) (k : ViewKind) (a : α) : PerView α :=
  match k with
  | .shaderRead => { t with shaderRead := a }
  | .unorderedAccess => { t with unorderedAccess := a }
  | .colorTarget => { t with colorTarget := a }
  | .depthTarget => { t with depthTarget := a }

def toList (t : PerView α) : List α := ViewKind.all.map t.get

@[simp] theorem get_tabulate (f : ViewKind → α) (k : ViewKind) : (tabulate f).get k = f k := by
  cases k <;> rfl

@[simp] theorem get_fill (a : α) (k : ViewKind) : (fill a).get k = a := by cases k <;> rfl

theorem get_set (t : PerView α) (j k : ViewKind) (a : α) :
    (t.set j a).get k = if k = j then a else t.get k := by
  cases j <;> cases k <;> rfl

end PerView

abbrev ViewMask := PerView Bool

namespace ViewMask

def none : ViewMask := PerView.fill false

def only (k : ViewKind) : ViewMask := none.set k true

def union (a b : ViewMask) : ViewMask := PerView.tabulate fun k => a.get k || b.get k

def kinds (m : ViewMask) : List ViewKind := ViewKind.all.filter m.get

def bits (m : ViewMask) : Nat := (m.kinds.map ViewKind.bit).foldr (· + ·) 0

/-- Reads the low four bits; higher bits stand for no view and are dropped. -/
def ofBits (n : Nat) : ViewMask := PerView.tabulate fun k => n.testBit k.index

theorem mem_kinds (m : ViewMask) (k : ViewKind) : k ∈ m.kinds ↔ m.get k = true := by
  simp [kinds, ViewKind.mem_all]

theorem get_union (a b : ViewMask) (k : ViewKind) : (a.union b).get k = (a.get k || b.get k) := by
  simp [union]

end ViewMask

/-- How a view is made where the resource's own description does not decide: another format, and
a range of elements or mip levels. -/
structure ViewSpec where
  format : Option Format := none
  first : UInt32 := 0
  count : Option UInt32 := none
  deriving DecidableEq, Repr, Inhabited

namespace ViewSpec

def withFormat (v : ViewSpec) (format : Format) : ViewSpec := { v with format := some format }

def withRange (v : ViewSpec) (first count : UInt32) : ViewSpec :=
  { v with first := first, count := some count }

def text (v : ViewSpec) : String :=
  Text.record "ViewDesc" [
    ("format", Text.optional (v.format.map Format.name)),
    ("first", toString v.first.toNat),
    ("count", Text.optional (v.count.map fun n => toString n.toNat))]

end ViewSpec

end RenderGraph
