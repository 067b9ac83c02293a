/-! Names for things: the first four count what a graph declares and compiles, in order of
appearance; the others are keys that the device hands out. -/

namespace RenderGraph

/-- A declared resource, by its position among the declared resources. -/
structure ResourceId where
  index : Nat
  deriving DecidableEq, Repr, Inhabited

/-- A declared pass, by its position among the declared passes. -/
structure PassId where
  index : Nat
  deriving DecidableEq, Repr, Inhabited

/-- A command list of a schedule, by the order of opening. -/
structure ListId where
  index : Nat
  deriving DecidableEq, Repr, Inhabited

/-- A fence of a schedule, by the order of first use. -/
structure FenceId where
  index : Nat
  deriving DecidableEq, Repr, Inhabited

def ResourceId.text (r : ResourceId) : String := "r" ++ toString r.index
def PassId.text (p : PassId) : String := "p" ++ toString p.index
def ListId.text (l : ListId) : String := "cl" ++ toString l.index
def FenceId.text (f : FenceId) : String := "f" ++ toString f.index

structure ResourceKey where
  raw : Nat
  deriving DecidableEq, Repr, Inhabited

structure ListKey where
  raw : Nat
  deriving DecidableEq, Repr, Inhabited

structure FenceKey where
  raw : Nat
  deriving DecidableEq, Repr, Inhabited

structure ViewKey where
  raw : Nat
  deriving DecidableEq, Repr, Inhabited

end RenderGraph
