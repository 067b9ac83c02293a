import RenderGraph.Format
import RenderGraph.Text.Record

/-! What a resource is made as: its extent, the format of its elements, the value it is cleared
to, and whether each frame in flight has a copy of its own. -/

namespace RenderGraph

/-- A 32-bit float by its bit pattern: sign, eight bits of exponent, 23 bits of fraction. -/
structure FloatBits where
  pattern : UInt32
  deriving DecidableEq, Repr

namespace FloatBits

def one : FloatBits := ⟨0x3f800000⟩

def magnitude (x : FloatBits) : UInt32 := x.pattern &&& 0x7fffffff

def isNaN (x : FloatBits) : Bool := 0x7f800000 < x.magnitude

/-- Equality of values: a value that is not a number equals nothing, and the zeros are equal. -/
def sameValue (x y : FloatBits) : Bool :=
  !x.isNaN && !y.isNaN && (x == y || (x.magnitude == 0 && y.magnitude == 0))

end FloatBits

inductive Clear where
  | none
  | colour (red green blue alpha : FloatBits)
  | depthStencil (depth : FloatBits) (stencil : UInt8)
  deriving DecidableEq, Repr

namespace Clear

def sameValue : Clear → Clear → Bool
  | none, none => true
  | colour r g b a, colour r' g' b' a' =>
    r.sameValue r' && g.sameValue g' && b.sameValue b' && a.sameValue a'
  | depthStencil d s, depthStencil d' s' => d.sameValue d' && s == s'
  | _, _ => false

end Clear

inductive Extent where
  | texture (width height : UInt32)
  | buffer (stride length : UInt32)
  deriving DecidableEq, Repr

namespace Extent

def isTexture : Extent → Bool
  | texture .. => true
  | buffer .. => false

/-- Size in bytes, if it fits in a word of 64 bits. -/
def byteSize? (e : Extent) (format : Format) : Option Nat :=
  let bytes := match e with
    | texture width height => width.toNat * height.toNat * format.blockSize
    | buffer stride length => stride.toNat * length.toNat
  if bytes < UInt64.size then some bytes else none

def text : Extent → String
  | texture width height =>
    Text.record "Tex2d" [("width", toString width.toNat), ("height", toString height.toNat)]
  | buffer stride length =>
    Text.record "Array" [("stride", toString stride.toNat), ("length", toString length.toNat)]

end Extent

structure Blueprint where
  extent : Extent
  format : Format := .unknown
  clear : Clear := .none
  buffered : Bool := false
  deriving DecidableEq, Repr

namespace Blueprint

def texture (width height : UInt32) (format : Format) : Blueprint :=
  { extent := .texture width height
    format := format
    clear := if format.isDepthStencil then .depthStencil .one 0 else .none }

def buffer (stride length : UInt32) : Blueprint := { extent := .buffer stride length }

def byteSize? (b : Blueprint) : Option Nat := b.extent.byteSize? b.format

def sameValue (a b : Blueprint) : Bool :=
  a.extent == b.extent && a.format == b.format && a.clear.sameValue b.clear &&
    a.buffered == b.buffered

end Blueprint

end RenderGraph
