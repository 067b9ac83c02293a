import RenderGraph.Text.Flags

/-! The state of a resource on the device: a set of the ways in which it may be used at present.
The empty set is the common state. Sets keep bits that no state is named for. -/

namespace RenderGraph

structure ResourceState where
  bits : BitVec 32
  deriving DecidableEq, Repr

namespace ResourceState

def common : ResourceState := ⟨0⟩
def present : ResourceState := ⟨0x1⟩
def renderTarget : ResourceState := ⟨0x2⟩
def depthRead : ResourceState := ⟨0x4⟩
def depthWrite : ResourceState := ⟨0x8⟩
def pixelShaderResource : ResourceState := ⟨0x10⟩
def nonPixelShaderResource : ResourceState := ⟨0x20⟩
def unorderedAccess : ResourceState := ⟨0x40⟩
def copySource : ResourceState := ⟨0x80⟩
def copyDest : ResourceState := ⟨0x100⟩
def vertexAndConstantBuffer : ResourceState := ⟨0x200⟩
def indexBuffer : ResourceState := ⟨0x400⟩

instance : Inhabited ResourceState := ⟨common⟩
instance : Union ResourceState := ⟨fun a b => ⟨a.bits ||| b.bits⟩⟩

def shaderResource : ResourceState := pixelShaderResource ∪ nonPixelShaderResource

def writable : ResourceState := renderTarget ∪ depthWrite ∪ unorderedAccess ∪ copyDest

/-- The states that only the graphics queue can enter or leave. -/
def graphicsOnly : ResourceState :=
  present ∪ renderTarget ∪ depthRead ∪ depthWrite ∪ pixelShaderResource ∪ indexBuffer

def contains (a b : ResourceState) : Bool := a.bits &&& b.bits == b.bits

def meets (a b : ResourceState) : Bool := a.bits &&& b.bits != 0

/-- A state other than the common one that allows no modification; several of them can be held
at once. -/
def isReadOnly (s : ResourceState) : Bool := s != common && !s.meets writable

/-- A resource in state `current` can serve an access that requires `required` as it is. -/
def satisfies (current required : ResourceState) : Bool :=
  current == required || (required.isReadOnly && current.isReadOnly && current.contains required)

def names : Text.FlagNames := [
  (0, "PRESENT"), (1, "RENDER_TARGET"), (2, "DEPTH_READ"), (3, "DEPTH_WRITE"),
  (4, "PIXEL_SHADER_RESOURCE"), (5, "NON_PIXEL_SHADER_RESOURCE"), (6, "UNORDERED_ACCESS"),
  (7, "COPY_SOURCE"), (8, "COPY_DEST"), (9, "VERTEX_AND_CONSTANT_BUFFER"), (10, "INDEX_BUFFER")]

/-- The names of the set, with one name for the readable-everywhere pair and one for the empty
set; bits without a name are left out. -/
def text (s : ResourceState) : String :=
  if s = common then "COMMON"
  else if s = shaderResource then "SHADER_RESOURCE"
  else " | ".intercalate (names.present s.bits)

theorem bits_union (a b : ResourceState) : (a ∪ b).bits = a.bits ||| b.bits := rfl

theorem contains_refl (a : ResourceState) : a.contains a = true := by simp [contains]

theorem contains_union_left (a b : ResourceState) : (a ∪ b).contains a = true := by
  simp [contains, bits_union, BitVec.and_comm]
  ext i h
  simp
  grind

end ResourceState

end RenderGraph
