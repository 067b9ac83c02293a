/-! Element formats of textures. A buffer has no format; its elements have a stride instead. -/

namespace RenderGraph

inductive Format where
  | unknown
  | r8Unorm
  | r32Float
  | r32Uint
  | rg16Float
  | rgba8Unorm
  | rgba8UnormSrgb
  | bgra8Unorm
  | bgra8UnormSrgb
  | rgb10A2Unorm
  | rgba16Float
  | rgba32Float
  | depth24PlusStencil8
  | depth32Float
  deriving DecidableEq, Repr, Inhabited

namespace Format

def all : List Format := [
  unknown, r8Unorm, r32Float, r32Uint, rg16Float, rgba8Unorm, rgba8UnormSrgb, bgra8Unorm,
  bgra8UnormSrgb, rgb10A2Unorm, rgba16Float, rgba32Float, depth24PlusStencil8, depth32Float]

def name : Format → String
  | unknown => "Unknown"
  | r8Unorm => "R8Unorm"
  | r32Float => "R32Float"
  | r32Uint => "R32Uint"
  | rg16Float => "Rg16Float"
  | rgba8Unorm => "Rgba8Unorm"
  | rgba8UnormSrgb => "Rgba8UnormSrgb"
  | bgra8Unorm => "Bgra8Unorm"
  | bgra8UnormSrgb => "Bgra8UnormSrgb"
  | rgb10A2Unorm => "Rgb10A2Unorm"
  | rgba16Float => "Rgba16Float"
  | rgba32Float => "Rgba32Float"
  | depth24PlusStencil8 => "Depth24PlusStencil8"
  | depth32Float => "Depth32Float"

def isDepthStencil : Format → Bool
  | depth24PlusStencil8 | depth32Float => true
  | _ => false

/-- Bytes per pixel; zero where the format says nothing about size. -/
def blockSize : Format → Nat
  | unknown => 0
  | r8Unorm => 1
  | rgba16Float => 8
  | rgba32Float => 16
  | _ => 4

theorem mem_all (f : Format) : f ∈ all := by cases f <;> simp [all]

end Format

end RenderGraph
