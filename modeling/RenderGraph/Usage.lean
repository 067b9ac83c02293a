import RenderGraph.ResourceState
import RenderGraph.View

/-! What a pass does with a resource. The usage decides the state the resource has to be in, the
view it is seen through and whether it is modified. -/

namespace RenderGraph

inductive Usage where
  | present
  | colorTarget
  | depthRead
  | depthWrite
  | shaderRead
  | pixelShaderRead
  | nonPixelShaderRead
  | unorderedRead
  | unorderedWrite
  | copySource
  | copyDest
  | vertexInput
  | indexInput
  | unknown
  deriving DecidableEq, Repr

namespace Usage

instance : Inhabited Usage := ⟨unknown⟩

def all : List Usage := [
  present, colorTarget, depthRead, depthWrite, shaderRead, pixelShaderRead, nonPixelShaderRead,
  unorderedRead, unorderedWrite, copySource, copyDest, vertexInput, indexInput, unknown]

def name : Usage → String
  | present => "Present"
  | colorTarget => "ColorTarget"
  | depthRead => "DepthRead"
  | depthWrite => "DepthWrite"
  | shaderRead => "ShaderRead"
  | pixelShaderRead => "PixelShaderRead"
  | nonPixelShaderRead => "NonPixelShaderRead"
  | unorderedRead => "UnorderedRead"
  | unorderedWrite => "UnorderedWrite"
  | copySource => "CopySource"
  | copyDest => "CopyDest"
  | vertexInput => "VertexInput"
  | indexInput => "IndexInput"
  | unknown => "Unknown"

def state : Usage → ResourceState
  | present => .present
  | colorTarget => .renderTarget
  | depthRead => .depthRead
  | depthWrite => .depthWrite
  | shaderRead => .shaderResource
  | pixelShaderRead => .pixelShaderResource
  | nonPixelShaderRead => .nonPixelShaderResource
  | unorderedRead | unorderedWrite => .unorderedAccess
  | copySource => .copySource
  | copyDest => .copyDest
  | vertexInput => .vertexAndConstantBuffer
  | indexInput => .indexBuffer
  | unknown => .common

def isWrite : Usage → Bool
  | colorTarget | depthWrite | unorderedWrite | copyDest => true
  | _ => false

/-- Writes that later accesses have to wait for even when the state stays the same. -/
def isUnorderedWrite (u : Usage) : Bool := u == unorderedWrite

def views : Usage → ViewMask
  | shaderRead | pixelShaderRead | nonPixelShaderRead => .only .shaderRead
  | unorderedRead | unorderedWrite => .only .unorderedAccess
  | colorTarget => .only .colorTarget
  | depthRead | depthWrite => .only .depthTarget
  | _ => .none

theorem mem_all (u : Usage) : u ∈ all := by cases u <;> simp [all]

/-- A usage modifies the resource exactly when its state allows modification, reads through an
unordered view excepted. -/
theorem isWrite_iff (u : Usage) :
    u.isWrite = (u.state.meets .writable && u != unorderedRead) := by
  cases u <;> decide

end Usage

end RenderGraph
