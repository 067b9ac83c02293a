import RenderGraph.Text.Flags

/-! Hints that an access adds to the barrier made for it. The device receives them unchanged. -/

namespace RenderGraph

inductive Layout where
  | undefined
  | common
  | present
  | renderTarget
  | depthStencilWrite
  | depthStencilRead
  | shaderResource
  | unorderedAccess
  | copySource
  | copyDest
  deriving DecidableEq, Repr

namespace Layout

def all : List Layout := [
  undefined, common, present, renderTarget, depthStencilWrite, depthStencilRead, shaderResource,
  unorderedAccess, copySource, copyDest]

def name : Layout → String
  | undefined => "Undefined"
  | common => "Common"
  | present => "Present"
  | renderTarget => "RenderTarget"
  | depthStencilWrite => "DepthStencilWrite"
  | depthStencilRead => "DepthStencilRead"
  | shaderResource => "ShaderResource"
  | unorderedAccess => "UnorderedAccess"
  | copySource => "CopySource"
  | copyDest => "CopyDest"

end Layout

structure MemoryScope where
  bits : BitVec 32
  deriving DecidableEq, Repr

def MemoryScope.names : Text.FlagNames := [
  (0, "VERTEX_BUFFER"), (1, "CONSTANT_BUFFER"), (2, "INDEX_BUFFER"), (3, "RENDER_TARGET"),
  (4, "UNORDERED_ACCESS"), (5, "DEPTH_STENCIL_WRITE"), (6, "DEPTH_STENCIL_READ"),
  (7, "SHADER_RESOURCE"), (8, "COPY_DEST"), (9, "COPY_SOURCE"), (31, "NO_ACCESS")]

structure StageScope where
  bits : BitVec 32
  deriving DecidableEq, Repr

def StageScope.names : Text.FlagNames := [
  (0, "ALL"), (1, "DRAW"), (2, "INDEX_INPUT"), (3, "VERTEX_SHADING"), (4, "PIXEL_SHADING"),
  (5, "DEPTH_STENCIL"), (6, "RENDER_TARGET"), (7, "COMPUTE_SHADING"), (8, "COPY")]

structure Hints where
  layout : Option Layout := none
  access : Option MemoryScope := none
  stages : Option StageScope := none
  deriving DecidableEq, Repr, Inhabited

namespace Hints

def isEmpty (h : Hints) : Bool := h.layout.isNone && h.access.isNone && h.stages.isNone

end Hints

end RenderGraph
