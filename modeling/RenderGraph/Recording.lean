import RenderGraph.Id
import RenderGraph.Queue
import RenderGraph.View

/-! What is known of a pass being recorded: where it records, and what stands behind the resources
it looks up. -/

namespace RenderGraph

structure Binding where
  resource : ResourceId
  native : Option ResourceKey
  views : PerView (Option ViewKey)
  bytes : Nat
  deriving DecidableEq, Repr

structure Recording where
  pass : PassId
  name : String
  queue : Queue
  list : ListKey
  frameIndex : Nat
  bindings : List Binding
  deriving DecidableEq, Repr

end RenderGraph
