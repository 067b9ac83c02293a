import RenderGraph.Blueprint
import RenderGraph.Failure
import RenderGraph.Hints
import RenderGraph.Queue
import RenderGraph.Usage

/-! The calls a device answers, and the commands it records for the calls that went through. -/

namespace RenderGraph

structure ResourceRequest where
  name : String
  blueprint : Blueprint
  views : ViewMask
  state : ResourceState
  deriving DecidableEq, Repr

inductive DeviceBarrier where
  | transition (resource : ResourceKey) (before after : ResourceState) (hints : Hints)
  | unordered (resource : ResourceKey)
  deriving DecidableEq, Repr

inductive Call where
  | createList (queue : Queue)
  | resetList (list : ListKey)
  | barrier (list : ListKey) (barriers : List DeviceBarrier)
  | submit (queue : Queue) (list : ListKey)
  | destroyList (list : ListKey)
  | createResource (request : ResourceRequest)
  | destroyResource (resource : ResourceKey)
  | createView (resource : ResourceKey) (kind : ViewKind) (spec : ViewSpec)
  | freeView (kind : ViewKind) (view : ViewKey)
  | createFence
  | signal (queue : Queue) (fence : FenceKey) (value : Nat)
  | wait (queue : Queue) (fence : FenceKey) (value : Nat)
  | waitCpu (fence : FenceKey) (value : Nat)
  | destroyFence (fence : FenceKey)
  deriving DecidableEq, Repr

abbrev Call.Reply : Call → Type
  | createList _ => ListKey
  | createResource _ => ResourceKey
  | createView .. => ViewKey
  | createFence => FenceKey
  | _ => Unit

inductive Command where
  | createList (list : ListKey) (queue : Queue)
  | resetList (list : ListKey)
  | barrier (list : ListKey) (barriers : List DeviceBarrier)
  | submit (queue : Queue) (list : ListKey)
  | destroyList (list : ListKey)
  | createResource (resource : ResourceKey) (request : ResourceRequest)
  | destroyResource (resource : ResourceKey)
  | createView (resource : ResourceKey) (kind : ViewKind) (view : ViewKey) (spec : ViewSpec)
  | freeView (kind : ViewKind) (view : ViewKey)
  | createFence (fence : FenceKey)
  | signal (queue : Queue) (fence : FenceKey) (value : Nat)
  | wait (queue : Queue) (fence : FenceKey) (value : Nat)
  | waitCpu (fence : FenceKey) (value : Nat)
  | destroyFence (fence : FenceKey)
  deriving DecidableEq, Repr

def Command.text : Command → String
  | createList list queue => s!"creating {queue.name} command list {list.raw}"
  | resetList list => s!"resetting command list {list.raw}"
  | barrier list barriers => s!"{barriers.length} barrier(s) on command list {list.raw}"
  | submit queue list => s!"submitting command list {list.raw} to {queue.name}"
  | destroyList list => s!"destroying command list {list.raw}"
  | createResource _ request =>
    s!"creating resource {Text.quote request.name} ({request.blueprint.extent.text}, " ++
      s!"{request.blueprint.byteSize?.getD 0} bytes, state {request.state.text})"
  | destroyResource resource => s!"destroying resource {resource.raw}"
  | createView resource kind view spec =>
    s!"creating {kind.name} view {view.raw} on resource {resource.raw} ({spec.text})"
  | freeView kind view => s!"freeing {kind.name} view {view.raw}"
  | createFence fence => s!"creating fence {fence.raw}"
  | signal queue fence value => s!"{queue.name} signals fence {fence.raw} = {value}"
  | wait queue fence value => s!"{queue.name} waits on fence {fence.raw} >= {value}"
  | waitCpu fence value => s!"CPU waited on fence {fence.raw} >= {value}"
  | destroyFence fence => s!"destroying fence {fence.raw}"

end RenderGraph
