import RenderGraph.Blueprint
import RenderGraph.Id
import RenderGraph.Queue
import RenderGraph.Usage

/-! Resources as they are declared. -/

namespace RenderGraph

structure Copy where
  native : ResourceKey
  views : PerView (Option ViewKey) := PerView.fill none
  deriving DecidableEq, Repr

/-- Who owns a resource: its caller, who binds a copy to it; the graph, for as long as the
declaration lasts; or the graph, from the pass that creates it on. -/
inductive Origin where
  | imported (bound : Copy)
  | managed
  | transient (creatorQueue : Queue)
  deriving DecidableEq, Repr

namespace Origin

def name : Origin → String
  | imported _ => "Imported"
  | managed => "Managed"
  | transient _ => "Transient"

def isImported : Origin → Bool
  | imported _ => true
  | _ => false

def isTransient : Origin → Bool
  | transient _ => true
  | _ => false

end Origin

structure Resource where
  name : String
  origin : Origin
  blueprint : Blueprint
  usage : Usage
  finalUsage : Option Usage := none
  /-- The last pass declared to output to the resource. -/
  producer : Option PassId := none
  /-- The last pass declared to read the resource. -/
  lastReader : Option PassId := none
  viewSpecs : PerView (Option ViewSpec) := PerView.fill none
  deriving DecidableEq, Repr

namespace Resource

def initialState (r : Resource) : ResourceState := r.usage.state

/-- The state to be left behind at the end of a frame. A transient resource whose creator cannot
record transitions is left in any state. -/
def restoreState (r : Resource) : Option ResourceState :=
  match r.finalUsage, r.origin with
  | some usage, _ => some usage.state
  | none, .transient queue => if queue.recordsTransitions then some r.initialState else none
  | none, _ => some r.initialState

def viewSpec (r : Resource) (kind : ViewKind) : ViewSpec := (r.viewSpecs.get kind).getD {}

end Resource

end RenderGraph
