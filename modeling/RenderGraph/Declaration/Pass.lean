import RenderGraph.Hints
import RenderGraph.Id
import RenderGraph.Queue
import RenderGraph.Usage

/-! Passes and their accesses. -/

namespace RenderGraph

structure Access where
  name : String
  resource : ResourceId
  usage : Usage
  extraStates : ResourceState := .common
  hints : Hints := {}
  deriving DecidableEq, Repr

/-- The state the resource has to be in. -/
def Access.state (a : Access) : ResourceState := a.usage.state ∪ a.extraStates

/-- A declared pass. The recorder, if one is bound, names the resources it looks up. -/
structure Pass where
  name : String
  queue : Queue
  reads : List Access := []
  writes : List Access := []
  creates : List Access := []
  sideEffects : Bool := false
  recorder : Option (List ResourceId) := none
  deriving DecidableEq, Repr

namespace Pass

def outputs (p : Pass) : List Access := p.creates ++ p.writes

def accesses (p : Pass) : List Access := p.creates ++ p.reads ++ p.writes

def readsFrom (p : Pass) (r : ResourceId) : Bool := p.reads.any (·.resource == r)

def writesTo (p : Pass) (r : ResourceId) : Bool := p.writes.any (·.resource == r)

def isCreatorOf (p : Pass) (r : ResourceId) : Bool := p.creates.any (·.resource == r)

def outputsTo (p : Pass) (r : ResourceId) : Bool := p.outputs.any (·.resource == r)

def touches (p : Pass) (r : ResourceId) : Bool := p.accesses.any (·.resource == r)

theorem outputsTo_eq (p : Pass) (r : ResourceId) :
    p.outputsTo r = (p.isCreatorOf r || p.writesTo r) := by
  simp [outputsTo, outputs, isCreatorOf, writesTo]

theorem touches_eq (p : Pass) (r : ResourceId) :
    p.touches r = (p.outputsTo r || p.readsFrom r) := by
  simp only [touches, accesses, outputsTo, outputs, readsFrom, List.any_append]
  grind

end Pass

end RenderGraph
