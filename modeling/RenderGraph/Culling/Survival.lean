import RenderGraph.Declaration

/-! Which passes survive culling, and the dependencies between passes that culling goes by. -/

namespace RenderGraph

/-- What culling leaves: the references, and which resources a surviving pass touches. A pass or a
resource declared later has none and is not live. -/
structure Survival where
  passRefs : List Nat := []
  resourceRefs : List Nat := []
  live : List Bool := []
  deriving DecidableEq, Repr

namespace Survival

def passRef (s : Survival) (p : PassId) : Nat := s.passRefs.getD p.index 0

def resourceRef (s : Survival) (r : ResourceId) : Nat := s.resourceRefs.getD r.index 0

def isLive (s : Survival) (r : ResourceId) : Bool := s.live.getD r.index false

def uses (s : Survival) (p : PassId) (pass : Pass) : Bool := 0 < s.passRef p || pass.sideEffects

def liveCount (s : Survival) : Nat := s.live.count true

end Survival

namespace Declaration

def entries (d : Declaration) : List (PassId × Pass) :=
  d.passes.zipIdx.map fun (pass, i) => (⟨i⟩, pass)

def survivors (d : Declaration) (s : Survival) : List (PassId × Pass) :=
  d.entries.filter fun (p, pass) => s.uses p pass

def writers (d : Declaration) (r : ResourceId) : List PassId :=
  (d.entries.filter fun (_, pass) => pass.outputsTo r).map Prod.fst

def outputsOf (d : Declaration) (pass : Pass) : List ResourceId :=
  d.resourceIds.filter pass.outputsTo

def countedReads (d : Declaration) (pass : Pass) : List ResourceId :=
  d.resourceIds.filter fun r => pass.readsFrom r && !pass.outputsTo r

def readerCount (d : Declaration) (r : ResourceId) : Nat :=
  d.passes.countP fun pass => pass.readsFrom r && !pass.outputsTo r

def hasSideEffects (d : Declaration) (p : PassId) : Bool := (d.pass? p).any (·.sideEffects)

def passName (d : Declaration) (p : PassId) : String := (d.pass? p).elim "" (·.name)

/-- The passes that the pass depends on: the creators of what it writes and all writers of what it
reads. -/
def needs (d : Declaration) (pass : Pass) : List PassId :=
  pass.writes.flatMap (fun a =>
    (d.writers a.resource).filter fun w => (d.pass? w).any (·.isCreatorOf a.resource)) ++
  pass.reads.flatMap fun a => d.writers a.resource

end Declaration

end RenderGraph
