import RenderGraph.Declaration.Pass
import RenderGraph.Declaration.Resource
import RenderGraph.Failure

/-! A declaration: the passes of a frame in the order they run, and the resources they work on.
A pass is declared by calls that state its accesses one by one. -/

namespace RenderGraph

structure Declaration where
  passes : List Pass := []
  resources : List Resource := []
  deriving DecidableEq, Repr

/-- What an access may state besides its usage. The last two concern the resource. -/
inductive Tweak where
  | states (extra : ResourceState)
  | layout (layout : Layout)
  | memory (scope : MemoryScope)
  | stages (scope : StageScope)
  | view (kind : ViewKind) (spec : ViewSpec)
  | finalUsage (usage : Usage)
  deriving DecidableEq, Repr

namespace Tweak

def onAccess (a : Access) : Tweak → Access
  | states extra => { a with extraStates := a.extraStates ∪ extra }
  | layout l => { a with hints := { a.hints with layout := some l } }
  | memory scope => { a with hints := { a.hints with access := some scope } }
  | stages scope => { a with hints := { a.hints with stages := some scope } }
  | _ => a

def onResource (r : Resource) : Tweak → Resource
  | view kind spec => { r with viewSpecs := r.viewSpecs.set kind (some spec) }
  | finalUsage usage => { r with finalUsage := some usage }
  | _ => r

end Tweak

inductive PassCall where
  | read (resource : ResourceId) (name : String) (usage : Usage) (tweaks : List Tweak)
  /-- Reads with the usage the resource was declared with. -/
  | readDefault (resource : ResourceId) (name : String) (tweaks : List Tweak)
  | write (resource : ResourceId) (name : String) (usage : Usage) (tweaks : List Tweak)
  | create (blueprint : Blueprint) (name : String) (usage : Usage) (tweaks : List Tweak)
  | sideEffects (value : Bool)
  deriving DecidableEq, Repr

inductive PassReply where
  /-- The resource accessed, and whether the access gave the pass side effects. -/
  | access (resource : ResourceId) (marked : Bool)
  | done
  deriving DecidableEq, Repr

namespace Declaration

def resourceIds (d : Declaration) : List ResourceId :=
  (List.range d.resources.length).map ResourceId.mk

def passIds (d : Declaration) : List PassId := (List.range d.passes.length).map PassId.mk

def resource? (d : Declaration) (r : ResourceId) : Option Resource := d.resources[r.index]?

def pass? (d : Declaration) (p : PassId) : Option Pass := d.passes[p.index]?

def getResource (d : Declaration) (r : ResourceId) : Except Misuse Resource :=
  match d.resource? r with
  | some resource => .ok resource
  | none => .error (.unknownResource r)

def getPass (d : Declaration) (p : PassId) : Except Misuse Pass :=
  match d.pass? p with
  | some pass => .ok pass
  | none => .error (.unknownPass p)

def modifyPass (d : Declaration) (p : PassId) (f : Pass → Pass) : Declaration :=
  { d with passes := d.passes.modify p.index f }

def modifyResource (d : Declaration) (r : ResourceId) (f : Resource → Resource) : Declaration :=
  { d with resources := d.resources.modify r.index f }

def addPass (d : Declaration) (pass : Pass) : PassId × Declaration :=
  (⟨d.passes.length⟩, { d with passes := d.passes ++ [pass] })

def addResource (d : Declaration) (resource : Resource) : ResourceId × Declaration :=
  (⟨d.resources.length⟩, { d with resources := d.resources ++ [resource] })

def read (d : Declaration) (p : PassId) (r : ResourceId) (name : String) (usage : Usage)
    (tweaks : List Tweak) : Declaration :=
  let access := tweaks.foldl Tweak.onAccess { name, resource := r, usage }
  (d.modifyResource r fun resource =>
      tweaks.foldl Tweak.onResource { resource with lastReader := some p }).modifyPass p
    fun pass => { pass with reads := pass.reads ++ [access] }

/-- Writing an imported resource gives the pass side effects. -/
def write (d : Declaration) (p : PassId) (r : ResourceId) (imported : Bool) (name : String)
    (usage : Usage) (tweaks : List Tweak) : Declaration :=
  let access := tweaks.foldl Tweak.onAccess { name, resource := r, usage }
  (d.modifyResource r fun resource =>
      tweaks.foldl Tweak.onResource { resource with producer := some p }).modifyPass p
    fun pass => { pass with
      writes := pass.writes ++ [access], sideEffects := pass.sideEffects || imported }

def create (d : Declaration) (p : PassId) (queue : Queue) (blueprint : Blueprint) (name : String)
    (usage : Usage) (tweaks : List Tweak) : ResourceId × Declaration :=
  let (r, d) := d.addResource <| tweaks.foldl Tweak.onResource
    { name, origin := .transient queue, blueprint, usage, producer := some p }
  let access := tweaks.foldl Tweak.onAccess { name, resource := r, usage }
  (r, d.modifyPass p fun pass => { pass with creates := pass.creates ++ [access] })

/-- One call on the pass being declared. A call that fails changes nothing. -/
def state (d : Declaration) (p : PassId) (queue : Queue) :
    PassCall → Except Misuse (PassReply × Declaration)
  | .read r name usage tweaks => do
    let _ ← d.getResource r
    return (.access r false, d.read p r name usage tweaks)
  | .readDefault r name tweaks => do
    let resource ← d.getResource r
    return (.access r false, d.read p r name resource.usage tweaks)
  | .write r name usage tweaks => do
    let resource ← d.getResource r
    let imported := resource.origin.isImported
    return (.access r imported, d.write p r imported name usage tweaks)
  | .create blueprint name usage tweaks =>
    let (r, d) := d.create p queue blueprint name usage tweaks
    return (.access r false, d)
  | .sideEffects value =>
    return (.done, d.modifyPass p fun pass => { pass with sideEffects := value })

def stateAll (d : Declaration) (p : PassId) (queue : Queue) :
    List PassCall → List PassReply × Option Misuse × Declaration
  | [] => ([], none, d)
  | call :: rest =>
    match d.state p queue call with
    | .error misuse => ([], some misuse, d)
    | .ok (reply, d) =>
      let (replies, misuse, d) := d.stateAll p queue rest
      (reply :: replies, misuse, d)

end Declaration

/-- What declaring a pass comes to: the replies of its calls, and the misuse that ended them. -/
structure PassOutcome where
  pass : PassId
  replies : List PassReply
  misuse : Option Misuse
  deriving DecidableEq, Repr

/-- Declares a pass. Its recorder is bound only if every call went through. -/
def Declaration.declare (d : Declaration) (name : String) (queue : Queue) (calls : List PassCall)
    (recorder : Option (List ResourceId)) : PassOutcome × Declaration :=
  let (p, d) := d.addPass { name, queue }
  let (replies, misuse, d) := d.stateAll p queue calls
  let d := if misuse.isNone then d.modifyPass p ({ · with recorder }) else d
  (⟨p, replies, misuse⟩, d)

end RenderGraph
