import RenderGraph.Id
import RenderGraph.Text.Quoted

/-! The ways in which an operation can fail, and the wording of each. -/

namespace RenderGraph

open Text (quote)

inductive DeviceError where
  | resourceCreation (reason : String)
  | viewCreation (reason : String)
  | commandList (reason : String)
  | fence (reason : String)
  | outOfMemory
  | deviceLost
  deriving DecidableEq, Repr

def DeviceError.message : DeviceError → String
  | resourceCreation reason => "resource creation failed: " ++ reason
  | viewCreation reason => "view creation failed: " ++ reason
  | commandList reason => "command list operation failed: " ++ reason
  | fence reason => "fence operation failed: " ++ reason
  | outOfMemory => "out of GPU memory"
  | deviceLost => "GPU device lost"

/-- A caller that broke its side of the contract. -/
inductive Misuse where
  | unknownResource (resource : ResourceId)
  | unknownPass (pass : PassId)
  | notImported (name : String)
  | sizeOverflow
  | outOfRange (length index : Nat)
  deriving DecidableEq, Repr

def Misuse.message : Misuse → String
  | unknownResource resource => "Invalid resource handle " ++ resource.text
  | unknownPass pass => "Invalid pass handle " ++ pass.text
  | notImported name => "Resource " ++ quote name ++ " is not imported"
  | sizeOverflow => "attempt to multiply with overflow"
  | outOfRange length index =>
    "index out of bounds: the len is " ++ toString length ++ " but the index is " ++ toString index

inductive Failure where
  /-- No pass is left to schedule. -/
  | allPassesCulled
  /-- A pass uses a transient resource before any pass has created it. -/
  | readBeforeCreate (pass resource : String)
  /-- A scheduled resource has nothing behind it on the device. -/
  | unbound (resource : String)
  | notCompiled
  | device (cause : DeviceError)
  | misuse (cause : Misuse)
  deriving DecidableEq, Repr

def Failure.message : Failure → String
  | allPassesCulled => "every pass was culled; the frame graph has no live output"
  | readBeforeCreate pass resource =>
    "pass " ++ quote pass ++ " uses resource " ++ quote resource ++ " before it is created"
  | unbound resource => "resource " ++ quote resource ++ " has no native resource bound"
  | notCompiled => "the frame graph has not been compiled"
  | device cause => cause.message
  | misuse cause => cause.message

end RenderGraph
