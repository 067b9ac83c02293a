import RenderGraph.Device.Command

/-! A device that does no work of its own: it hands out keys, knows what is alive, completes a
fence as soon as it is signalled, and records a command for every call that goes through. A call
that it refuses changes nothing. -/

namespace RenderGraph

inductive Refusal where
  | unknownList (list : ListKey)
  | foreignList (owner : Queue) (list : ListKey) (queue : Queue)
  | unknownResource (resource : ResourceKey)
  | unknownFence (fence : FenceKey)
  | staleSignal (fence : FenceKey) (value current : Nat)
  | unreachable (fence : FenceKey) (value current : Nat)
  | noMemory
  deriving DecidableEq, Repr

def Refusal.error : Refusal → DeviceError
  | unknownList list => .commandList s!"unknown command list {list.raw}"
  | foreignList owner list queue =>
    .commandList s!"{owner.name} command list {list.raw} submitted to {queue.name} queue"
  | unknownResource resource => .viewCreation s!"unknown resource {resource.raw}"
  | unknownFence fence => .fence s!"unknown fence {fence.raw}"
  | staleSignal fence value current =>
    .fence s!"fence {fence.raw} signalled with {value}, already at {current}"
  | unreachable fence value current =>
    .fence s!"fence {fence.raw} is at {current} and will never reach {value}"
  | noMemory => .outOfMemory

/-- Keys are numbered from one by a single counter. Fences keep the last value signalled. -/
structure Device where
  lastKey : Nat := 0
  refusesResources : Bool := false
  lists : List (ListKey × Queue) := []
  resources : List ResourceKey := []
  views : List (ViewKind × ViewKey) := []
  fences : List (FenceKey × Nat) := []
  history : Array Command := #[]
  deriving DecidableEq, Repr

namespace Device

def name : String := "Dummy"

def nextKey (d : Device) : Nat := d.lastKey + 1

def skipKey (d : Device) : Device := { d with lastKey := d.nextKey }

def fenceValue? (d : Device) (fence : FenceKey) : Option Nat := d.fences.lookup fence

def setFence (d : Device) (fence : FenceKey) (value : Nat) : Device :=
  { d with fences := d.fences.map fun entry => if entry.1 = fence then (fence, value) else entry }

def ownerOf (d : Device) (list : ListKey) : Except Refusal Queue :=
  match d.lists.lookup list with
  | some queue => .ok queue
  | none => .error (.unknownList list)

/-- The answer to a call, the command to record and the tables afterwards. -/
def respond (d : Device) : (c : Call) → Except Refusal (c.Reply × Command × Device)
  | .createList queue =>
    let list : ListKey := ⟨d.nextKey⟩
    .ok (list, .createList list queue, { d.skipKey with lists := d.lists ++ [(list, queue)] })
  | .resetList list => do
    let _ ← d.ownerOf list
    .ok ((), .resetList list, d)
  | .barrier list barriers => .ok ((), .barrier list barriers, d)
  | .submit queue list => do
    let owner ← d.ownerOf list
    if owner = queue then .ok ((), .submit queue list, d)
    else .error (.foreignList owner list queue)
  | .destroyList list =>
    .ok ((), .destroyList list, { d with lists := d.lists.filter (·.1 ≠ list) })
  | .createResource request =>
    if d.refusesResources then .error .noMemory
    else
      let resource : ResourceKey := ⟨d.nextKey⟩
      .ok (resource, .createResource resource request,
        { d.skipKey with resources := d.resources ++ [resource] })
  | .destroyResource resource =>
    .ok ((), .destroyResource resource, { d with resources := d.resources.filter (· ≠ resource) })
  | .createView resource kind spec =>
    if resource ∈ d.resources then
      let view : ViewKey := ⟨d.nextKey⟩
      .ok (view, .createView resource kind view spec,
        { d.skipKey with views := d.views ++ [(kind, view)] })
    else .error (.unknownResource resource)
  | .freeView kind view =>
    .ok ((), .freeView kind view, { d with views := d.views.filter (· ≠ (kind, view)) })
  | .createFence =>
    let fence : FenceKey := ⟨d.nextKey⟩
    .ok (fence, .createFence fence, { d.skipKey with fences := d.fences ++ [(fence, 0)] })
  | .signal queue fence value =>
    match d.fenceValue? fence with
    | none => .error (.unknownFence fence)
    | some current =>
      if value ≤ current then .error (.staleSignal fence value current)
      else .ok ((), .signal queue fence value, d.setFence fence value)
  | .wait queue fence value =>
    match d.fenceValue? fence with
    | none => .error (.unknownFence fence)
    | some _ => .ok ((), .wait queue fence value, d)
  | .waitCpu fence value =>
    match d.fenceValue? fence with
    | none => .error (.unknownFence fence)
    | some current =>
      if value ≤ current then .ok ((), .waitCpu fence value, d)
      else .error (.unreachable fence value current)
  | .destroyFence fence =>
    .ok ((), .destroyFence fence, { d with fences := d.fences.filter (·.1 ≠ fence) })

def record (d : Device) (command : Command) : Device :=
  { d with history := d.history.push command }

def perform (d : Device) (c : Call) : Except DeviceError c.Reply × Device :=
  match d.respond c with
  | .ok (reply, command, after) => (.ok reply, after.record command)
  | .error refusal => (.error refusal.error, d)

def clearHistory (d : Device) : Device := { d with history := #[] }

end Device

end RenderGraph
