import RenderGraph.Device
import RenderGraph.Journal
import RenderGraph.Recording

/-! A rig is a device together with the failures planned for it, the traffic it has seen and the
journal. Every operation of a graph talks to its rig. -/

namespace RenderGraph

inductive Method where
  | createList
  | resetList
  | submit
  | createResource
  | createView
  | createFence
  | signal
  | wait
  | waitCpu
  deriving DecidableEq, Repr

namespace Method

def name : Method → String
  | createList => "create_command_list"
  | resetList => "reset_command_list"
  | submit => "submit"
  | createResource => "create_resource"
  | createView => "create_view"
  | createFence => "create_fence"
  | signal => "signal"
  | wait => "wait"
  | waitCpu => "wait_cpu"

def all : List Method :=
  [createList, resetList, submit, createResource, createView, createFence, signal, wait, waitCpu]

end Method

def Call.method? : Call → Option Method
  | createList _ => some .createList
  | resetList _ => some .resetList
  | submit .. => some .submit
  | createResource _ => some .createResource
  | createView .. => some .createView
  | createFence => some .createFence
  | signal .. => some .signal
  | wait .. => some .wait
  | waitCpu .. => some .waitCpu
  | _ => none

/-- Lets `skip` calls of the method through, then fails `count` of them. -/
structure Fault where
  method : Method
  skip : Nat := 0
  count : Nat := 1
  error : DeviceError
  deriving DecidableEq, Repr

/-- The first fault of the method that is not used up decides over a call. -/
def Fault.screen (method : Method) : List Fault → Option DeviceError × List Fault
  | [] => (none, [])
  | fault :: rest =>
    if fault.method = method ∧ 0 < fault.count then
      if 0 < fault.skip then (none, { fault with skip := fault.skip - 1 } :: rest)
      else (some fault.error, { fault with count := fault.count - 1 } :: rest)
    else
      let (verdict, rest) := screen method rest
      (verdict, fault :: rest)

inductive Traffic where
  | command (command : Command)
  | refused (method : Method)
  | recording (recording : Recording)
  deriving DecidableEq, Repr

structure Rig where
  device : Device := {}
  faults : List Fault := []
  traffic : Array Traffic := #[]
  journal : Journal := {}
  deriving DecidableEq, Repr

namespace Rig

def note (rig : Rig) (level : Level) (text : String) : Rig :=
  { rig with journal := rig.journal.write level text }

def noteAll (rig : Rig) (lines : List LogLine) : Rig :=
  { rig with journal := rig.journal.writeAll lines }

def record (rig : Rig) (traffic : Traffic) : Rig :=
  { rig with traffic := rig.traffic.push traffic }

/-- Whether the call asks for a resource whose size the journal would have to state and cannot. -/
def overflows (rig : Rig) : Call → Bool
  | .createResource request =>
    !rig.device.refusesResources && rig.journal.keeps .trace && request.blueprint.byteSize?.isNone
  | _ => false

def refusalNote (rig : Rig) : Call → Rig
  | .createResource request =>
    rig.note .trace ("DummyDevice: failing creation of " ++ Text.quote request.name)
  | _ => rig

def forward (rig : Rig) (c : Call) : Except Failure c.Reply × Rig :=
  if rig.overflows c then
    (.error (.misuse .sizeOverflow), { rig with device := rig.device.skipKey })
  else match rig.device.respond c with
    | .ok (reply, command, device) =>
      (.ok reply,
        ({ rig with device := device.record command }.record (.command command)).note .trace
          ("DummyDevice: " ++ command.text))
    | .error refusal => (.error (.device refusal.error), rig.refusalNote c)

/-- Fails a call that a fault is due for, and passes every other one on. -/
def call (rig : Rig) (c : Call) : Except Failure c.Reply × Rig :=
  match c.method? with
  | none => rig.forward c
  | some method =>
    match Fault.screen method rig.faults with
    | (some error, faults) =>
      (.error (.device error), { rig with faults := faults }.record (.refused method))
    | (none, faults) => { rig with faults := faults }.forward c

end Rig

end RenderGraph
