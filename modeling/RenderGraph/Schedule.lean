import RenderGraph.Hints
import RenderGraph.Id
import RenderGraph.Queue
import RenderGraph.Text.Record

/-! A schedule is the list of events that is replayed every frame, together with the queues of the
command lists and fences it names and the states it leaves the resources in. -/

namespace RenderGraph

structure Transition where
  resource : ResourceId
  before : ResourceState
  after : ResourceState
  hints : Hints := {}
  deriving DecidableEq, Repr

inductive Barrier where
  | transition (t : Transition)
  /-- Orders an unordered write before later accesses that need no change of state. -/
  | unordered (resource : ResourceId)
  deriving DecidableEq, Repr

namespace Barrier

def resource : Barrier → ResourceId
  | transition t => t.resource
  | unordered r => r

def text : Barrier → String
  | transition t => s!"{t.resource.text}: {t.before.text} -> {t.after.text}"
  | unordered r => r.text ++ ": UAV"

end Barrier

inductive Event where
  | openList (queue : Queue) (list : ListId)
  | barriers (list : ListId) (batch : List Barrier)
  | record (list : ListId) (pass : PassId)
  | submit (list : ListId)
  /-- Queue `signal` signals the fence, queue `wait` waits for it. -/
  | sync (signal wait : Queue) (fence : FenceId)
  deriving DecidableEq, Repr

namespace Event

def text : Event → String
  | openList queue list => s!"OpenCommands({queue.name}, {list.text})"
  | barriers list batch =>
    Text.wrapped "ResourceBarrier" (", ".intercalate (list.text :: batch.map Barrier.text))
  | record list pass => s!"RecordCommands({list.text}, {pass.text})"
  | submit list => s!"SubmitCommands({list.text})"
  | sync signal wait fence => s!"DeviceSync({signal.name} -> {wait.name}, {fence.text})"

def recorded? : Event → Option PassId
  | record _ pass => some pass
  | _ => none

def batch : Event → List Barrier
  | barriers _ batch => batch
  | _ => []

def opened? : Event → Option ListId
  | openList _ list => some list
  | _ => none

def syncFence? : Event → Option FenceId
  | sync _ _ fence => some fence
  | _ => none

end Event

structure Schedule where
  events : List Event := []
  /-- The queue of every command list, by list. -/
  lists : List Queue := []
  /-- The signalling queue of every fence, by fence. -/
  fences : List Queue := []
  finalStates : List (Option ResourceState) := []
  deriving DecidableEq, Repr

namespace Schedule

def recordedPasses (s : Schedule) : List PassId := s.events.filterMap Event.recorded?

def openedLists (s : Schedule) : List ListId := s.events.filterMap Event.opened?

def barriers (s : Schedule) : List Barrier := s.events.flatMap Event.batch

def syncFences (s : Schedule) : List FenceId :=
  (s.events.filterMap Event.syncFence?).eraseDups

def syncCount (s : Schedule) : Nat := (s.events.filterMap Event.syncFence?).length

def mentions (s : Schedule) (r : ResourceId) : Bool := s.barriers.any (·.resource == r)

/-- The state the schedule leaves a resource in, where it keeps track of it. -/
def finalState (s : Schedule) (r : ResourceId) : Option ResourceState :=
  (s.finalStates[r.index]?).join

def listQueue? (s : Schedule) (list : ListId) : Option Queue := s.lists[list.index]?

def position (n : Nat) : String :=
  let digits := toString n
  "".pushn ' ' (4 - digits.length) ++ digits

def textLines (s : Schedule) : List String :=
  s.events.zipIdx.map fun (event, i) => position i ++ ": " ++ event.text

def text (s : Schedule) : String := String.join (s.textLines.map (· ++ "\n"))

end Schedule

end RenderGraph
