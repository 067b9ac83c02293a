import RenderGraph.Culling
import RenderGraph.Schedule.Draft

/-! Making a schedule. The surviving passes are recorded in the order of declaration. Each one
enters its queue, waits for the other queues it depends on, has its barriers made in one batch and
is recorded. At the end, whatever has to be left in a certain state is brought there in one last
batch, so that the schedule can be replayed from the states it started with. -/

namespace RenderGraph

inductive Unschedulable where
  | nothingLive
  /-- A pass uses a transient resource that no pass has created yet. -/
  | premature (pass : PassId) (resource : ResourceId)
  deriving DecidableEq, Repr

structure Use where
  ordinal : Nat
  queue : Queue
  state : ResourceState
  output : Bool
  deriving DecidableEq, Repr

/-- What scheduling goes by: the resources, the surviving passes, and whether a read on the
graphics queue may be widened to the state of the next one. -/
structure Brief where
  declaration : Declaration
  survival : Survival
  mergesReads : Bool
  deriving DecidableEq, Repr

namespace Brief

def live (b : Brief) : List (PassId × Pass) := b.declaration.survivors b.survival

/-- Every use of a resource, pass by pass, the reads of a pass before its outputs. -/
def usesOf (b : Brief) (r : ResourceId) : List Use :=
  b.live.zipIdx.flatMap fun ((_, pass), ordinal) =>
    (pass.reads.filter (·.resource == r)).map
      (fun a => ⟨ordinal, pass.queue, a.state, false⟩) ++
    (pass.outputs.filter (·.resource == r)).map
      (fun a => ⟨ordinal, pass.queue, a.state, true⟩)

/-- The state to bring a resource into for an access: the required one, or for a read on the
graphics queue the union with the state of the next use if that is such a read too. -/
def targetState (b : Brief) (ordinal : Nat) (queue : Queue) (a : Access) (output : Bool) :
    ResourceState :=
  if output || queue != .graphics || !b.mergesReads || !a.state.isReadOnly then a.state
  else match (b.usesOf a.resource).find? (ordinal < ·.ordinal) with
    | some next =>
      if next.queue == .graphics && !next.output && next.state.isReadOnly then
        a.state ∪ next.state
      else a.state
    | none => a.state

/-- States at the start: imported resources and live managed ones are in their initial state. -/
def startTracks (b : Brief) : List Track :=
  b.declaration.resources.zipIdx.map fun (resource, i) =>
    match resource.origin with
    | .imported _ => { state := some resource.initialState }
    | .managed =>
      { state := if b.survival.isLive ⟨i⟩ then some resource.initialState else none }
    | .transient _ => {}

end Brief

/-- Adds a read-only state to the first transition of the resource into a read-only state. -/
def widen (r : ResourceId) (required : ResourceState) :
    List Barrier → Option (ResourceState × List Barrier)
  | [] => none
  | barrier :: rest =>
    match barrier with
    | .transition t =>
      if t.resource = r ∧ t.after.isReadOnly = true ∧ required.isReadOnly = true then
        let after := t.after ∪ required
        some (after, .transition { t with after } :: rest)
      else (widen r required rest).map fun (after, rest) => (after, .transition t :: rest)
    | other => (widen r required rest).map fun (after, rest) => (after, other :: rest)

structure Demand where
  queue : Queue
  access : Access
  output : Bool
  target : ResourceState
  deriving DecidableEq, Repr

structure Serving where
  track : Track
  batch : List Barrier
  deriving DecidableEq, Repr

namespace Demand

def required (d : Demand) : ResourceState := d.access.state

def writesUnordered (d : Demand) : Bool := d.output && d.access.usage.isUnorderedWrite

/-- The pending write that an access leaves behind, given the one it found. -/
def leaves (d : Demand) (pending : Option Queue) : Option Queue :=
  if d.writesUnordered then some d.queue else pending

/-- Brings the resource from its current state into one that satisfies the access: within a
transition already in the batch, or by a transition of its own. -/
def transit (d : Demand) (current : ResourceState) (s : Serving) : Serving :=
  let (after, batch) := match widen d.access.resource d.required s.batch with
    | some widened => widened
    | none =>
      (d.target, s.batch ++ [.transition ⟨d.access.resource, current, d.target, d.access.hints⟩])
  ⟨{ s.track with state := some after, pendingWrite := d.leaves none }, batch⟩

/-- Serves one access to a resource in the given state. The copy queue records no transitions:
there the resource passes into the required state by itself. A pending write from another queue
has been waited for; one from the same queue needs a barrier unless the state changes anyway. -/
def serve (d : Demand) (current : ResourceState) (s : Serving) : Serving :=
  if !d.queue.recordsTransitions then
    { s with track :=
      { s.track with state := some d.required, pendingWrite := d.leaves none } }
  else
    let pending := s.track.pendingWrite.filter (· == d.queue)
    if !current.satisfies d.required then d.transit current s
    else
      ⟨{ s.track with pendingWrite := d.leaves none },
        if pending.isSome then s.batch ++ [.unordered d.access.resource] else s.batch⟩

end Demand

namespace Draft

def create (d : Draft) (queue : Queue) (a : Access) : Draft :=
  d.modifyTrack a.resource fun track =>
    { track with
      state := some a.state
      pendingWrite := if a.usage.isUnorderedWrite then some queue else none }

def serveAll (b : Brief) (ordinal : Nat) (queue : Queue) (output : Bool) :
    List Access → Draft × List Barrier → Except ResourceId (Draft × List Barrier)
  | [], served => .ok served
  | a :: rest, (d, batch) =>
    match (d.track a.resource).state with
    | none => .error a.resource
    | some current =>
      let demand : Demand := ⟨queue, a, output, b.targetState ordinal queue a output⟩
      let served := demand.serve current ⟨d.track a.resource, batch⟩
      serveAll b ordinal queue output rest
        (d.modifyTrack a.resource fun _ => served.track, served.batch)

def remember (d : Draft) (this : PassRef) (pass : Pass) : Draft :=
  let d := pass.reads.foldl (fun d a =>
    d.modifyTrack a.resource fun t => { t with readers := t.readers ++ [this] }) d
  let d := pass.outputs.foldl (fun d a =>
    d.modifyTrack a.resource fun t => { t with lastWriter := some this, readers := [] }) d
  { d with lastOn := d.lastOn.set this.queue (some this.ordinal) }

/-- What a pass depends on, each resource with whether the pass outputs to it. -/
def footprint (pass : Pass) : List (ResourceId × Bool) :=
  pass.reads.map (fun a => (a.resource, false)) ++ pass.outputs.map fun a => (a.resource, true)

def emitBatch (d : Draft) (list : ListId) (batch : List Barrier) : Draft :=
  if batch.isEmpty then d else d.emit (.barriers list batch)

def recordPass (b : Brief) (d : Draft) (ordinal : Nat) (p : PassId) (pass : Pass) :
    Except ResourceId Draft := do
  let (list, d) := d.enter pass.queue
  let d := d.syncAll pass.queue (footprint pass)
  let d := pass.creates.foldl (·.create pass.queue ·) d
  let served ← serveAll b ordinal pass.queue false pass.reads (d, [])
  let (d, batch) ← serveAll b ordinal pass.queue true pass.writes served
  return ((d.emitBatch list batch).emit (.record list p)).remember ⟨ordinal, pass.queue⟩ pass

def recordAll (b : Brief) : Nat → List (PassId × Pass) → Draft → Except Unschedulable Draft
  | _, [], d => .ok d
  | ordinal, (p, pass) :: rest, d =>
    match d.recordPass b ordinal p pass with
    | .error r => .error (.premature p r)
    | .ok d => recordAll b (ordinal + 1) rest d

/-- The transition that brings a live resource into the state it has to be left in. -/
def restores (b : Brief) (d : Draft) (r : ResourceId) (resource : Resource) : Option Transition :=
  match b.survival.isLive r, resource.restoreState, (d.track r).state with
  | true, some target, some current =>
    if current = target then none else some ⟨r, current, target, {}⟩
  | _, _, _ => none

def restoration (b : Brief) (d : Draft) : List Transition :=
  b.declaration.resources.zipIdx.filterMap fun (resource, i) => d.restores b ⟨i⟩ resource

/-- The queue of the open list, if it supports every transition, and the graphics queue if not. -/
def restoreQueue (d : Draft) (restore : List Transition) : Queue :=
  match d.current with
  | some (queue, _) =>
    if restore.all fun t => queue.supports t.before && queue.supports t.after then queue
    else .graphics
  | none => .graphics

def restoreAll (d : Draft) (restore : List Transition) : Draft :=
  if restore.isEmpty then d
  else
    let queue := d.restoreQueue restore
    let (list, d) := d.enter queue
    let d := d.syncAll queue (restore.map fun t => (t.resource, true))
    let d := restore.foldl (fun d t =>
      d.modifyTrack t.resource fun track => { track with state := some t.after }) d
    d.emit (.barriers list (restore.map .transition))

def submitCurrent (d : Draft) : Draft :=
  match d.current with
  | some (_, list) => d.emit (.submit list)
  | none => d

def toSchedule (d : Draft) : Schedule :=
  { events := d.events, lists := d.lists, fences := d.fences
    finalStates := d.tracks.map (·.state) }

end Draft

namespace Brief

/-- The draft after the last pass, before anything is restored. -/
def draft (b : Brief) : Except Unschedulable Draft :=
  if b.live.isEmpty then .error .nothingLive
  else Draft.recordAll b 0 b.live { tracks := b.startTracks }

def finish (b : Brief) (d : Draft) : Schedule :=
  (d.restoreAll (d.restoration b)).submitCurrent.toSchedule

def schedule (b : Brief) : Except Unschedulable Schedule := b.draft.map b.finish

def passLine (pass : Pass) : LogLine :=
  ⟨.trace, s!"Scheduling pass {Text.quote pass.name} on {pass.queue.name}"⟩

def attempted (b : Brief) (stop : PassId) : List Pass :=
  (b.live.filter fun (p, _) => p.index ≤ stop.index).map Prod.snd

def finishLines (b : Brief) (d : Draft) : List LogLine :=
  let restore := d.restoration b
  let schedule := b.finish d
  (if restore.isEmpty then []
    else [⟨.trace,
      s!"Restoring {restore.length} resource(s) on {(d.restoreQueue restore).name}"⟩]) ++
  [⟨.debug, s!"Scheduled {b.live.length} passes into {schedule.events.length} events on " ++
    s!"{schedule.lists.length} command list(s) with {schedule.fences.length} fence(s)"⟩]

def lines (b : Brief) : List LogLine :=
  match b.draft with
  | .error .nothingLive => [⟨.error, "Every pass of the frame graph was culled"⟩]
  | .error (.premature p _) => (b.attempted p).map passLine
  | .ok d => b.live.map (passLine ·.2) ++ b.finishLines d

def failure (b : Brief) : Unschedulable → Failure
  | .nothingLive => .allPassesCulled
  | .premature p r =>
    .readBeforeCreate (b.declaration.passName p)
      ((b.declaration.resource? r).elim "" (·.name))

end Brief

end RenderGraph
