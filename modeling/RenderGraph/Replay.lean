import RenderGraph.Scene
import RenderGraph.Schedule

/-! Replaying a schedule. A player owns the command lists and fences that the schedule names: one
set of lists for each frame in flight, and one fence more that is signalled at the end of every
frame. Fence values only grow, over frames too. Before a set of lists is used again the processor
waits for the frame that used it last. -/

namespace RenderGraph

/-- A fence and the last value given to it. -/
structure FenceSlot where
  fence : FenceKey
  queue : Queue
  value : Nat := 0
  deriving DecidableEq, Repr

structure Player where
  /-- The command lists by set, and within a set by list of the schedule. -/
  sets : List (List ListKey)
  /-- The value of the frame fence at the end of the frame that used each set last. -/
  setValues : List Nat
  fences : List FenceSlot
  frameFence : FenceSlot
  frames : Nat := 0
  deriving DecidableEq, Repr

structure Kit where
  lists : List ListKey := []
  fences : List FenceSlot := []
  deriving DecidableEq, Repr

namespace Kit

def addList (queue : Queue) : Op Kit Unit := do
  let list ← Op.call (.createList queue)
  Op.update fun kit => { kit with lists := kit.lists ++ [list] }

def addFence (queue : Queue) : Op Kit Unit := do
  let fence ← Op.call .createFence
  Op.update fun kit => { kit with fences := kit.fences ++ [{ fence, queue }] }

def fill (s : Schedule) (count : Nat) : Op Kit FenceKey := do
  (List.replicate count s.lists).flatten.forM addList
  s.fences.forM addFence
  Op.call .createFence

def sets (kit : Kit) (size count : Nat) : List (List ListKey) :=
  (List.range count).map fun i => (kit.lists.drop (i * size)).take size

end Kit

def Op.destroyLists {σ : Type} (lists : List ListKey) : Op σ Unit :=
  lists.forM fun list => Op.call (.destroyList list)

def Op.destroyFences {σ : Type} (fences : List FenceSlot) : Op σ Unit :=
  fences.forM fun slot => Op.call (.destroyFence slot.fence)

def Op.entry {σ α : Type} (entries : List α) (index : Nat) : Op σ α :=
  match entries[index]? with
  | some entry => pure entry
  | none => Op.fail (.misuse (.outOfRange entries.length index))

def Op.allow {σ α : Type} : Except Misuse α → Op σ α
  | .ok a => pure a
  | .error misuse => Op.fail (.misuse misuse)

namespace Player

/-- A player for a schedule, with as many sets of lists as frames in flight and at least one. If
the device fails on the way, what was made is destroyed. -/
def make {σ : Type} (s : Schedule) (frameCount : Nat) : Op σ Player := do
  let count := max frameCount 1
  let (result, kit) ← Op.aside (Kit.fill s count) {}
  match result with
  | .ok fence =>
    return {
      sets := kit.sets s.lists.length count
      setValues := List.replicate count 0
      fences := kit.fences
      frameFence := { fence, queue := .graphics } }
  | .error failure =>
    Op.destroyLists kit.lists
    Op.destroyFences kit.fences
    Op.fail failure

def nextSet (p : Player) : Nat := p.frames % p.sets.length

def list? (p : Player) (set : Nat) (list : ListId) : Option ListKey :=
  (p.sets[set]?).bind (·[list.index]?)

def fence? (p : Player) (fence : FenceId) : Option FenceSlot := p.fences[fence.index]?

/-- The slots in the order in which the processor waits for them. -/
def slots (p : Player) : List FenceSlot := p.fences ++ [p.frameFence]

structure Frame where
  schedule : Schedule
  scene : Scene
  frameIndex : Nat
  lists : List ListKey
  deriving DecidableEq, Repr

namespace Frame

def resolve {σ : Type} (f : Frame) (barrier : Barrier) : Op σ DeviceBarrier := do
  let resource ← Op.allow (f.scene.declaration.getResource barrier.resource)
  match f.scene.native? barrier.resource f.frameIndex with
  | none => Op.fail (.unbound resource.name)
  | some native =>
    match barrier with
    | .transition t => return .transition native t.before t.after t.hints
    | .unordered _ => return .unordered native

def record {σ : Type} (f : Frame) (list : ListKey) (p : PassId) (pass : Pass) : Op σ Unit := do
  match pass.recorder with
  | none => pure ()
  | some resources =>
    let bindings ← resources.mapM fun r => Op.allow (f.scene.binding f.frameIndex r)
    Op.onRig (·.record (.recording ⟨p, pass.name, pass.queue, list, f.frameIndex, bindings⟩))

end Frame

/-- Raises the value of a fence by one; the value counts as given even if the signal fails. -/
def raise (fence : Nat) : Op Player FenceSlot := do
  let slot ← Op.entry (← Op.read).fences fence
  let slot := { slot with value := slot.value + 1 }
  Op.update fun p => { p with fences := p.fences.set fence slot }
  return slot

def step (f : Frame) : Event → Op Player Unit
  | .openList _ list => do
    let list ← Op.entry f.lists list.index
    Op.call (.resetList list)
  | .barriers list batch => do
    let barriers ← batch.mapM f.resolve
    let list ← Op.entry f.lists list.index
    Op.call (.barrier list barriers)
  | .record list p => do
    let pass ← Op.allow (f.scene.declaration.getPass p)
    let list ← Op.entry f.lists list.index
    f.record list p pass
  | .submit list => do
    let queue ← Op.entry f.schedule.lists list.index
    let list ← Op.entry f.lists list.index
    Op.call (.submit queue list)
  | .sync signal wait fence => do
    let slot ← raise fence.index
    Op.call (.signal signal slot.fence slot.value)
    Op.call (.wait wait slot.fence slot.value)

/-- Makes the graphics queue wait for everything the fence's queue has been given. -/
def gather (fence : Nat) : Op Player Unit := do
  let slot ← raise fence
  Op.call (.signal slot.queue slot.fence slot.value)
  Op.call (.wait .graphics slot.fence slot.value)

/-- Signals the frame fence and remembers its value for the set of lists. -/
def closeFrame (set : Nat) : Op Player Unit := do
  Op.update fun p =>
    { p with frameFence := { p.frameFence with value := p.frameFence.value + 1 } }
  let slot := (← Op.read).frameFence
  Op.call (.signal slot.queue slot.fence slot.value)
  Op.update fun p =>
    { p with setValues := p.setValues.set set slot.value, frames := p.frames + 1 }

/-- Waits until the frame that used a set of lists last has finished. -/
def reclaim (set : Nat) : Op Player Unit := do
  let p ← Op.read
  let value := p.setValues.getD set 0
  if 0 < value then Op.call (.waitCpu p.frameFence.fence value)

def play (s : Schedule) (scene : Scene) (frameIndex : Nat) : Op Player Unit := do
  let p ← Op.read
  let set := p.nextSet
  reclaim set
  let frame : Frame := ⟨s, scene, frameIndex, p.sets.getD set []⟩
  s.events.forM (step frame)
  (List.range p.fences.length).forM gather
  closeFrame set

def drain {σ : Type} (p : Player) : Op σ Unit :=
  p.slots.forM fun slot =>
    if 0 < slot.value then Op.call (.waitCpu slot.fence slot.value) else pure ()

def destroy {σ : Type} (p : Player) : Op σ Unit := do
  Op.destroyLists p.sets.flatten
  Op.destroyFences p.slots

end Player

end RenderGraph
