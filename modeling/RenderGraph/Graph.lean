import RenderGraph.Replay
import RenderGraph.Schedule.Synthesis

/-! The render graph. A frame is declared once, compiled once and then executed every frame, until
its passes or resources change. Compiling culls the passes, makes the live resources resident,
makes the schedule and the player for it. -/

namespace RenderGraph

structure Config where
  /-- Frames in flight, and so copies of every buffered resource. -/
  frameCount : Nat := 2
  /-- Whether a read on the graphics queue may be widened to the state of the next one. -/
  mergesReads : Bool := true
  /-- Whether every schedule is written to the journal. -/
  tracesSchedule : Bool := false
  deriving DecidableEq, Repr, Inhabited

namespace Config

def withFrameCount (c : Config) (n : Nat) : Config := { c with frameCount := max n 1 }

def withMergesReads (c : Config) (b : Bool) : Config := { c with mergesReads := b }

def withTracesSchedule (c : Config) (b : Bool) : Config := { c with tracesSchedule := b }

end Config

/-- A schedule in use, with the player that replays it. -/
structure Compilation where
  schedule : Schedule
  player : Player
  /-- Whether a frame has been replayed to its end. -/
  executed : Bool := false
  deriving DecidableEq, Repr

structure Graph where
  config : Config := {}
  declaration : Declaration := {}
  survival : Survival := {}
  /-- The views wanted of each resource by the last compilation. -/
  wanted : List ViewMask := []
  residency : Residency := []
  compilation : Option Compilation := none
  /-- Whether the declaration has changed since the last compilation. -/
  dirty : Bool := false
  frameIndex : Nat := 0
  /-- Values kept for the device, by name. -/
  deviceData : List (String × UInt64) := []
  deriving DecidableEq, Repr

namespace Graph

/-! Declaring -/

def addResource (g : Graph) (resource : Resource) : ResourceId × Graph :=
  let (r, declaration) := g.declaration.addResource resource
  (r, { g with declaration, dirty := true })

/-- Declares a resource that the caller owns. It is in the state of `usage` when a frame starts and
is left in that of `finalUsage`, or else in the same state, when it ends. -/
def importResource (g : Graph) (name : String) (blueprint : Blueprint) (usage : Usage)
    (finalUsage : Option Usage) (native : ResourceKey) : ResourceId × Graph :=
  g.addResource { name, origin := .imported { native }, blueprint, usage, finalUsage }

/-- Declares a resource that the graph owns and whose contents last from frame to frame. -/
def manage (g : Graph) (name : String) (blueprint : Blueprint) (usage : Usage) :
    ResourceId × Graph :=
  g.addResource { name, origin := .managed, blueprint, usage }

def declare (g : Graph) (name : String) (queue : Queue) (calls : List PassCall)
    (recorder : Option (List ResourceId)) : PassOutcome × Graph :=
  let (outcome, declaration) := g.declaration.declare name queue calls recorder
  (outcome, { g with declaration, dirty := true })

def rebind (g : Graph) (r : ResourceId) (f : Copy → Copy) : Except Misuse Graph := do
  let resource ← g.declaration.getResource r
  match resource.origin with
  | .imported bound =>
    let declaration := g.declaration.modifyResource r ({ · with origin := .imported (f bound) })
    return { g with declaration }
  | _ => throw (.notImported resource.name)

/-- Binds another native resource; the views bound before belong to the old one and go. -/
def update (g : Graph) (r : ResourceId) (native : ResourceKey) : Except Misuse Graph :=
  g.rebind r fun _ => { native }

def updateView (g : Graph) (r : ResourceId) (kind : ViewKind) (view : ViewKey) :
    Except Misuse Graph :=
  g.rebind r fun bound => { bound with views := bound.views.set kind (some view) }

/-! Asking -/

def scene (g : Graph) : Scene := ⟨g.declaration, g.residency⟩

def schedule? (g : Graph) : Option Schedule := g.compilation.map (·.schedule)

def isCompiled (g : Graph) : Bool := g.compilation.isSome && !g.dirty

def isPassLive (g : Graph) (p : PassId) : Except Misuse Bool := do
  return g.survival.uses p (← g.declaration.getPass p)

def isResourceLive (g : Graph) (r : ResourceId) : Except Misuse Bool := do
  let _ ← g.declaration.getResource r
  return g.survival.isLive r

def lookUp (g : Graph) (r : ResourceId) :
    Except Misuse (Option ResourceKey × PerView (Option ViewKey)) := do
  let _ ← g.declaration.getResource r
  return (g.scene.native? r g.frameIndex, g.scene.views r g.frameIndex)

def wantedViews (g : Graph) (r : ResourceId) : ViewMask := g.wanted.getD r.index .none

/-- The state a resource is in between frames: where the last frame left it, and before the first
one its initial state. A transient resource has none outside a frame. -/
def currentState (g : Graph) (r : ResourceId) : Option ResourceState :=
  match g.compilation with
  | some { schedule, executed := true, .. } => schedule.finalState r
  | _ =>
    match g.declaration.resource? r with
    | some resource => if resource.origin.isTransient then none else some resource.initialState
    | none => none

def brief (g : Graph) (mergesReads : Bool) : Brief := ⟨g.declaration, g.survival, mergesReads⟩

/-! Frames in flight -/

def setFrameIndex (g : Graph) (n : Nat) : Graph :=
  { g with frameIndex := n % max g.config.frameCount 1 }

/-! Running -/

def create (config : Config) : Op Graph Unit := do
  Op.update fun _ => { config }
  Op.note .debug
    s!"Creating frame graph on {Device.name} device ({config.frameCount} frames in flight)"

def drain : Op Graph Unit := do
  match (← Op.read).compilation with
  | some compilation => compilation.player.drain
  | none => pure ()

def releaseResidency : Op Graph Unit :=
  Op.within residency (fun residency g => { g with residency }) Residency.releaseAll

/-- Waits for the device and gives up everything that compiling made. -/
def release : Op Graph Unit := do
  drain
  if let some compilation := (← Op.read).compilation then
    compilation.player.destroy
  releaseResidency
  Op.update ({ · with compilation := none })

def cull : Op Graph CullResult := do
  let g ← Op.read
  let result := g.declaration.cull
  Op.onRig (·.noteAll (g.declaration.cullLines result))
  Op.update ({ · with
    survival := result.survival
    wanted := g.declaration.resourceIds.map (g.declaration.wantedViews result.survival) })
  return result

def placeResources : Op Graph Unit := do
  let g ← Op.read
  let orders := g.declaration.orders g.survival g.config.frameCount
  Op.within residency (fun residency g => { g with residency }) (Residency.placeAll orders)

/-- Makes a schedule and writes down how. -/
def makeSchedule {σ : Type} (b : Brief) : Op σ Schedule := do
  Op.onRig (·.noteAll b.lines)
  match b.schedule with
  | .ok schedule => return schedule
  | .error reason => Op.fail (b.failure reason)

def makeCompilation {σ : Type} (b : Brief) (frameCount : Nat) : Op σ Compilation := do
  let schedule ← makeSchedule b
  let player ← Player.make schedule frameCount
  return { schedule, player }

def compiledLine (g : Graph) (events : Nat) : String :=
  let live := (g.declaration.survivors g.survival).length
  let culled := g.declaration.passes.length - live
  s!"Compiled frame graph: {live} live / {culled} culled passes, " ++
    s!"{g.residency.length} resources materialized, {events} events"

/-- Makes the live resources resident and the schedule with its player. If that fails, nothing of it
stays on the device. -/
def build : Op Graph Unit := do
  placeResources
  let g ← Op.read
  let (result, _) ← Op.aside
    (makeCompilation (g.brief g.config.mergesReads) g.config.frameCount) ()
  match result with
  | .error failure =>
    releaseResidency
    Op.fail failure
  | .ok compilation =>
    Op.note .debug (g.compiledLine compilation.schedule.events.length)
    if g.config.tracesSchedule then
      Op.note .debug ("Frame graph schedule:\n" ++ compilation.schedule.text)
    Op.update ({ · with compilation := some compilation, dirty := false })

def compile : Op Graph Unit := do
  release
  let _ ← cull
  build

def execute : Op Graph Unit := do
  let g ← Op.read
  match g.dirty, g.compilation with
  | false, some compilation =>
    let (result, player) ← Op.aside
      (Player.play compilation.schedule g.scene g.frameIndex) compilation.player
    Op.update ({ · with compilation := some { compilation with player } })
    match result with
    | .ok () =>
      Op.update ({ · with compilation := some { compilation with player, executed := true } })
    | .error failure => Op.fail failure
  | _, _ => Op.fail .notCompiled

/-- Gives up everything and forgets the declaration. What is kept for the device stays. -/
def reset : Op Graph Unit := do
  release
  Op.update ({ · with
    declaration := {}, survival := {}, wanted := [], dirty := false, frameIndex := 0 })
  Op.note .debug "Frame graph reset"

def setFrameCount (n : Nat) : Op Graph Unit := do
  release
  Op.update fun g =>
    { g with
      config := g.config.withFrameCount n
      frameIndex := g.frameIndex % max n 1
      dirty := true }

/-- Gives up everything at the end of the graph's life. If the device fails, the journal says so
and everything stays. -/
def drop : Op Graph Unit := do
  let (result, g) ← Op.aside release (← Op.read)
  Op.update fun _ => g
  match result with
  | .ok () => pure ()
  | .error failure =>
    Op.note .warn ("Failed to release frame graph resources: " ++ failure.message)

/-! Values for the device -/

/-- The value under a key, made from `initial` if there is none yet, and then changed. The answer
is the value and whether it was made. -/
def useData (g : Graph) (key : String) (initial : UInt64) (change : UInt64 → UInt64) :
    (UInt64 × Bool) × Graph :=
  let found := g.deviceData.lookup key
  let value := change (found.getD initial)
  ((value, found.isNone),
    { g with deviceData := (key, value) :: g.deviceData.filter (·.1 ≠ key) })

def clearData (g : Graph) : Graph := { g with deviceData := [] }

end Graph

end RenderGraph
