import RenderGraph.Culling.Survival
import RenderGraph.Schedule

/-! A draft is a schedule in the making, with what is known of every resource: its state, the last
pass that output to it, the passes that have read it since, and the queue of an unordered write
that nothing has waited for yet. -/

namespace RenderGraph

structure PassRef where
  ordinal : Nat
  queue : Queue
  deriving DecidableEq, Repr

structure Track where
  state : Option ResourceState := none
  pendingWrite : Option Queue := none
  lastWriter : Option PassRef := none
  readers : List PassRef := []
  deriving DecidableEq, Repr

/-- For every source queue, the last pass on it that the owner of the clock waits for. -/
abbrev Clock := PerQueue (Option Nat)

structure Draft where
  events : List Event := []
  lists : List Queue := []
  fences : List Queue := []
  current : Option (Queue × ListId) := none
  tracks : List Track := []
  clocks : PerQueue Clock := PerQueue.fill (PerQueue.fill none)
  /-- The last pass recorded on every queue. -/
  lastOn : PerQueue (Option Nat) := PerQueue.fill none
  deriving DecidableEq, Repr

def Track.dependencies (t : Track) (output : Bool) : List PassRef :=
  t.lastWriter.toList ++ if output then t.readers else []

namespace Draft

def track (d : Draft) (r : ResourceId) : Track := d.tracks.getD r.index {}

def modifyTrack (d : Draft) (r : ResourceId) (f : Track → Track) : Draft :=
  { d with tracks := d.tracks.modify r.index f }

def emit (d : Draft) (e : Event) : Draft := { d with events := d.events ++ [e] }

/-- The open list, if it is the queue's. Otherwise the open list is submitted and a new one is
opened: a submitted list may still be running and is never recorded into again. -/
def enter (d : Draft) (queue : Queue) : ListId × Draft :=
  let opened (d : Draft) : ListId × Draft :=
    let list : ListId := ⟨d.lists.length⟩
    (list, { d with lists := d.lists ++ [queue], current := some (queue, list) }.emit
      (.openList queue list))
  match d.current with
  | some (entered, list) => if entered = queue then (list, d) else opened (d.emit (.submit list))
  | none => opened d

/-- The fence that a queue signals, with a new one on first use. -/
def fenceFor (d : Draft) (queue : Queue) : FenceId × Draft :=
  match d.fences.idxOf? queue with
  | some i => (⟨i⟩, d)
  | none => (⟨d.fences.length⟩, { d with fences := d.fences ++ [queue] })

/-- The last pass on the source queue that some access has to come after; each access comes with
whether it outputs. -/
def needed (d : Draft) (accesses : List (ResourceId × Bool)) (source : Queue) : Option Nat :=
  let dependencies := accesses.flatMap fun (r, output) => (d.track r).dependencies output
  ((dependencies.filter (·.queue == source)).map (·.ordinal)).max?

def covers (done : Option Nat) (ordinal : Nat) : Bool := done.any (ordinal ≤ ·)

/-- The waiting queue's clock takes in everything recorded on the source so far, and everything that
the source itself waits for. -/
def advance (d : Draft) (source waiting : Queue) : Clock :=
  let own := d.clocks.get waiting
  let other := d.clocks.get source
  PerQueue.tabulate fun q =>
    if q = waiting then own.get q
    else max (if q = source then d.lastOn.get source else own.get q) (other.get q)

def sync (d : Draft) (source waiting : Queue) : Draft :=
  let (fence, d) := d.fenceFor source
  { d with clocks := d.clocks.set waiting (d.advance source waiting) }.emit
    (.sync source waiting fence)

/-- Makes a queue wait for every other queue that it depends on and does not wait for yet. -/
def syncAll (d : Draft) (queue : Queue) (accesses : List (ResourceId × Bool)) : Draft :=
  Queue.all.foldl (fun draft source =>
    if source = queue then draft
    else match d.needed accesses source with
      | none => draft
      | some ordinal =>
        if covers ((draft.clocks.get queue).get source) ordinal then draft
        else draft.sync source queue) d

end Draft

end RenderGraph
