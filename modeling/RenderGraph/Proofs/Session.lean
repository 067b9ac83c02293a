import RenderGraph.Graph
import RenderGraph.Proofs.Declared
import RenderGraph.Proofs.Operation

/-! Sessions: what a caller can do with a graph on a device, in any order. The device may be told to
fail at any time. Every property of all sessions starts from `Session.Reachable`. -/

namespace RenderGraph

structure Session where
  graph : Graph
  rig : Rig
  deriving DecidableEq, Repr

inductive Action where
  | importResource (name : String) (blueprint : Blueprint) (usage : Usage)
    (finalUsage : Option Usage) (native : ResourceKey)
  | manage (name : String) (blueprint : Blueprint) (usage : Usage)
  | declare (name : String) (queue : Queue) (calls : List PassCall)
    (recorder : Option (List ResourceId))
  | update (resource : ResourceId) (native : ResourceKey)
  | updateView (resource : ResourceId) (kind : ViewKind) (view : ViewKey)
  | setFrameIndex (index : Nat)
  | setFrameCount (count : Nat)
  | compile
  | execute
  | drain
  | reset
  | useData (key : String) (initial : UInt64) (change : UInt64 → UInt64)
  | clearData
  /-- Plans the failures of device calls to come. -/
  | plan (faults : List Fault)
  | refuseResources (refuses : Bool)

namespace Session

/-- What is left of a session after an operation, failed or not. -/
def after {α : Type} (s : Session) (op : Op Graph α) : Session :=
  let (_, graph, rig) := op.run s.graph s.rig
  ⟨graph, rig⟩

/-- A misuse leaves the graph as it was. -/
def rebound (s : Session) : Except Misuse Graph → Session
  | .ok graph => { s with graph }
  | .error _ => s

def act (s : Session) : Action → Session
  | .importResource name blueprint usage finalUsage native =>
    { s with graph := (s.graph.importResource name blueprint usage finalUsage native).2 }
  | .manage name blueprint usage => { s with graph := (s.graph.manage name blueprint usage).2 }
  | .declare name queue calls recorder =>
    { s with graph := (s.graph.declare name queue calls recorder).2 }
  | .update r native => s.rebound (s.graph.update r native)
  | .updateView r kind view => s.rebound (s.graph.updateView r kind view)
  | .setFrameIndex n => { s with graph := s.graph.setFrameIndex n }
  | .setFrameCount n => s.after (Graph.setFrameCount n)
  | .compile => s.after Graph.compile
  | .execute => s.after Graph.execute
  | .drain => s.after Graph.drain
  | .reset => s.after Graph.reset
  | .useData key initial change => { s with graph := (s.graph.useData key initial change).2 }
  | .clearData => { s with graph := s.graph.clearData }
  | .plan faults => { s with rig := { s.rig with faults } }
  | .refuseResources refuses =>
    { s with rig := { s.rig with device := { s.rig.device with refusesResources := refuses } } }

def start (config : Config) (faults : List Fault) (journal : Journal) : Session :=
  after ⟨{}, { faults, journal }⟩ (Graph.create config)

inductive Reachable : Session → Prop
  | start (config : Config) (faults : List Fault) (journal : Journal) :
    Reachable (start config faults journal)
  | act {s : Session} (reachable : Reachable s) (a : Action) : Reachable (s.act a)

/-- The operation goes through and leads from one session to the other. -/
def Does (s : Session) (op : Op Graph Unit) (s' : Session) : Prop :=
  op.run s.graph s.rig = (.ok (), s'.graph, s'.rig)

theorem Does.after_eq {s s' : Session} {op : Op Graph Unit} (does : s.Does op s') :
    s.after op = s' := by
  unfold Does at does
  unfold after
  rw [does]

theorem does_after {s : Session} {op : Op Graph Unit}
    (ok : (op.run s.graph s.rig).1.isOk = true) : s.Does op (s.after op) := by
  unfold Does after
  rcases ran : op.run s.graph s.rig with ⟨_ | ⟨⟩, graph, rig⟩
  · rw [ran] at ok
    cases ok
  · rfl

theorem Reachable.foldl {s : Session} (reachable : s.Reachable) (actions : List Action) :
    (actions.foldl Session.act s).Reachable := by
  induction actions generalizing s with
  | nil => exact reachable
  | cons a actions ih => exact ih (reachable.act a)

end Session

/-! What the operations leave alone. -/

section Keeps

variable {σ β : Type} {view : σ → β}

theorem keeps_destroyLists (lists : List ListKey) : (Op.destroyLists lists).Keeps view :=
  Op.keeps_forM lists fun _ => Op.keeps_call _

theorem keeps_destroyFences (fences : List FenceSlot) : (Op.destroyFences fences).Keeps view :=
  Op.keeps_forM fences fun _ => Op.keeps_call _

namespace Player

theorem keeps_drain (p : Player) : (p.drain : Op σ Unit).Keeps view := by
  apply Op.keeps_forM
  intro slot
  split
  · exact Op.keeps_call _
  · exact Op.keeps_pure ()

theorem keeps_destroy (p : Player) : (p.destroy : Op σ Unit).Keeps view :=
  (keeps_destroyLists _).bind fun _ => keeps_destroyFences _

end Player

end Keeps

namespace Graph

variable {β : Type} {view : Graph → β}

theorem keeps_drain : drain.Keeps view := by
  apply Op.keeps_read.bind
  intro g
  cases g.compilation with
  | none => exact Op.keeps_pure ()
  | some compilation => exact compilation.player.keeps_drain

theorem keeps_releaseResidency
    (same : ∀ residency g, view { g with residency } = view g) :
    releaseResidency.Keeps view :=
  Op.keeps_within _ fun residency g => same residency g

theorem keeps_placeResources (same : ∀ residency g, view { g with residency } = view g) :
    placeResources.Keeps view :=
  Op.keeps_read.bind fun _ => Op.keeps_within _ fun residency g => same residency g

theorem keeps_release
    (same : ∀ residency compilation g, view { g with residency, compilation } = view g) :
    release.Keeps view := by
  apply keeps_drain.bind
  intro _
  apply Op.keeps_read.bind
  intro g
  have rest : (do releaseResidency; Op.update ({ · with compilation := none })).Keeps view :=
    (keeps_releaseResidency fun residency g => same residency g.compilation g).bind fun _ =>
      Op.keeps_update fun g => same g.residency none g
  cases g.compilation with
  | none => exact (Op.keeps_pure ()).bind fun _ => rest
  | some compilation => exact compilation.player.keeps_destroy.bind fun _ => rest

theorem keeps_cull (same : ∀ survival wanted g, view { g with survival, wanted } = view g) :
    cull.Keeps view := by
  apply Op.keeps_read.bind
  intro g
  apply (Op.keeps_onRig _).bind
  intro _
  apply (Op.keeps_update _).bind
  · exact fun _ => Op.keeps_pure _
  · exact fun g => same _ _ g

theorem keeps_build
    (same : ∀ residency compilation dirty g,
      view { g with residency, compilation, dirty } = view g) : build.Keeps view := by
  have residency (residency : Residency) (g : Graph) := same residency g.compilation g.dirty g
  apply (keeps_placeResources residency).bind
  intro _
  apply Op.keeps_read.bind
  intro g
  apply (Op.keeps_aside _ _).bind
  rintro ⟨result, _⟩
  cases result with
  | error failure => exact (keeps_releaseResidency residency).bind fun _ => Op.keeps_fail _
  | ok compilation =>
    apply (Op.keeps_note _ _).bind
    intro _
    have compiled : (Op.update fun g : Graph =>
        { g with compilation := some compilation, dirty := false }).Keeps view :=
      Op.keeps_update fun g => same g.residency (some compilation) false g
    dsimp only
    split
    · exact (Op.keeps_note _ _).bind fun _ => compiled
    · exact compiled

theorem keeps_compile
    (same : ∀ survival wanted residency compilation dirty g,
      view { g with survival, wanted, residency, compilation, dirty } = view g) :
    compile.Keeps view := by
  apply (keeps_release fun residency compilation g =>
    same g.survival g.wanted residency compilation g.dirty g).bind
  intro _
  apply (keeps_cull fun survival wanted g =>
    same survival wanted g.residency g.compilation g.dirty g).bind
  intro _
  exact keeps_build fun residency compilation dirty g =>
    same g.survival g.wanted residency compilation dirty g

theorem keeps_execute (same : ∀ compilation g, view { g with compilation } = view g) :
    execute.Keeps view := by
  apply Op.keeps_read.bind
  intro g
  split
  · apply (Op.keeps_aside _ _).bind
    rintro ⟨result, player⟩
    apply (Op.keeps_update fun g => same _ g).bind
    intro _
    cases result with
    | ok _ => exact Op.keeps_update fun g => same _ g
    | error failure => exact Op.keeps_fail failure
  · exact Op.keeps_fail _

theorem keeps_setFrameCount (n : Nat)
    (same : ∀ residency compilation config frameIndex dirty g,
      view { g with residency, compilation, config, frameIndex, dirty } = view g) :
    (setFrameCount n).Keeps view :=
  (keeps_release fun residency compilation g =>
    same residency compilation g.config g.frameIndex g.dirty g).bind fun _ =>
  Op.keeps_update fun g => same g.residency g.compilation _ _ true g

end Graph

namespace Session

theorem rebound_eq (s : Session) (r : ResourceId) (f : Copy → Copy) :
    ∃ declaration, s.rebound (s.graph.rebind r f) =
      { s with graph := { s.graph with declaration } } := by
  unfold Graph.rebind
  cases s.graph.declaration.getResource r with
  | error misuse => exact ⟨_, rfl⟩
  | ok resource =>
    obtain ⟨name, origin, _⟩ := resource
    cases origin <;> exact ⟨_, rfl⟩

theorem closed_rebound {s : Session} (closed : s.graph.declaration.Closed) {r : ResourceId}
    {f : Copy → Copy} : (s.rebound (s.graph.rebind r f)).graph.declaration.Closed := by
  unfold Graph.rebind
  cases s.graph.declaration.getResource r with
  | error misuse => exact closed
  | ok resource =>
    cases resource with
    | mk name origin =>
      cases origin with
      | imported bound => exact closed.modifyResource r _
      | managed => exact closed
      | transient queue => exact closed

theorem declaration_reset (s : Session) :
    (s.after Graph.reset).graph.declaration = s.graph.declaration ∨
      (s.after Graph.reset).graph.declaration = {} := by
  have keeps : Graph.release.Keeps (·.declaration) := Graph.keeps_release fun _ _ _ => rfl
  unfold after Graph.reset
  rw [Op.run_bind]
  cases ran : Graph.release.run s.graph s.rig with
  | mk result rest =>
    cases result with
    | error failure => exact Or.inl (keeps.of_run ran)
    | ok _ => exact Or.inr rfl

theorem Reachable.closed {s : Session} (reachable : s.Reachable) :
    s.graph.declaration.Closed := by
  induction reachable with
  | start config faults journal => exact Declaration.closed_empty
  | @act s _ a closed =>
    have same (op : Op Graph Unit) (kept : op.Keeps (·.declaration)) :
        (s.after op).graph.declaration.Closed := by
      have declaration : (s.after op).graph.declaration = s.graph.declaration := kept s.graph s.rig
      rw [declaration]
      exact closed
    cases a with
    | importResource | manage => exact closed.addResource _
    | declare name queue calls recorder => exact closed.declare name queue calls recorder
    | update r native => exact closed_rebound closed
    | updateView r kind view => exact closed_rebound closed
    | setFrameIndex | useData | clearData | plan | refuseResources => exact closed
    | setFrameCount n => exact same _ (Graph.keeps_setFrameCount n fun _ _ _ _ _ _ => rfl)
    | compile => exact same _ (Graph.keeps_compile fun _ _ _ _ _ _ => rfl)
    | execute => exact same Graph.execute (Graph.keeps_execute fun _ _ => rfl)
    | drain => exact same Graph.drain Graph.keeps_drain
    | reset =>
      rcases s.declaration_reset with kept | emptied
      · exact kept ▸ closed
      · exact emptied ▸ Declaration.closed_empty

end Session

end RenderGraph
