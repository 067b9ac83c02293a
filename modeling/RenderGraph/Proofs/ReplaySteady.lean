import RenderGraph.Proofs.CallsMade
import RenderGraph.Proofs.PlayerKept

/-! What holds of a player together with its rig, however far a replay gets. Events make quiet calls
and run recorders, apart from syncs, which raise a fence and signal it. -/

namespace RenderGraph

namespace Op

variable {σ α : Type} {I : σ → Rig → Prop}

theorem upholds_entry (entries : List α) (index : Nat) :
    (entry entries index : Op σ α).Upholds I := by
  intro s rig holds
  unfold entry
  split <;> exact holds

theorem upholds_allow (result : Except Misuse α) : (allow result : Op σ α).Upholds I := by
  intro s rig holds
  cases result <;> exact holds

end Op

namespace Player

theorem raised_mem_slots {p : Player} {fence : Nat} {slot : FenceSlot}
    (found : p.fences[fence]? = some slot) : slot.raised ∈ (p.raised fence).slots := by
  apply List.mem_append_left
  apply List.mem_of_getElem? (i := fence)
  rw [raised, List.getElem?_modify_eq, found]
  rfl

structure Steady (I : Player → Rig → Prop) : Prop where
  quiet : ∀ c : Call, c.IsQuiet → (Op.call c : Op Player c.Reply).Upholds I
  recording : ∀ p rig recording, I p rig → I p (rig.record (.recording recording))
  raised : ∀ p rig fence, I p rig → I (p.raised fence) rig
  signal : ∀ p rig fence slot queue, p.fences[fence]? = some slot → I p rig →
    I (p.raised fence) (rig.call (.signal queue slot.fence slot.raised.value)).2

variable {I J : Player → Rig → Prop}

theorem Steady.and (steady : Steady I) (steady' : Steady J) :
    Steady fun p rig => I p rig ∧ J p rig where
  quiet c quiet p rig holds :=
    ⟨steady.quiet c quiet p rig holds.1, steady'.quiet c quiet p rig holds.2⟩
  recording p rig recording holds :=
    ⟨steady.recording p rig recording holds.1, steady'.recording p rig recording holds.2⟩
  raised p rig fence holds :=
    ⟨steady.raised p rig fence holds.1, steady'.raised p rig fence holds.2⟩
  signal p rig fence slot queue found holds :=
    ⟨steady.signal p rig fence slot queue found holds.1,
      steady'.signal p rig fence slot queue found holds.2⟩

theorem steady_sets (P : List (List ListKey) → Prop) : Steady fun p _ => P p.sets where
  quiet _ _ _ _ holds := holds
  recording _ _ _ holds := holds
  raised _ _ _ holds := holds
  signal _ _ _ _ _ _ holds := holds

def handOver (fence : Nat) (signaller : FenceSlot → Queue) (waiting : Queue) : Op Player Unit := do
  let slot ← raise fence
  Op.call (.signal (signaller slot) slot.fence slot.value)
  Op.call (.wait waiting slot.fence slot.value)

/-- What is not broken by quiet calls, waits of queues left aside, nor by recorders. -/
structure Calm (I : Player → Rig → Prop) : Prop where
  quiet : ∀ c : Call, c.IsQuiet → ¬ c.IsQueueWait → (Op.call c : Op Player c.Reply).Upholds I
  recording : ∀ p rig recording, I p rig → I p (rig.record (.recording recording))

/-- What the parts of a replay do not break, if a queue's wait is taken together with the signal
that it waits for. -/
structure Orderly (I : Player → Rig → Prop) : Prop extends Calm I where
  handOver : ∀ fence signaller waiting, (handOver fence signaller waiting).Upholds I

theorem Calm.step (calm : Calm I) (f : Frame) {e : Event} (plain : e.syncFence? = none) :
    (step f e).Upholds I := by
  cases e with
  | openList queue list =>
    exact (Op.upholds_entry _ _).bind fun _ => calm.quiet _ trivial id
  | barriers list batch =>
    have resolve (barrier : Barrier) :
        (f.resolve barrier : Op Player DeviceBarrier).Upholds I := by
      refine Op.Upholds.bind (Op.upholds_allow _) fun resource => ?_
      split
      · exact fun _ _ holds => holds
      · split <;> exact fun _ _ holds => holds
    exact (Op.upholds_mapM batch resolve).bind fun _ =>
      (Op.upholds_entry _ _).bind fun _ => calm.quiet _ trivial id
  | record list p =>
    refine Op.Upholds.bind (Op.upholds_allow _) fun pass => ?_
    refine Op.Upholds.bind (Op.upholds_entry _ _) fun key => ?_
    unfold Frame.record
    split
    · exact fun _ _ holds => holds
    · exact (Op.upholds_mapM _ fun _ => Op.upholds_allow _).bind fun _ p rig =>
        calm.recording p rig _
  | submit list =>
    exact (Op.upholds_entry _ _).bind fun _ =>
      (Op.upholds_entry _ _).bind fun _ => calm.quiet _ trivial id
  | sync => cases plain

theorem Calm.reclaim (calm : Calm I) (set : Nat) : (reclaim set).Upholds I := by
  refine Op.upholds_read.bind fun p => ?_
  dsimp only
  split
  · exact calm.quiet _ trivial id
  · exact fun _ _ holds => holds

theorem Orderly.step (orderly : Orderly I) (f : Frame) (e : Event) : (step f e).Upholds I := by
  cases e with
  | sync signal wait fence => exact orderly.handOver fence.index (fun _ => signal) wait
  | openList | barriers | record | submit => exact orderly.toCalm.step f rfl

theorem Orderly.play (orderly : Orderly I) (closes : ∀ set, (closeFrame set).Upholds I)
    (s : Schedule) (scene : Scene) (frameIndex : Nat) : (play s scene frameIndex).Upholds I := by
  refine Op.upholds_read.bind fun p => (orderly.toCalm.reclaim _).bind fun _ => ?_
  apply (Op.upholds_forM _ (orderly.step _)).bind
  intro _
  apply (Op.upholds_forM _ fun fence => orderly.handOver fence (·.queue) .graphics).bind
  exact fun _ => closes _

theorem Steady.orderly (steady : Steady I) : Orderly I where
  quiet c quiet _ := steady.quiet c quiet
  recording := steady.recording
  handOver fence signaller waiting p rig holds := by
    unfold Player.handOver
    rw [Op.run_bind, run_raise]
    cases found : p.fences[fence]? with
    | none => exact holds
    | some slot =>
      have signalled : I (p.raised fence) (rig.call (.signal (signaller slot.raised)
          slot.raised.fence slot.raised.value)).2 := steady.signal p rig fence slot _ found holds
      have waited := steady.quiet (.wait waiting slot.raised.fence slot.raised.value) trivial _ _
        signalled
      dsimp only
      rw [Op.run_bind, Op.run_call]
      cases (rig.call _).1 with
      | error failure => exact signalled
      | ok _ => exact waited

theorem Steady.step (steady : Steady I) (f : Frame) (e : Event) : (step f e).Upholds I :=
  steady.orderly.step f e

theorem Steady.reclaim (steady : Steady I) (set : Nat) : (reclaim set).Upholds I :=
  steady.orderly.toCalm.reclaim set

theorem Steady.play (steady : Steady I) (closes : ∀ set, (closeFrame set).Upholds I)
    (s : Schedule) (scene : Scene) (frameIndex : Nat) : (play s scene frameIndex).Upholds I :=
  steady.orderly.play closes s scene frameIndex

structure Lasting (R : Rig → Prop) : Prop where
  call : ∀ rig c, R rig → R (rig.call c).2
  recording : ∀ rig recording, R rig → R (rig.record (.recording recording))

variable {R : Rig → Prop}

theorem Lasting.steady (lasting : Lasting R) : Steady fun _ rig => R rig where
  quiet c _ _ rig := lasting.call rig c
  recording _ rig recording := lasting.recording rig recording
  raised _ _ _ holds := holds
  signal _ rig _ _ _ _ := lasting.call rig _

theorem Lasting.play (lasting : Lasting R) (s : Schedule) (scene : Scene) (frameIndex : Nat) :
    (play s scene frameIndex).Upholds fun _ rig => R rig := by
  have closes (set : Nat) : (closeFrame set).Upholds fun _ rig => R rig :=
    upholds_closeFrame_of set (fun _ rig => lasting.call rig _) fun _ _ => id
  exact lasting.steady.play closes s scene frameIndex

end Player

namespace Graph

theorem run_execute {g : Graph} {c : Compilation} (clean : g.dirty = false)
    (held : g.compilation = some c) (rig : Rig) :
    execute.run g rig =
      let (result, player, rig) := (Player.play c.schedule g.scene g.frameIndex).run c.player rig
      let compilation := { c with player, executed := c.executed || result.isOk }
      (result, { g with compilation := some compilation }, rig) := by
  unfold execute
  rw [Op.run_bind, Op.run_read]
  dsimp only
  rw [clean, held]
  dsimp only
  rw [Op.run_bind, Op.run_aside]
  rcases (Player.play c.schedule g.scene g.frameIndex).run c.player rig with
    ⟨failure | ⟨⟩, player, after⟩ <;>
  simp [Op.run_bind, Except.isOk, Except.toBool, clean]

theorem execute_cases (g : Graph) (rig : Rig) : (execute.run g rig).2 = (g, rig) ∨
    ∃ c, g.compilation = some c ∧
      let played := (Player.play c.schedule g.scene g.frameIndex).run c.player rig
      (execute.run g rig).2 = ({ g with
        compilation := some { c with
          player := played.2.1
          executed := c.executed || played.1.isOk } }, played.2.2) := by
  by_cases compiled : g.dirty = false ∧ g.compilation.isSome = true
  · obtain ⟨clean, some⟩ := compiled
    obtain ⟨c, held⟩ := Option.isSome_iff_exists.mp some
    exact Or.inr ⟨c, held, by rw [run_execute clean held]⟩
  · left
    unfold execute
    rw [Op.run_bind, Op.run_read]
    dsimp only
    split
    · rename_i c clean held
      exact absurd ⟨clean, Option.isSome_of_eq_some held⟩ compiled
    · rfl

theorem upholds_execute_of_play {I : Graph → Rig → Prop}
    (plays : ∀ g rig c executed, I g rig → g.compilation = some c →
      let played := (Player.play c.schedule g.scene g.frameIndex).run c.player rig
      I { g with compilation := some { c with player := played.2.1, executed } } played.2.2) :
    execute.Upholds I := by
  intro g rig holds
  rcases execute_cases g rig with idle | ⟨c, held, played⟩
  · rwa [idle]
  · rw [played]
    exact plays g rig c _ holds held

end Graph

end RenderGraph
