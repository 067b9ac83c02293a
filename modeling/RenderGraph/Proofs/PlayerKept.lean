import RenderGraph.Proofs.PlayerMade

/-! What replaying leaves of a player, whether it goes through or not: its lists and fences stay,
and only the counters move. -/

namespace RenderGraph

namespace Op

variable {σ α β γ : Type} {view : σ → γ}

theorem keeps_entry (entries : List α) (index : Nat) :
    (entry entries index : Op σ α).Keeps view := by
  unfold entry
  split
  · exact keeps_pure _
  · exact keeps_fail _

theorem keeps_allow (result : Except Misuse α) : (allow result : Op σ α).Keeps view := by
  cases result with
  | ok a => exact keeps_pure a
  | error misuse => exact keeps_fail _

theorem keeps_mapM (xs : List α) {f : α → Op σ β} (each : ∀ x, (f x).Keeps view) :
    (xs.mapM f).Keeps view := by
  induction xs with
  | nil => exact keeps_pure []
  | cons x xs ih =>
    rw [List.mapM_cons]
    exact (each x).bind fun _ => ih.bind fun _ => keeps_pure _

end Op

namespace FenceSlot

def raised (slot : FenceSlot) : FenceSlot := { slot with value := slot.value + 1 }

def rewound (slot : FenceSlot) : FenceSlot := { slot with value := 0 }

end FenceSlot

namespace Player

variable {β : Type} {view : Player → β} {p p' : Player} {s : Schedule}

def raised (p : Player) (fence : Nat) : Player :=
  { p with fences := p.fences.modify fence FenceSlot.raised }

def rewound (p : Player) : Player where
  sets := p.sets
  setValues := []
  fences := p.fences.map FenceSlot.rewound
  frameFence := p.frameFence.rewound

theorem rewound_raised (p : Player) (fence : Nat) : (p.raised fence).rewound = p.rewound := by
  have fences : (p.raised fence).fences.map FenceSlot.rewound =
      p.fences.map FenceSlot.rewound := by
    apply List.ext_getElem?
    intro i
    rw [raised, List.getElem?_map, List.getElem?_modify, List.getElem?_map]
    cases p.fences[i]? with
    | none => rfl
    | some slot => by_cases same : fence = i <;> simp [same, FenceSlot.raised, FenceSlot.rewound]
  rw [rewound, fences]
  rfl

theorem sets_of_rewound (same : p'.rewound = p.rewound) : p'.sets = p.sets :=
  (congrArg Player.sets same :)

theorem fence_of_rewound (same : p'.rewound = p.rewound) :
    p'.frameFence.fence = p.frameFence.fence :=
  (congrArg (fun p : Player => p.frameFence.fence) same :)

theorem frameFence_mem_slots (p : Player) : p.frameFence ∈ p.slots :=
  List.mem_append_right _ (List.mem_singleton_self _)

theorem keys_of_rewound (same : p'.rewound = p.rewound) :
    p'.slots.map (·.fence) = p.slots.map (·.fence) := by
  have fences := congrArg (fun p : Player => p.fences.map (·.fence)) same
  have frame : p'.frameFence.fence = p.frameFence.fence := fence_of_rewound same
  simp only [rewound, List.map_map] at fences
  simpa [slots, frame, FenceSlot.rewound, Function.comp_def] using fences

theorem Fits.of_rewound (fits : p.Fits s) (same : p'.rewound = p.rewound) : p'.Fits s := by
  have sets := sets_of_rewound same
  have slots : p'.slots.map FenceSlot.rewound = p.slots.map FenceSlot.rewound := by
    have fences := congrArg Player.fences same
    have frameFence := congrArg Player.frameFence same
    simp only [rewound] at fences frameFence
    simp only [Player.slots, List.map_append, List.map_cons, List.map_nil, fences, frameFence]
  have fences := congrArg (fun p => p.fences.map FenceSlot.queue) same
  have keys := congrArg (List.map FenceSlot.fence) slots
  simp only [rewound, List.map_map] at fences keys
  constructor
  · exact sets ▸ fits.some
  · exact sets ▸ fits.full
  · exact sets ▸ fits.distinct
  · exact fences.trans fits.queues
  · exact keys ▸ fits.apart
  · exact (congrArg (fun p => p.frameFence.queue) same).trans fits.graphics

theorem run_raise (fence : Nat) (p : Player) (rig : Rig) :
    (raise fence).run p rig =
      match p.fences[fence]? with
      | some slot => (.ok slot.raised, p.raised fence, rig)
      | none => (.error (.misuse (.outOfRange p.fences.length fence)), p, rig) := by
  unfold raise
  rw [Op.run_bind, Op.run_read]
  dsimp only
  rw [Op.run_bind]
  unfold Op.entry
  cases found : p.fences[fence]? with
  | none => rfl
  | some slot =>
    obtain ⟨inside, here⟩ := List.getElem?_eq_some_iff.mp found
    have set : p.fences.modify fence FenceSlot.raised = p.fences.set fence slot.raised := by
      rw [List.modify_eq_take_cons_drop inside, List.set_eq_take_append_cons_drop, if_pos inside,
        here]
    rw [raised, set]
    rfl

/-! Views that raising a fence does not change. -/

section

variable (same : ∀ p fence, view (Player.raised p fence) = view p)

include same

theorem keeps_raise (fence : Nat) : (raise fence).Keeps view := by
  intro p rig
  rw [run_raise]
  cases p.fences[fence]? with
  | none => rfl
  | some slot => exact same p fence

theorem keeps_step (f : Frame) (e : Event) : (step f e).Keeps view := by
  cases e with
  | openList queue list => exact (Op.keeps_entry _ _).bind fun _ => Op.keeps_call _
  | barriers list batch =>
    have resolve (barrier : Barrier) :
        (f.resolve barrier : Op Player DeviceBarrier).Keeps view := by
      apply (Op.keeps_allow _).bind
      intro resource
      split
      · exact Op.keeps_fail _
      · split <;> exact Op.keeps_pure _
    apply (Op.keeps_mapM batch resolve).bind
    intro natives
    exact (Op.keeps_entry _ _).bind fun _ => Op.keeps_call _
  | record list p =>
    apply (Op.keeps_allow _).bind
    intro pass
    apply (Op.keeps_entry _ _).bind
    intro key
    unfold Frame.record
    split
    · exact Op.keeps_pure ()
    · exact (Op.keeps_mapM _ fun _ => Op.keeps_allow _).bind fun _ => Op.keeps_onRig _
  | submit list =>
    exact (Op.keeps_entry _ _).bind fun _ => (Op.keeps_entry _ _).bind fun _ => Op.keeps_call _
  | sync signal wait fence =>
    exact (keeps_raise same _).bind fun _ => (Op.keeps_call _).bind fun _ => Op.keeps_call _

theorem keeps_gather (fence : Nat) : (gather fence).Keeps view :=
  (keeps_raise same _).bind fun _ => (Op.keeps_call _).bind fun _ => Op.keeps_call _

end

theorem keeps_reclaim (set : Nat) : (reclaim set).Keeps view := by
  apply Op.keeps_read.bind
  intro p
  dsimp only
  split
  · exact Op.keeps_call _
  · exact Op.keeps_pure ()

def closed (p : Player) (set : Nat) : Player :=
  { p with
    frameFence := p.frameFence.raised
    setValues := p.setValues.set set p.frameFence.raised.value
    frames := p.frames + 1 }

theorem run_closeFrame (set : Nat) (p : Player) (rig : Rig) :
    (closeFrame set).run p rig =
      match rig.call (.signal p.frameFence.queue p.frameFence.fence p.frameFence.raised.value) with
      | (.ok (), rig) => (.ok (), p.closed set, rig)
      | (.error failure, rig) =>
        (.error failure, { p with frameFence := p.frameFence.raised }, rig) := by
  unfold closeFrame
  rw [Op.run_bind, Op.run_update]
  dsimp only
  rw [Op.run_bind, Op.run_read]
  dsimp only
  rw [Op.run_bind, Op.run_call]
  dsimp only [FenceSlot.raised]
  rcases rig.call _ with ⟨_ | ⟨⟩, rig⟩ <;> rfl

theorem upholds_closeFrame_of {I : Player → Rig → Prop} (set : Nat)
    (signals : ∀ (p : Player) rig, I p rig → I { p with frameFence := p.frameFence.raised }
      (rig.call (.signal p.frameFence.queue p.frameFence.fence p.frameFence.raised.value)).2)
    (closes : ∀ (p : Player) rig, I { p with frameFence := p.frameFence.raised } rig →
      I (p.closed set) rig) :
    (closeFrame set).Upholds I := by
  intro p rig holds
  have signalled := signals p rig holds
  rw [run_closeFrame]
  rcases called : rig.call (.signal p.frameFence.queue p.frameFence.fence
    p.frameFence.raised.value) with ⟨failure | ⟨⟩, after⟩
  all_goals rw [called] at signalled
  · exact signalled
  · exact closes p after signalled

theorem keeps_play_rewound (s : Schedule) (scene : Scene) (frameIndex : Nat) :
    (play s scene frameIndex).Keeps rewound := by
  apply Op.keeps_read.bind
  intro p
  apply (keeps_reclaim _).bind
  intro _
  apply (Op.keeps_forM _ fun e => keeps_step rewound_raised _ e).bind
  intro _
  apply (Op.keeps_forM _ fun fence => keeps_gather rewound_raised fence).bind
  intro _ p rig
  rw [run_closeFrame]
  split <;> rfl

theorem Counted.closed (counted : p.Counted) (set : Nat) : (p.closed set).Counted where
  length := List.length_set.trans counted.length
  given := by
    intro value member
    rcases List.mem_or_eq_of_mem_set member with old | rfl
    · exact Nat.le_succ_of_le (counted.given value old)
    · exact Nat.le_refl _

theorem maintains_play_counted (s : Schedule) (scene : Scene) (frameIndex : Nat) :
    (play s scene frameIndex).Maintains Counted := by
  have moves {α : Type} {op : Op Player α}
      (keeps : op.Keeps fun p => (p.sets, p.setValues, p.frameFence)) : op.Maintains Counted := by
    refine keeps.maintains ?_
    intro p p' same counted
    simp only [Prod.mk.injEq] at same
    rcases same with ⟨sets, setValues, frameFence⟩
    constructor
    · rw [sets, setValues]
      exact counted.length
    · rw [setValues, frameFence]
      exact counted.given
  apply Op.maintains_read_bind
  intro p rig counted
  refine Op.Maintains.bind (moves (keeps_reclaim _)) ?_ p rig counted
  intro _
  apply (moves (Op.keeps_forM _ fun e => keeps_step (fun _ _ => rfl) _ e)).bind
  intro _
  apply (moves (Op.keeps_forM _ fun fence => keeps_gather (fun _ _ => rfl) fence)).bind
  intro _ p rig counted
  rw [run_closeFrame]
  split
  · exact counted.closed _
  · exact ⟨counted.length, fun value member => Nat.le_succ_of_le (counted.given value member)⟩

end Player

end RenderGraph
