import RenderGraph.Proofs.CallsAccepted
import RenderGraph.Proofs.FrameTraffic
import RenderGraph.Proofs.OwedSignals
import RenderGraph.Proofs.PlayerBacked

/-! The signals that a frame tries. A frame signals its fences in the same order every time, as far
as it gets, and the traffic shows which of these signals went through. The value of a fence counts
as given either way, so that after a signal that was refused the fence is behind it. -/

namespace RenderGraph

def Traffic.signalled? : Traffic → Option Bool
  | command (.signal ..) => some true
  | refused .signal => some false
  | _ => none

def signalTries (traffic : List Traffic) : List Bool := traffic.filterMap Traffic.signalled?

@[simp] theorem signalTries_append (xs ys : List Traffic) :
    signalTries (xs ++ ys) = signalTries xs ++ signalTries ys := List.filterMap_append

/-- What became of the last of the signals that were tried on the fence. -/
def lastTry (fence : FenceKey) (tries : List (FenceKey × Bool)) : Option Bool :=
  tries.reverse.lookup fence

@[simp] theorem lastTry_nil (fence : FenceKey) : lastTry fence [] = none := rfl

@[simp] theorem lastTry_concat (fence key : FenceKey) (accepted : Bool)
    (tries : List (FenceKey × Bool)) : lastTry fence (tries ++ [(key, accepted)]) =
      if fence = key then some accepted else lastTry fence tries := by
  by_cases same : fence = key
  · simp [lastTry, same]
  · simp [lastTry, List.lookup_cons, same, beq_eq_false_iff_ne.mpr same]

theorem mem_of_lastTry {fence : FenceKey} {accepted : Bool} {tries : List (FenceKey × Bool)}
    (last : lastTry fence tries = some accepted) : (fence, accepted) ∈ tries := by
  unfold lastTry at last
  rw [← List.mem_reverse]
  generalize tries.reverse = rest at last ⊢
  induction rest with
  | nil => simp at last
  | cons entry rest ih =>
    obtain ⟨key, outcome⟩ := entry
    by_cases same : fence = key
    · simp_all
    · rw [List.lookup_cons, beq_eq_false_iff_ne.mpr same] at last
      exact List.mem_cons_of_mem _ (ih last)

def Event.signalKey? (keys : List FenceKey) : Event → Option FenceKey
  | sync _ _ fence => keys[fence.index]?
  | _ => none

namespace Call

variable {c : Call} {x : Traffic}

theorem Leaves.signalled? (leaves : c.Leaves x) (noSignal : ¬ c.IsSignal) :
    x.signalled? = none := by
  rcases leaves with ⟨reply, rfl⟩ | ⟨method, known, rfl⟩
  · cases c with
    | signal => exact absurd trivial noSignal
    | _ => rfl
  · cases method with
    | signal => cases c <;> first | exact absurd trivial noSignal | cases known
    | _ => rfl

end Call

theorem Rig.Leads.signalTries {rig after : Rig} {may : Call → Prop} (leads : rig.Leads may after)
    (noSignal : ∀ c, may c → ¬ c.IsSignal) :
    ∃ added, after.traffic.toList = rig.traffic.toList ++ added ∧ signalTries added = [] := by
  obtain ⟨added, same, each⟩ := leads.leaves
  refine ⟨added, same, List.filterMap_eq_nil_iff.mpr fun x member => ?_⟩
  rcases each x member with ⟨recording, rfl⟩ | ⟨c, allowed, leaves⟩
  · rfl
  · exact leaves.signalled? (noSignal c allowed)

namespace FenceSlot

/-- Where a fence stands on the device, by what became of its last signal: at the value that was
given to it last, or behind it. A fence without a signal has been given no value. -/
def Stands (slot : FenceSlot) (d : Device) : Option Bool → Prop
  | none => slot.value = 0
  | some true => d.fenceValue? slot.fence = some slot.value
  | some false => ∃ reached < slot.value, d.fenceValue? slot.fence = some reached

end FenceSlot

namespace Player

def keys (p : Player) : List FenceKey := p.fences.map (·.fence)

/-- The fences that a frame signals, in order. The frame fence comes last. -/
def signalOrder (p : Player) (s : Schedule) : List FenceKey :=
  s.cycle.filterMap (Event.signalKey? p.keys) ++ [p.frameFence.fence]

variable {base p p' : Player} {s : Schedule} {rig rig' : Rig} {slot later : FenceSlot}
  {tries : List (FenceKey × Bool)} {fence : Nat} {f : Frame}

theorem own_keys_of_rewound (same : p'.rewound = p.rewound) : p'.keys = p.keys := by
  have fences := congrArg (fun p : Player => p.fences.map (·.fence)) same
  simpa [rewound, keys, FenceSlot.rewound, Function.comp_def] using fences

theorem mem_slots_of_signalOrder {key : FenceKey} (member : key ∈ p.signalOrder s) :
    ∃ slot ∈ p.slots, slot.fence = key := by
  rcases List.mem_append.mp member with own | frame
  · obtain ⟨e, _, named⟩ := List.mem_filterMap.mp own
    cases e with
    | sync signal wait fence =>
      have listed : key ∈ p.keys := List.mem_of_getElem? named
      obtain ⟨slot, held, same⟩ := List.mem_map.mp listed
      exact ⟨slot, List.mem_append_left _ held, same⟩
    | openList | barriers | record | submit => cases named
  · exact ⟨p.frameFence, p.frameFence_mem_slots, (List.mem_singleton.mp frame).symm⟩

theorem mem_slots_of_raised (found : p.fences[fence]? = some slot)
    (member : later ∈ (p.raised fence).slots) : later = slot.raised ∨ later ∈ p.slots := by
  rcases List.mem_append.mp member with own | frame
  · obtain ⟨i, held⟩ := List.mem_iff_getElem?.mp own
    rw [raised, List.getElem?_modify] at held
    by_cases same : fence = i
    · subst same
      simp only [found, Option.map_eq_map, Option.map_some, Option.some.injEq] at held
      exact Or.inl held.symm
    · simp only [if_neg same, Option.map_eq_map, Option.map_id'] at held
      exact Or.inr (List.mem_append_left _ (List.mem_of_getElem? held))
  · exact Or.inr (List.mem_append_right _ frame)

/-- A player at some point of its frames: what it is, what it has on the device, and where its
fences stand after the signals tried so far. -/
structure Standing (base : Player) (s : Schedule) (tries : List (FenceKey × Bool)) (p : Player)
    (d : Device) : Prop where
  kept : p.rewound = base.rewound
  backed : p.Backed s d
  stands : ∀ slot ∈ p.slots, slot.Stands d (lastTry slot.fence tries)

theorem Standing.congr {d d' : Device} (standing : Standing base s tries p d)
    (lists : d'.lists = d.lists) (fences : d'.fences = d.fences) :
    Standing base s tries p d' where
  kept := standing.kept
  backed := standing.backed.congr lists fences
  stands slot member := by
    have stands := standing.stands slot member
    unfold FenceSlot.Stands Device.fenceValue? at stands ⊢
    rwa [fences]

theorem Standing.signal (standing : Standing base s tries p rig.device) (own : slot ∈ p.slots)
    (raised : p'.Backed s rig.device) (kept : p'.rewound = p.rewound)
    (own' : slot.raised ∈ p'.slots)
    (others : ∀ later ∈ p'.slots, later = slot.raised ∨ later ∈ p.slots) (queue : Queue) :
    let outcome := rig.call (.signal queue slot.fence slot.raised.value)
    ∃ added, outcome.2.traffic.toList = rig.traffic.toList ++ added ∧
      signalTries added = [outcome.1.isOk] ∧
      Standing base s (tries ++ [(slot.fence, outcome.1.isOk)]) p' outcome.2.device := by
  have backed' := raised.signal own' queue
  obtain ⟨reached, below, known⟩ := standing.backed.fences slot own
  have single {later : FenceSlot} (member : later ∈ p'.slots) (same : later.fence = slot.fence) :
      later = slot.raised := List.inj_on_of_nodup_map raised.fits.apart member own' same
  rcases called : rig.call (.signal queue slot.fence slot.raised.value) with
    ⟨failure | ⟨⟩, after⟩
  all_goals
    have sameCall : rig.call (.signal queue slot.raised.fence slot.raised.value) = _ := called
    rw [sameCall] at backed'
  · have accepts : rig.Accepts (.signal queue slot.fence slot.raised.value) :=
      Rig.accepts_signal known (Nat.lt_succ_of_le below)
    obtain ⟨method, signal, traffic⟩ := Rig.traffic_of_refused accepts called
    cases signal
    obtain ⟨lists, fences⟩ := Rig.tables_of_call_error called
    -- The fence keeps its value, which is below the one that was tried last.
    refine ⟨[.refused .signal], traffic, rfl, kept.trans standing.kept, backed',
      fun later member => ?_⟩
    have still : after.device.fenceValue? = rig.device.fenceValue? :=
      funext fun key => congrArg (List.lookup key) fences
    rw [lastTry_concat]
    split
    · rename_i same
      rw [single member same]
      exact ⟨reached, Nat.lt_succ_of_le below, by rw [still]; exact known⟩
    · rename_i other
      have stands := standing.stands later ((others later member).resolve_left fun same =>
        other (by rw [same]; rfl))
      unfold FenceSlot.Stands at stands ⊢
      rwa [still]
  · obtain ⟨_, _, _, pushed⟩ := Rig.call_ok called
    obtain ⟨_, _, _, _, moved⟩ := Rig.fenceValue?_of_signal called
    refine ⟨_, by rw [pushed, Array.toList_push], rfl, kept.trans standing.kept,
      backed', fun later member => ?_⟩
    rw [lastTry_concat]
    split
    · rename_i same
      rw [single member same]
      exact (moved slot.fence).trans (if_pos rfl)
    · rename_i other
      have stands := standing.stands later ((others later member).resolve_left fun same =>
        other (by rw [same]; rfl))
      unfold FenceSlot.Stands at stands ⊢
      rwa [moved, if_neg other]

/-- What a run on the rig comes to that signals the given fences in order: the traffic it adds, in
which all of them have been tried if it goes through, and where the player stands then. -/
structure Signalled (base : Player) (s : Schedule) (order : List FenceKey)
    (tries : List (FenceKey × Bool)) (rig : Rig) (outcome : Except Failure Unit × Player × Rig)
    (added : List Traffic) : Prop where
  traffic : outcome.2.2.traffic.toList = rig.traffic.toList ++ added
  le : (signalTries added).length ≤ order.length
  all : outcome.1 = .ok () → (signalTries added).length = order.length
  standing : Standing base s (tries ++ order.zip (signalTries added)) outcome.2.1
    outcome.2.2.device

def SignalsInTurn (op : Op Player Unit) (base : Player) (s : Schedule) (order : List FenceKey) :
    Prop :=
  ∀ tries p rig, Standing base s tries p rig.device →
    ∃ added, Signalled base s order tries rig (op.run p rig) added

variable {op next : Op Player Unit} {order more : List FenceKey}

theorem zip_append_of_le {α β : Type} {xs : List α} {zs : List β} (ys : List α)
    (le : zs.length ≤ xs.length) : (xs ++ ys).zip zs = xs.zip zs := by
  induction xs generalizing zs with
  | nil => simp [List.eq_nil_of_length_eq_zero (Nat.le_zero.mp le)]
  | cons x xs ih =>
    cases zs with
    | nil => simp
    | cons z zs => simpa using ih (by simpa using le)

theorem SignalsInTurn.bind (first : SignalsInTurn op base s order)
    (rest : SignalsInTurn next base s more) :
    SignalsInTurn (op >>= fun _ => next) base s (order ++ more) := by
  intro tries p rig standing
  obtain ⟨added, one⟩ := first tries p rig standing
  rw [Op.run_bind]
  rcases ran : op.run p rig with ⟨failure | ⟨⟩, mid, rigMid⟩
  all_goals rw [ran] at one
  · refine ⟨added, one.traffic, ?_, fun ok => ?_, ?_⟩
    · simpa using Nat.le_add_right_of_le one.le
    · cases ok
    · rw [zip_append_of_le more one.le]
      exact one.standing
  · obtain ⟨added', two⟩ := rest _ mid rigMid one.standing
    have all := one.all rfl
    refine ⟨added ++ added', ?_, ?_, fun ok => ?_, ?_⟩
    · rw [two.traffic, one.traffic, List.append_assoc]
    · simpa [all] using two.le
    · simpa [all] using two.all ok
    · rw [signalTries_append, List.zip_append all.symm, ← List.append_assoc]
      exact two.standing

theorem signals_of_quiet (quiet : ∀ p rig, (op.run p rig).2.1 = p ∧
    rig.Leads Call.IsQuiet (op.run p rig).2.2) : SignalsInTurn op base s [] := by
  intro tries p rig standing
  obtain ⟨same, leads⟩ := quiet p rig
  obtain ⟨lists, fences⟩ := leads.tables_of_quiet fun _ => id
  obtain ⟨added, traffic, none⟩ := leads.signalTries fun _ => Call.not_isSignal_of_isQuiet
  refine ⟨added, traffic, by simp [none], fun _ => by simp [none], ?_⟩
  rw [List.zip_nil_left, List.append_nil, same]
  exact standing.congr lists fences

theorem calm_quiet (start : Player) (rig : Rig) :
    Calm fun p rig' => p = start ∧ rig.Leads Call.IsQuiet rig' where
  quiet c quiet _ _ _ holds := ⟨holds.1, holds.2.call c quiet⟩
  recording _ _ recording holds := ⟨holds.1, holds.2.recording recording⟩

theorem signals_reclaim (set : Nat) : SignalsInTurn (reclaim set) base s [] :=
  signals_of_quiet fun p rig => (calm_quiet p rig).reclaim set p rig ⟨rfl, .refl⟩

theorem signals_handOver (fence : Nat) (signaller : FenceSlot → Queue) (waiting : Queue) :
    SignalsInTurn (handOver fence signaller waiting) base s base.keys[fence]?.toList := by
  intro tries p rig standing
  have key : base.keys[fence]? = (p.fences[fence]?).map (·.fence) := by
    rw [← own_keys_of_rewound standing.kept, keys, List.getElem?_map]
  unfold handOver
  rw [Op.run_bind, run_raise, key]
  cases found : p.fences[fence]? with
  | none =>
    refine ⟨[], (List.append_nil _).symm, Nat.zero_le _, fun ok => ?_, ?_⟩
    · cases ok
    · simpa using standing
  | some slot =>
    have own : slot ∈ p.slots := List.mem_append_left _ (List.mem_of_getElem? found)
    obtain ⟨signals, traffic, tried, stood⟩ := standing.signal own (standing.backed.raised fence)
      (rewound_raised p fence) (raised_mem_slots found) (fun _ => mem_slots_of_raised found)
      (signaller slot.raised)
    dsimp only
    rw [Op.run_bind, Op.run_call]
    have same : slot.raised.fence = slot.fence := rfl
    rw [same]
    rcases called : rig.call (.signal (signaller slot.raised) slot.fence slot.raised.value) with
      ⟨failure | ⟨⟩, after⟩
    all_goals
      rw [called] at traffic tried stood
      simp only [Except.isOk, Except.toBool] at tried stood
    · refine ⟨signals, traffic, by simp [tried], fun ok => ?_, by simpa [tried] using stood⟩
      cases ok
    · have quiet (p : Player) (rig : Rig) :
          ((Op.call (.wait waiting slot.fence slot.raised.value)).run p rig).2.1 = p ∧
            rig.Leads Call.IsQuiet
              ((Op.call (.wait waiting slot.fence slot.raised.value)).run p rig).2.2 :=
        ⟨rfl, Rig.Leads.refl.call (.wait waiting slot.fence slot.raised.value) trivial⟩
      obtain ⟨waits, waited⟩ := signals_of_quiet (s := s) quiet _ _ after stood
      have none : signalTries waits = [] :=
        List.eq_nil_of_length_eq_zero (Nat.le_zero.mp waited.le)
      refine ⟨signals ++ waits, ?_, by simp [tried, none], fun _ => by simp [tried, none], ?_⟩
      · exact waited.traffic.trans (by rw [traffic, List.append_assoc])
      · simpa [tried, none] using waited.standing

theorem signals_step (f : Frame) (e : Event) :
    SignalsInTurn (step f e) base s (e.signalKey? base.keys).toList := by
  cases e with
  | sync signal wait fence => exact signals_handOver fence.index (fun _ => signal) wait
  | openList | barriers | record | submit =>
    exact signals_of_quiet fun p rig => (calm_quiet p rig).step f rfl p rig ⟨rfl, .refl⟩

theorem signals_steps (f : Frame) (events : List Event) :
    SignalsInTurn (events.forM (step f)) base s
      (events.filterMap (Event.signalKey? base.keys)) := by
  induction events with
  | nil => exact signals_of_quiet fun p rig => ⟨rfl, .refl⟩
  | cons e events ih =>
    have one : SignalsInTurn (step f e) base s (e.signalKey? base.keys).toList := signals_step f e
    have first := one.bind ih
    cases named : e.signalKey? base.keys with
    | none => simpa [named] using first
    | some key => simpa [named] using first

theorem signals_closeFrame (set : Nat) :
    SignalsInTurn (closeFrame set) base s [base.frameFence.fence] := by
  intro tries p rig standing
  have raised : ({ p with frameFence := p.frameFence.raised } : Player).Backed s rig.device :=
    standing.backed.raiseFrame
  obtain ⟨signals, traffic, tried, stood⟩ := standing.signal p.frameFence_mem_slots raised rfl
    (frameFence_mem_slots _) (fun later member => by
      rcases List.mem_append.mp member with other | frame
      · exact Or.inr (List.mem_append_left _ other)
      · exact Or.inl (List.mem_singleton.mp frame)) p.frameFence.queue
  have backed := upholds_closeFrame_backed set p rig standing.backed
  rw [← fence_of_rewound standing.kept]
  rw [run_closeFrame] at backed ⊢
  rcases called : rig.call (.signal p.frameFence.queue p.frameFence.fence
    p.frameFence.raised.value) with ⟨failure | ⟨⟩, after⟩
  all_goals
    rw [called] at traffic tried stood backed
    simp only [Except.isOk, Except.toBool] at tried stood
  · refine ⟨signals, traffic, by simp [tried], fun _ => by simp [tried], ?_⟩
    simpa [tried] using stood
  · refine ⟨signals, traffic, by simp [tried], fun _ => by simp [tried], ?_⟩
    refine ⟨stood.kept, backed, fun slot member => ?_⟩
    have stands := stood.stands slot member
    simpa [tried] using stands

theorem signals_play (s : Schedule) (scene : Scene) (frameIndex : Nat) :
    SignalsInTurn (play s scene frameIndex) base s (base.signalOrder s) := by
  intro tries p rig standing
  rw [run_play standing.backed.fits]
  exact ((signals_reclaim p.nextSet).bind
    ((signals_steps _ s.cycle).bind (signals_closeFrame p.nextSet))) tries p rig standing

end Player

end RenderGraph
