import RenderGraph.Proofs.ExactOwnership
import RenderGraph.Proofs.ExecuteResult
import RenderGraph.Proofs.OwedSignals

/-! The discipline of fences. A fence is signalled with ever greater values, and a queue is told to
wait for a value only right after another one has been told to signal it. So whatever a queue waits
for is already under way, and the queues cannot block each other. -/

namespace RenderGraph

def Traffic.signalOn? (fence : FenceKey) : Traffic → Option Nat
  | .command (.signal _ key value) => if key = fence then some value else none
  | _ => none

def signalsOn (fence : FenceKey) (traffic : List Traffic) : List Nat :=
  traffic.filterMap (Traffic.signalOn? fence)

/-- A queue is told to wait for a fence, whether the device lets it or not. -/
def Traffic.IsQueueWait : Traffic → Prop
  | command (.wait ..) | refused .wait => True
  | _ => False

/-- The traffic before ends with the signal that is waited for. Of a wait that is refused, the
traffic keeps no more than that there was one. -/
def Heralded (before : List Traffic) (x : Traffic) : Prop :=
  ∃ earlier queue fence value, before = earlier ++ [.command (.signal queue fence value)] ∧
    (x = .refused .wait ∨ ∃ waiting, x = .command (.wait waiting fence value))

def WaitsHeralded (traffic : List Traffic) : Prop :=
  ∀ before x after, traffic = before ++ x :: after → x.IsQueueWait → Heralded before x

structure Traffic.IsStill (x : Traffic) : Prop where
  signals : ∀ fence, x.signalOn? fence = none
  waits : ¬ x.IsQueueWait

section

variable {traffic added : List Traffic} {x : Traffic} {fence key : FenceKey} {queue : Queue}
  {value : Nat}

@[simp] theorem signalsOn_append (fence : FenceKey) (xs ys : List Traffic) :
    signalsOn fence (xs ++ ys) = signalsOn fence xs ++ signalsOn fence ys :=
  List.filterMap_append

@[simp] theorem signalsOn_signal (fence key : FenceKey) (queue : Queue) (value : Nat) :
    signalsOn fence [.command (.signal queue key value)] = if key = fence then [value] else [] := by
  by_cases same : key = fence <;> simp [signalsOn, Traffic.signalOn?, same]

theorem signalsOn_of_still (still : ∀ x ∈ added, x.IsStill) : signalsOn fence added = [] := by
  simpa [signalsOn] using fun x member => (still x member).signals fence

theorem WaitsHeralded.concat (heralded : WaitsHeralded traffic)
    (last : x.IsQueueWait → Heralded traffic x) : WaitsHeralded (traffic ++ [x]) := by
  intro before y after cut waits
  rcases List.eq_nil_or_concat after with rfl | ⟨earlier, z, rfl⟩
  · obtain ⟨rfl, same⟩ := List.append_inj' cut rfl
    cases List.singleton_inj.mp same
    exact last waits
  · rw [List.concat_eq_append, ← List.cons_append, ← List.append_assoc] at cut
    exact heralded before y earlier (List.append_inj' cut rfl).1 waits

theorem WaitsHeralded.still (heralded : WaitsHeralded traffic) (still : ∀ x ∈ added, x.IsStill) :
    WaitsHeralded (traffic ++ added) := by
  induction added generalizing traffic with
  | nil => rwa [List.append_nil]
  | cons x added ih =>
    obtain ⟨first, rest⟩ := List.forall_mem_cons.mp still
    rw [← List.singleton_append, ← List.append_assoc]
    exact ih (heralded.concat fun waits => absurd waits first.waits) rest

end

/-! Queues at work. Each queue works off what it was given in order. -/

def Command.queue? : Command → Option Queue
  | submit queue _ | signal queue _ _ | wait queue _ _ => some queue
  | _ => none

/-- At the position of the traffic a queue was given a command. -/
def QueuedAt (traffic : List Traffic) (i : Nat) (queue : Queue) (command : Command) : Prop :=
  traffic[i]? = some (.command command) ∧ command.queue? = some queue

/-- A command that its queue can work off next, with the positions that are done so far: the queue
is done with all before it, and what it waits for has been signalled. -/
structure Ready (traffic : List Traffic) (done : Nat → Prop) (i : Nat) (queue : Queue)
    (command : Command) : Prop where
  queued : QueuedAt traffic i queue command
  left : ¬ done i
  turn : ∀ j < i, ∀ other, QueuedAt traffic j queue other → done j
  signalled : ∀ fence value, command = .wait queue fence value →
    ∃ j source reached, QueuedAt traffic j source (.signal source fence reached) ∧
      value ≤ reached ∧ done j

/-- The first command that is left is never blocked, so that some queue can always go on. -/
theorem WaitsHeralded.exists_ready {traffic : List Traffic} (heralded : WaitsHeralded traffic)
    {done : Nat → Prop} {i : Nat} {queue : Queue} {command : Command}
    (queued : QueuedAt traffic i queue command) (left : ¬ done i) :
    ∃ j queue command, Ready traffic done j queue command := by
  classical
  have some : ∃ j queue command, QueuedAt traffic j queue command ∧ ¬ done j :=
    ⟨i, queue, command, queued, left⟩
  -- The first command that is left is ready: what a wait needs is signalled before it.
  obtain ⟨source, first, queued, left⟩ := Nat.find_spec some
  have early {j : Nat} (less : j < Nat.find some) {other : Queue} {sent : Command}
      (queued : QueuedAt traffic j other sent) : done j := by
    by_contra left
    exact Nat.find_min some less ⟨other, sent, queued, left⟩
  refine ⟨Nat.find some, source, first, queued, left, fun j less other => early less, ?_⟩
  rintro fence value rfl
  obtain ⟨inside, here⟩ := List.getElem?_eq_some_iff.mp queued.1
  have cut : traffic = traffic.take (Nat.find some) ++
      .command (.wait source fence value) :: traffic.drop (Nat.find some + 1) := by
    rw [← here, List.getElem_cons_drop inside, List.take_append_drop]
  obtain ⟨earlier, signaller, key, reached, before, named⟩ := heralded _ _ _ cut trivial
  have named : key = fence ∧ reached = value := by
    rcases named with refused | ⟨waiting, same⟩
    · cases refused
    · cases same
      exact ⟨rfl, rfl⟩
  obtain ⟨rfl, rfl⟩ := named
  have length : Nat.find some = earlier.length + 1 := by
    have lengths := congrArg List.length before
    simp only [List.length_take, List.length_append, List.length_singleton] at lengths
    omega
  have signal : QueuedAt traffic earlier.length signaller (.signal signaller key reached) := by
    refine ⟨?_, rfl⟩
    rw [cut, before, List.append_assoc]
    simp
  exact ⟨earlier.length, signaller, reached, signal, Nat.le_refl _, early (by omega) signal⟩

/-- Fences are signalled with ever greater values, a queue waits for what has just been signalled,
and whatever the queues have worked off so far, one of them can go on until nothing is left. -/
structure Disciplined (traffic : List Traffic) : Prop where
  rising : ∀ fence, (signalsOn fence traffic).Pairwise (· < ·)
  heralded : WaitsHeralded traffic
  unblocked : ∀ done i queue command, QueuedAt traffic i queue command → ¬ done i →
    ∃ j queue command, Ready traffic done j queue command

/-! What calls leave in the traffic. -/

namespace Call

variable {c : Call} {x : Traffic}

theorem Leaves.still (leaves : c.Leaves x) (noSignal : ¬ c.IsSignal) (noWait : ¬ c.IsQueueWait) :
    x.IsStill := by
  rcases leaves with ⟨reply, rfl⟩ | ⟨method, known, rfl⟩
  · cases c with
    | signal => exact absurd trivial noSignal
    | wait => exact absurd trivial noWait
    | _ => exact ⟨fun _ => rfl, id⟩
  · refine ⟨fun _ => rfl, fun waits => ?_⟩
    cases method with
    | wait => cases c <;> first | exact noWait trivial | cases known
    | _ => exact waits

theorem not_isQueueWait_of_isUpkeep (upkeep : c.IsUpkeep) : ¬ c.IsQueueWait := by
  cases c <;> first | exact id | cases upkeep

theorem not_isQueueWait_of_isWait (wait : c.IsWait) : ¬ c.IsQueueWait := by
  cases c <;> first | exact id | cases wait

end Call

namespace Rig

variable {rig after : Rig} {may : Call → Prop}

def StaysStill (rig after : Rig) : Prop :=
  ∃ added, after.traffic.toList = rig.traffic.toList ++ added ∧ ∀ x ∈ added, x.IsStill

theorem StaysStill.signalsOn_eq (still : rig.StaysStill after) (fence : FenceKey) :
    signalsOn fence after.traffic.toList = signalsOn fence rig.traffic.toList := by
  obtain ⟨added, same, each⟩ := still
  rw [same, signalsOn_append, signalsOn_of_still each, List.append_nil]

theorem StaysStill.heralded (still : rig.StaysStill after)
    (heralded : WaitsHeralded rig.traffic.toList) : WaitsHeralded after.traffic.toList := by
  obtain ⟨added, same, each⟩ := still
  rw [same]
  exact heralded.still each

theorem staysStill_call {c : Call} (noSignal : ¬ c.IsSignal) (noWait : ¬ c.IsQueueWait) :
    rig.StaysStill (rig.call c).2 := by
  obtain ⟨added, same, left⟩ := rig.traffic_of_call c
  exact ⟨added, same, fun x member => (left x member).still noSignal noWait⟩

theorem staysStill_recording (rig : Rig) (recording : Recording) :
    rig.StaysStill (rig.record (.recording recording)) :=
  ⟨[.recording recording], Array.toList_push, by simpa using ⟨fun _ => rfl, id⟩⟩

theorem Leads.staysStill (leads : rig.Leads may after) (noSignal : ∀ c, may c → ¬ c.IsSignal)
    (noWait : ∀ c, may c → ¬ c.IsQueueWait) : rig.StaysStill after := by
  obtain ⟨added, same, each⟩ := leads.leaves
  refine ⟨added, same, fun x member => ?_⟩
  rcases each x member with ⟨recording, rfl⟩ | ⟨c, allowed, leaves⟩
  · exact ⟨fun _ => rfl, id⟩
  · exact leaves.still (noSignal c allowed) (noWait c allowed)

end Rig

/-! Replaying. -/

namespace Player

/-- Where the fences of a player stand. Every value that was signalled is of a fence that is gone by
now or of a fence of the player, which is then at least as far. -/
structure Counts (gone : FenceKey → Prop) (p : Player) (rig : Rig) : Prop where
  apart : (p.slots.map (·.fence)).Nodup
  live : ∀ key ∈ p.slots.map (·.fence), ¬ gone key
  given : ∀ key, ∀ value ∈ signalsOn key rig.traffic.toList,
    gone key ∨ ∃ slot ∈ p.slots, slot.fence = key ∧ value ≤ slot.value
  rising : ∀ key, (signalsOn key rig.traffic.toList).Pairwise (· < ·)
  heralded : WaitsHeralded rig.traffic.toList

variable {gone : FenceKey → Prop} {p p' : Player} {rig rig' : Rig} {slot : FenceSlot}

theorem Counts.still (counts : p.Counts gone rig) (still : rig.StaysStill rig') :
    p.Counts gone rig' := by
  refine ⟨counts.apart, counts.live, fun key => ?_, fun key => ?_, still.heralded counts.heralded⟩
  · rw [still.signalsOn_eq]
    exact counts.given key
  · rw [still.signalsOn_eq]
    exact counts.rising key

theorem Counts.grow (counts : p.Counts gone rig) (same : p'.rewound = p.rewound)
    (grows : ∀ slot ∈ p.slots, ∃ later ∈ p'.slots,
      later.fence = slot.fence ∧ slot.value ≤ later.value) : p'.Counts gone rig := by
  have keys := keys_of_rewound same
  refine ⟨keys ▸ counts.apart, keys ▸ counts.live, fun key value member => ?_, counts.rising,
    counts.heralded⟩
  rcases counts.given key value member with past | ⟨slot, own, rfl, le⟩
  · exact Or.inl past
  · obtain ⟨later, own', fence, le'⟩ := grows slot own
    exact Or.inr ⟨later, own', fence, Nat.le_trans le le'⟩

theorem Counts.le_value (counts : p.Counts gone rig) (own : slot ∈ p.slots) {value : Nat}
    (member : value ∈ signalsOn slot.fence rig.traffic.toList) : value ≤ slot.value := by
  rcases counts.given slot.fence value member with past | ⟨other, own', same, le⟩
  · exact absurd past (counts.live _ (List.mem_map_of_mem own))
  · rwa [List.inj_on_of_nodup_map counts.apart own' own same] at le

theorem Counts.signal (counts : p.Counts gone rig) (own : slot ∈ p.slots)
    (above : ∀ value ∈ signalsOn slot.fence rig.traffic.toList, value < slot.value)
    (queue : Queue) : p.Counts gone (rig.call (.signal queue slot.fence slot.value)).2 := by
  rcases called : rig.call (.signal queue slot.fence slot.value) with ⟨failure | ⟨⟩, after⟩
  · rcases (Rig.call_error called).1 with same | ⟨method, known, pushed⟩
    · exact counts.still ⟨[], by rw [same, List.append_nil], by simp⟩
    · cases known
      refine counts.still ⟨[.refused .signal], by rw [pushed, Array.toList_push], ?_⟩
      simpa using ⟨fun _ => rfl, id⟩
  · obtain ⟨_, _, _, pushed⟩ := Rig.call_ok called
    have traffic : after.traffic.toList =
        rig.traffic.toList ++ [.command (.signal queue slot.fence slot.value)] := by
      rw [pushed, Array.toList_push]
      rfl
    refine ⟨counts.apart, counts.live, fun key value member => ?_, fun key => ?_, ?_⟩
    · rw [traffic, signalsOn_append, List.mem_append, signalsOn_signal] at member
      rcases member with old | new
      · exact counts.given key value old
      · split at new
        · rename_i same
          exact Or.inr ⟨slot, own, same, Nat.le_of_eq (List.mem_singleton.mp new)⟩
        · cases new
    · rw [traffic, signalsOn_append, signalsOn_signal]
      split
      · rename_i same
        subst same
        simpa [List.pairwise_append] using ⟨counts.rising slot.fence, above⟩
      · simpa using counts.rising key
    · rw [traffic]
      exact counts.heralded.concat (absurd · id)

theorem Counts.wait (counts : p.Counts gone rig') {signaller waiting : Queue} {fence : FenceKey}
    {value : Nat} (signalled : rig.call (.signal signaller fence value) = (.ok (), rig')) :
    p.Counts gone (rig'.call (.wait waiting fence value)).2 := by
  obtain ⟨_, _, _, pushed⟩ := Rig.call_ok signalled
  have traffic : rig'.traffic.toList =
      rig.traffic.toList ++ [.command (.signal signaller fence value)] := by
    rw [pushed, Array.toList_push]
    rfl
  have last {x : Traffic} (named : x = .refused .wait ∨ ∃ waiting, x = .command (.wait waiting fence
      value)) {after : Rig} (pushed : after.traffic = rig'.traffic.push x) :
      p.Counts gone after := by
    have same : after.traffic.toList = rig'.traffic.toList ++ [x] := by
      rw [pushed, Array.toList_push]
    have none (key : FenceKey) : x.signalOn? key = Option.none := by
      rcases named with rfl | ⟨_, rfl⟩ <;> rfl
    have signals (key : FenceKey) :
        signalsOn key after.traffic.toList = signalsOn key rig'.traffic.toList := by
      rw [same, signalsOn_append]
      simp [signalsOn, none key]
    refine ⟨counts.apart, counts.live, fun key => ?_, fun key => ?_, ?_⟩
    · rw [signals]
      exact counts.given key
    · rw [signals]
      exact counts.rising key
    · rw [same]
      exact counts.heralded.concat fun _ => ⟨_, signaller, fence, value, traffic, named⟩
  rcases called : rig'.call (.wait waiting fence value) with ⟨failure | ⟨⟩, after⟩
  · rcases (Rig.call_error called).1 with same | ⟨method, known, pushed⟩
    · exact counts.still ⟨[], by rw [same, List.append_nil], by simp⟩
    · cases known
      exact last (Or.inl rfl) pushed
  · obtain ⟨_, _, _, pushed⟩ := Rig.call_ok called
    exact last (Or.inr ⟨waiting, rfl⟩) pushed

theorem orderly_counts (gone : FenceKey → Prop) : Orderly (Counts gone) where
  quiet c quiet noWait p rig counts := by
    exact counts.still (Rig.staysStill_call (Call.not_isSignal_of_isQuiet quiet) noWait)
  recording p rig recording counts := counts.still (rig.staysStill_recording recording)
  handOver fence signaller waiting p rig counts := by
    unfold handOver
    rw [Op.run_bind, run_raise]
    cases found : p.fences[fence]? with
    | none => exact counts
    | some slot =>
      have own : slot ∈ p.slots := List.mem_append_left _ (List.mem_of_getElem? found)
      have raised : (p.raised fence).Counts gone rig :=
        counts.grow (rewound_raised p fence) fun _ => p.exists_later_slot fence
      have signalled := raised.signal (raised_mem_slots found)
        (fun value member => Nat.lt_succ_of_le (counts.le_value own member))
        (signaller slot.raised)
      dsimp only
      rw [Op.run_bind, Op.run_call]
      rcases called : rig.call (.signal (signaller slot.raised) slot.raised.fence
        slot.raised.value) with ⟨failure | ⟨⟩, after⟩
      all_goals rw [called] at signalled
      · exact signalled
      · exact signalled.wait called

theorem upholds_closeFrame_counts (gone : FenceKey → Prop) (set : Nat) :
    (closeFrame set).Upholds (Counts gone) := by
  refine upholds_closeFrame_of set (fun p rig counts => ?_) fun p rig counts => ?_
  · have raised : ({ p with frameFence := p.frameFence.raised } : Player).Counts gone rig :=
      counts.grow rfl fun _ => p.exists_later_frame
    exact raised.signal (frameFence_mem_slots _)
      (fun value member => Nat.lt_succ_of_le (counts.le_value p.frameFence_mem_slots member)) _
  · exact ⟨counts.apart, counts.live, counts.given, counts.rising, counts.heralded⟩

theorem upholds_play_counts (gone : FenceKey → Prop) (s : Schedule) (scene : Scene)
    (frameIndex : Nat) : (play s scene frameIndex).Upholds (Counts gone) :=
  (orderly_counts gone).play (upholds_closeFrame_counts gone) s scene frameIndex

end Player

namespace Graph

structure Counts (g : Graph) (rig : Rig) : Prop where
  given : ∀ key, ∀ value ∈ signalsOn key rig.traffic.toList,
    .fence key ∈ givenUpIn rig.traffic.toList ∨ ∃ c, g.compilation = some c ∧
      ∃ slot ∈ c.player.slots, slot.fence = key ∧ value ≤ slot.value
  rising : ∀ key, (signalsOn key rig.traffic.toList).Pairwise (· < ·)
  heralded : WaitsHeralded rig.traffic.toList

variable {g g' : Graph} {rig rig' : Rig} {c : Compilation}

theorem Counts.still (counts : g.Counts rig) (still : rig.StaysStill rig')
    (kept : g'.compilation = g.compilation ∨ ∀ key, ∀ value ∈ signalsOn key rig.traffic.toList,
      .fence key ∈ givenUpIn rig'.traffic.toList) : g'.Counts rig' := by
  refine ⟨fun key value member => ?_, fun key => ?_, still.heralded counts.heralded⟩
  · rw [still.signalsOn_eq] at member
    rcases kept with kept | past
    · obtain ⟨added, same, _⟩ := still
      rw [kept]
      refine (counts.given key value member).imp_left fun past => ?_
      rw [same, givenUpIn_append]
      exact List.mem_append_left _ past
    · exact Or.inl (past key value member)
  · rw [still.signalsOn_eq]
    exact counts.rising key

theorem Accounts.fence_held (accounts : g.Accounts rig) (held : g.compilation = some c)
    {key : FenceKey} (own : key ∈ c.player.slots.map (·.fence)) :
    .fence key ∈ g.assets ∧ .fence key ∉ givenUpIn rig.traffic.toList := by
  have asset : .fence key ∈ g.assets := by
    obtain ⟨slot, member, rfl⟩ := List.mem_map.mp own
    refine List.mem_append_right _ ?_
    rw [playerAssets, held, Option.toList_some, List.flatMap_singleton]
    exact List.mem_append_right _ (List.mem_map_of_mem (f := fun slot : FenceSlot =>
      Asset.fence slot.fence) member)
  refine ⟨asset, fun past => ?_⟩
  have distinct := List.nodup_append.mp (accounts.account.nodup_iff.mp accounts.distinct)
  exact distinct.2.2 _ past _ asset rfl

theorem Counts.released (counts : g.Counts rig) (accounts : g.Accounts rig)
    (ran : release.run g rig = (.ok (), g', rig')) {key : FenceKey} {value : Nat}
    (member : value ∈ signalsOn key rig.traffic.toList) :
    .fence key ∈ givenUpIn rig'.traffic.toList := by
  have nothing := accounts_release accounts ran
  have extends' := (makes_release g rig).extends
  rw [ran] at extends'
  obtain ⟨added, same⟩ := extends'
  rcases counts.given key value member with past | ⟨c, held, slot, own, rfl, _⟩
  · rw [← same, givenUpIn_append]
    exact List.mem_append_left _ past
  · have asset := (accounts.fence_held held (List.mem_map_of_mem own)).1
    have made : .fence slot.fence ∈ madeIn rig.traffic.toList :=
      accounts.account.mem_iff.mpr (List.mem_append_right _ asset)
    have still : .fence slot.fence ∈ madeIn rig'.traffic.toList := by
      rw [← same, madeIn_append]
      exact List.mem_append_left _ made
    simpa using nothing.account.mem_iff.mp still

end Graph

namespace Graph

variable {g : Graph} {rig : Rig} {α : Type}

theorem Counts.disciplined (counts : g.Counts rig) : Disciplined rig.traffic.toList where
  rising := counts.rising
  heralded := counts.heralded
  unblocked _ _ _ _ queued left := counts.heralded.exists_ready queued left

theorem upholds_drain_counts : drain.Upholds Counts := by
  intro g rig counts
  have kept : drain.Keeps compilation := keeps_drain
  exact counts.still ((makes_drain g rig).staysStill (fun _ => Call.not_isSignal_of_isWait)
    fun _ => Call.not_isQueueWait_of_isWait) (Or.inl (kept g rig))

theorem counts_release {next : Op Graph α} (makes : next.Makes Call.IsUpkeep)
    (accounts : g.Accounts rig) (counts : g.Counts rig) :
    ((release >>= fun _ => next).run g rig).2.1.Counts
      ((release >>= fun _ => next).run g rig).2.2 := by
  have still : rig.StaysStill ((release >>= fun _ => next).run g rig).2.2 := by
    have all : (release >>= fun _ => next).Makes fun c => c.IsWait ∨ c.IsUpkeep :=
      makes_release.bind fun _ => makes.mono fun _ => Or.inr
    exact (all g rig).staysStill
      (fun c => Or.rec Call.not_isSignal_of_isWait Call.not_isSignal_of_isUpkeep)
      fun c => Or.rec Call.not_isQueueWait_of_isWait Call.not_isQueueWait_of_isUpkeep
  refine counts.still still ?_
  rw [Op.run_bind]
  rcases ran : release.run g rig with ⟨failure | ⟨⟩, g', rig'⟩
  · exact Or.inl (congrArg compilation (release_error ran).1)
  · obtain ⟨added, same⟩ := (makes g' rig').extends
    refine Or.inr fun key value member => ?_
    dsimp only
    rw [← same, givenUpIn_append]
    exact List.mem_append_left _ (counts.released accounts ran member)

theorem counts_execute (accounts : g.Accounts rig) (sound : g.Sound) (counts : g.Counts rig) :
    (execute.run g rig).2.1.Counts (execute.run g rig).2.2 := by
  rcases execute_cases g rig with idle | ⟨c, held, played⟩
  · rwa [idle]
  · have before : c.player.Counts (fun key => .fence key ∈ givenUpIn rig.traffic.toList) rig := by
      refine ⟨(sound c held).fits.apart, fun key own => (accounts.fence_held held own).2,
        fun key value member => ?_, counts.rising, counts.heralded⟩
      refine (counts.given key value member).imp_right ?_
      rintro ⟨c', held', slot, own⟩
      cases held.symm.trans held'
      exact ⟨slot, own⟩
    have after := Player.upholds_play_counts _ c.schedule g.scene g.frameIndex c.player rig before
    have extends' : rig.Extends (execute.run g rig).2.2 :=
      Session.extends_execute (s := ⟨g, rig⟩)
    rw [played] at extends' ⊢
    obtain ⟨added, same⟩ := extends'
    refine ⟨fun key value member => ?_, after.rising, after.heralded⟩
    refine (after.given key value member).imp (fun past => ?_) fun own => ⟨_, rfl, own⟩
    dsimp only
    rw [← same, givenUpIn_append]
    exact List.mem_append_left _ past

end Graph

namespace Session

variable {s : Session}

theorem counts_rebound (counts : s.graph.Counts s.rig) {r : ResourceId} {f : Copy → Copy} :
    (s.rebound (s.graph.rebind r f)).graph.Counts (s.rebound (s.graph.rebind r f)).rig := by
  obtain ⟨declaration, same⟩ := s.rebound_eq r f
  rw [same]
  exact ⟨counts.given, counts.rising, counts.heralded⟩

theorem Reachable.counts (reachable : s.Reachable) : s.graph.Counts s.rig := by
  induction reachable with
  | start config faults journal =>
    refine ⟨fun key value member => ?_, fun key => List.Pairwise.nil, fun before x after cut => ?_⟩
    · cases member
    · have empty : (Session.start config faults journal).rig.traffic.toList = [] := rfl
      simp [empty] at cut
  | @act s reachable a counts =>
    cases a with
    | importResource | manage | declare | setFrameIndex | useData | clearData | plan
      | refuseResources => exact ⟨counts.given, counts.rising, counts.heralded⟩
    | update r native => exact counts_rebound counts
    | updateView r kind view => exact counts_rebound counts
    | setFrameCount n =>
      exact Graph.counts_release (Op.makes_update _) reachable.accounts counts
    | compile =>
      exact Graph.counts_release (Graph.makes_cull.bind fun _ => Graph.makes_build)
        reachable.accounts counts
    | execute => exact Graph.counts_execute reachable.accounts reachable.upheld.2 counts
    | drain => exact Graph.upholds_drain_counts s.graph s.rig counts
    | reset =>
      exact Graph.counts_release ((Op.makes_update _).bind fun _ => Op.makes_note _ _)
        reachable.accounts counts

/-- Whatever a caller does and whatever fails, the values that a fence is signalled with strictly
increase, and every wait of a queue, refused or not, comes right after the accepted signal that it
is for. So the queues never block each other. The same holds when the graph is dropped. -/
theorem fences_disciplined (reachable : s.Reachable) :
    Disciplined s.rig.traffic.toList ∧ Disciplined (s.after Graph.drop).rig.traffic.toList := by
  have counts := reachable.counts
  have released : (Graph.release.run s.graph s.rig).2.1.Counts
      (Graph.release.run s.graph s.rig).2.2 := by
    have makes : (pure () : Op Graph Unit).Makes Call.IsUpkeep := Op.makes_pure ()
    have counted := Graph.counts_release makes reachable.accounts counts
    rwa [bind_pure_unit] at counted
  have dropped : (s.after Graph.drop).rig.traffic =
      (Graph.release.run s.graph s.rig).2.2.traffic := by
    have same : (s.after Graph.drop).rig = (Graph.drop.run s.graph s.rig).2.2 := rfl
    obtain ⟨_, _, left | ⟨text, left⟩⟩ := Graph.run_drop s.graph s.rig <;> rw [same, left]
    rfl
  exact ⟨counts.disciplined, dropped ▸ released.disciplined⟩

theorem faltered_disciplined : (faltered.act .execute).Reachable ∧
    signalsOn ⟨8⟩ (faltered.act .execute).rig.traffic.toList = [2, 3] ∧
    Disciplined (faltered.act .execute).rig.traffic.toList := by
  have reachable := faltered_reachable.act .execute
  exact ⟨reachable, by decide +kernel, (fences_disciplined reachable).1⟩

end Session

end RenderGraph
