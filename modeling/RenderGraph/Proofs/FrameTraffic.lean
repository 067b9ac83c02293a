import RenderGraph.Proofs.PlayerKept

/-! The traffic of a frame that goes through. Every event of the schedule makes its own part of it,
one event after another. Then every fence is signalled once more for the graphics queue, and last
the frame fence. -/

namespace RenderGraph

namespace Barrier

def onNative (native : ResourceKey) : Barrier → DeviceBarrier
  | transition t => .transition native t.before t.after t.hints
  | unordered _ => .unordered native

end Barrier

/-- The syncs at the end of a frame, which gather every queue that has a fence. -/
def Schedule.closing (s : Schedule) : List Event :=
  s.fences.zipIdx.map fun (queue, i) => .sync queue .graphics ⟨i⟩

/-- Everything that is replayed in one frame. -/
def Schedule.cycle (s : Schedule) : List Event := s.events ++ s.closing

namespace Player

namespace Frame

def Resolves (f : Frame) (barrier : Barrier) (made : DeviceBarrier) : Prop :=
  ∃ native, f.scene.native? barrier.resource f.frameIndex = some native ∧
    made = barrier.onNative native

def Binds (f : Frame) (r : ResourceId) (binding : Binding) : Prop :=
  f.scene.binding f.frameIndex r = .ok binding

inductive Carries (f : Frame) (p : Player) : Event → List Traffic → Player → Prop
  | openList {queue : Queue} {list : ListId} {key : ListKey}
    (own : f.lists[list.index]? = some key) :
    Carries f p (.openList queue list) [.command (.resetList key)] p
  | barriers {list : ListId} {batch : List Barrier} {key : ListKey} {made : List DeviceBarrier}
    (own : f.lists[list.index]? = some key) (resolved : List.Forall₂ f.Resolves batch made) :
    Carries f p (.barriers list batch) [.command (.barrier key made)] p
  | silent {list : ListId} {id : PassId} {key : ListKey} {pass : Pass}
    (own : f.lists[list.index]? = some key)
    (found : f.scene.declaration.getPass id = .ok pass) (unbound : pass.recorder = none) :
    Carries f p (.record list id) [] p
  | record {list : ListId} {id : PassId} {key : ListKey} {pass : Pass}
    {resources : List ResourceId} {bindings : List Binding}
    (own : f.lists[list.index]? = some key)
    (found : f.scene.declaration.getPass id = .ok pass) (bound : pass.recorder = some resources)
    (looked : List.Forall₂ f.Binds resources bindings) :
    Carries f p (.record list id)
      [.recording ⟨id, pass.name, pass.queue, key, f.frameIndex, bindings⟩] p
  | submit {list : ListId} {queue : Queue} {key : ListKey}
    (opened : f.schedule.listQueue? list = some queue)
    (own : f.lists[list.index]? = some key) :
    Carries f p (.submit list) [.command (.submit queue key)] p
  | sync {signal wait : Queue} {fence : FenceId} {slot : FenceSlot}
    (owned : p.fences[fence.index]? = some slot) :
    Carries f p (.sync signal wait fence)
      [.command (.signal signal slot.fence slot.raised.value),
        .command (.wait wait slot.fence slot.raised.value)] (p.raised fence.index)

inductive Replays (f : Frame) : Player → List Event → List Traffic → Player → Prop
  | nil (p : Player) : Replays f p [] [] p
  | cons {p mid after : Player} {e : Event} {events : List Event} {traffic more : List Traffic}
    (one : f.Carries p e traffic mid) (rest : Replays f mid events more after) :
    Replays f p (e :: events) (traffic ++ more) after

variable {f : Frame} {p mid after : Player} {e : Event} {events xs ys : List Event}
  {traffic : List Traffic} {rig rig' : Rig}

theorem Replays.split (replays : f.Replays p (xs ++ ys) traffic after) :
    ∃ mid first second, f.Replays p xs first mid ∧ f.Replays mid ys second after ∧
      traffic = first ++ second := by
  induction xs generalizing p traffic with
  | nil => exact ⟨p, [], traffic, .nil p, replays, rfl⟩
  | cons x xs ih =>
    cases replays with
    | @cons _ _ _ _ _ traffic _ one rest =>
      obtain ⟨mid, first, second, head, tail, rfl⟩ := ih rest
      exact ⟨mid, traffic ++ first, second, .cons one head, tail,
        (List.append_assoc _ _ _).symm⟩

theorem resolve_ok {barrier : Barrier} {made : DeviceBarrier}
    (ran : (f.resolve barrier).run p rig = (.ok made, after, rig')) :
    f.Resolves barrier made ∧ p = after ∧ rig = rig' := by
  obtain ⟨resource, _, _, allowed, ran⟩ := Op.run_bind_ok.mp ran
  rcases Op.run_allow_ok.mp allowed with ⟨_, rfl, rfl⟩
  split at ran
  · cases ran
  · rename_i native found
    cases barrier <;> cases ran <;> exact ⟨⟨native, found, rfl⟩, rfl, rfl⟩

end Frame

variable {f : Frame} {p after : Player} {e : Event} {events : List Event} {s : Schedule}
  {rig rig' : Rig}

theorem raise_ok {fence : Nat} {slot : FenceSlot}
    (ran : (raise fence).run p rig = (.ok slot, after, rig')) :
    ∃ before, p.fences[fence]? = some before ∧ slot = before.raised ∧ after = p.raised fence ∧
      rig' = rig := by
  rw [run_raise] at ran
  split at ran
  · rename_i before found
    cases ran
    exact ⟨before, found, rfl, rfl, rfl⟩
  · cases ran

theorem handOver_ok {fence : Nat} {signaller : FenceSlot → Queue} {waiting : Queue}
    (ran : (do
      let slot ← raise fence
      Op.call (.signal (signaller slot) slot.fence slot.value)
      Op.call (.wait waiting slot.fence slot.value)).run p rig = (.ok (), after, rig')) :
    ∃ slot, p.fences[fence]? = some slot ∧ after = p.raised fence ∧
      rig'.traffic.toList = rig.traffic.toList ++
        [.command (.signal (signaller slot.raised) slot.fence slot.raised.value),
          .command (.wait waiting slot.fence slot.raised.value)] := by
  obtain ⟨slot, _, _, raising, last⟩ := Op.run_bind_ok.mp ran
  obtain ⟨before, owned, rfl, rfl, rfl⟩ := raise_ok raising
  obtain ⟨_, _, _, signalled, waited⟩ := Op.run_bind_ok.mp last
  rcases Op.traffic_of_call signalled with ⟨rfl, first⟩
  rcases Op.traffic_of_call waited with ⟨rfl, second⟩
  refine ⟨before, owned, rfl, ?_⟩
  rw [second, first, List.append_assoc]
  rfl

theorem step_ok (ran : (step f e).run p rig = (.ok (), after, rig')) :
    ∃ traffic, rig'.traffic.toList = rig.traffic.toList ++ traffic ∧
      f.Carries p e traffic after := by
  cases e with
  | openList queue list =>
    obtain ⟨key, _, _, entry, called⟩ := Op.run_bind_ok.mp ran
    rcases Op.run_entry_ok.mp entry with ⟨own, rfl, rfl⟩
    rcases Op.traffic_of_call called with ⟨rfl, traffic⟩
    exact ⟨_, traffic, .openList own⟩
  | barriers list batch =>
    obtain ⟨made, _, _, resolving, ran⟩ := Op.run_bind_ok.mp ran
    rcases Op.run_mapM_ok Frame.resolve_ok resolving with ⟨resolved, rfl, rfl⟩
    obtain ⟨key, _, _, entry, called⟩ := Op.run_bind_ok.mp ran
    rcases Op.run_entry_ok.mp entry with ⟨own, rfl, rfl⟩
    rcases Op.traffic_of_call called with ⟨rfl, traffic⟩
    exact ⟨_, traffic, .barriers own resolved⟩
  | record list id =>
    obtain ⟨pass, _, _, allowed, ran⟩ := Op.run_bind_ok.mp ran
    rcases Op.run_allow_ok.mp allowed with ⟨found, rfl, rfl⟩
    obtain ⟨key, _, _, entry, ran⟩ := Op.run_bind_ok.mp ran
    rcases Op.run_entry_ok.mp entry with ⟨own, rfl, rfl⟩
    unfold Frame.record at ran
    split at ran
    · rename_i unbound
      cases ran
      exact ⟨[], (List.append_nil _).symm, .silent own found unbound⟩
    · rename_i resources bound
      obtain ⟨bindings, _, _, looking, ran⟩ := Op.run_bind_ok.mp ran
      rcases Op.run_mapM_ok (R := f.Binds) (fun ran => Op.run_allow_ok.mp ran) looking with
        ⟨looked, rfl, rfl⟩
      cases ran
      exact ⟨_, Array.toList_push, .record own found bound looked⟩
  | submit list =>
    obtain ⟨queue, _, _, entry, ran⟩ := Op.run_bind_ok.mp ran
    rcases Op.run_entry_ok.mp entry with ⟨opened, rfl, rfl⟩
    obtain ⟨key, _, _, entry, called⟩ := Op.run_bind_ok.mp ran
    rcases Op.run_entry_ok.mp entry with ⟨own, rfl, rfl⟩
    rcases Op.traffic_of_call called with ⟨rfl, traffic⟩
    exact ⟨_, traffic, .submit opened own⟩
  | sync signal wait fence =>
    obtain ⟨slot, owned, rfl, traffic⟩ := handOver_ok ran
    exact ⟨_, traffic, .sync owned⟩

theorem steps_ok (ran : (events.forM (step f)).run p rig = (.ok (), after, rig')) :
    ∃ traffic, rig'.traffic.toList = rig.traffic.toList ++ traffic ∧
      f.Replays p events traffic after := by
  induction events generalizing p rig with
  | nil =>
    cases ran
    exact ⟨[], (List.append_nil _).symm, .nil _⟩
  | cons e events ih =>
    obtain ⟨_, _, _, one, rest⟩ := Op.run_bind_ok.mp ran
    obtain ⟨first, head, carries⟩ := step_ok one
    obtain ⟨second, tail, replays⟩ := ih rest
    exact ⟨first ++ second, by rw [tail, head, List.append_assoc], .cons carries replays⟩

theorem queues_of_rewound (same : after.rewound = p.rewound) :
    after.fences.map (·.queue) = p.fences.map (·.queue) := by
  have queues := congrArg (fun p : Player => p.fences.map (·.queue)) same
  simpa [rewound, FenceSlot.rewound, Function.comp_def] using queues

theorem run_gather {fence : Nat} {queue : Queue}
    (owner : (p.fences.map (·.queue))[fence]? = some queue) (rig : Rig) :
    (gather fence).run p rig = (step f (.sync queue .graphics ⟨fence⟩)).run p rig := by
  apply Op.run_bind_congr
  intro slot mid rigMid raising
  obtain ⟨before, owned, rfl, rfl, rfl⟩ := raise_ok raising
  rw [List.getElem?_map, owned] at owner
  cases owner
  rfl

theorem run_gathers {queues : List Queue} {offset : Nat}
    (owners : (p.fences.map (·.queue)).drop offset = queues) (rig : Rig) :
    ((List.range' offset queues.length).forM gather).run p rig =
      (((queues.zipIdx offset).map fun (queue, i) => Event.sync queue .graphics ⟨i⟩).forM
        (step f)).run p rig := by
  induction queues generalizing p rig offset with
  | nil => rfl
  | cons queue queues ih =>
    have owner : (p.fences.map (·.queue))[offset]? = some queue := by
      rw [← Nat.add_zero offset, ← List.getElem?_drop, owners]
      rfl
    rw [List.length_cons, List.range'_succ, List.zipIdx_cons, List.map_cons]
    change (gather offset >>= fun _ => _).run p rig = (step f _ >>= fun _ => _).run p rig
    rw [Op.run_bind, Op.run_bind, run_gather (f := f) owner]
    rcases ran : (step f (.sync queue .graphics ⟨offset⟩)).run p rig with ⟨failure | _, mid, rigMid⟩
    · rfl
    · apply ih
      rw [queues_of_rewound ((keeps_step rewound_raised f _).of_run ran), ← List.drop_drop, owners]
      rfl

/-! Whole frames. -/

def reclaims (p : Player) : List Traffic :=
  let value := p.setValues.getD p.nextSet 0
  if 0 < value then [.command (.waitCpu p.frameFence.fence value)] else []

def closes (p : Player) : Traffic :=
  .command (.signal p.frameFence.queue p.frameFence.fence p.frameFence.raised.value)

/-- The lists the next frame uses. -/
def nextLists (p : Player) : List ListKey := p.sets.getD p.nextSet []

/-- The traffic of a frame that goes through, and the player after it. -/
inductive Turn (s : Schedule) (scene : Scene) (frameIndex : Nat) (p : Player) :
    List Traffic → Player → Prop
  | mk {traffic : List Traffic} {mid : Player}
    (replays : Frame.Replays ⟨s, scene, frameIndex, p.nextLists⟩ p s.cycle traffic mid) :
    Turn s scene frameIndex p (p.reclaims ++ traffic ++ [mid.closes]) (mid.closed p.nextSet)

theorem Frame.Replays.kept {traffic : List Traffic} (replays : f.Replays p events traffic after) :
    after.rewound = p.rewound ∧ ∃ fences, after = { p with fences } := by
  induction replays with
  | nil p => exact ⟨rfl, p.fences, rfl⟩
  | cons one _ ih =>
    obtain ⟨rewound, fences, rfl⟩ := ih
    cases one with
    | sync => exact ⟨rewound.trans (rewound_raised _ _), fences, rfl⟩
    | openList | barriers | silent | record | submit => exact ⟨rewound, fences, rfl⟩

theorem reclaim_ok (ran : (reclaim p.nextSet).run p rig = (.ok (), after, rig')) :
    p = after ∧ rig'.traffic.toList = rig.traffic.toList ++ p.reclaims := by
  obtain ⟨_, _, _, reading, waiting⟩ := Op.run_bind_ok.mp ran
  cases reading
  unfold reclaims
  dsimp only at waiting ⊢
  split at waiting
  · rename_i waits
    rw [if_pos waits]
    rcases Op.traffic_of_call waiting with ⟨same, traffic⟩
    exact ⟨same.symm, traffic⟩
  · rename_i unused
    rw [if_neg unused]
    cases waiting
    exact ⟨rfl, (List.append_nil _).symm⟩

theorem closeFrame_ok {set : Nat} (ran : (closeFrame set).run p rig = (.ok (), after, rig')) :
    after = p.closed set ∧ rig'.traffic.toList = rig.traffic.toList ++ [p.closes] := by
  rw [run_closeFrame] at ran
  split at ran
  · rename_i called
    simp only [Prod.mk.injEq, true_and] at ran
    rcases ran with ⟨rfl, rfl⟩
    obtain ⟨_, _, _, traffic⟩ := Rig.call_ok called
    exact ⟨rfl, traffic ▸ Array.toList_push⟩
  · cases ran

theorem run_play (fits : p.Fits s) (scene : Scene) (frameIndex : Nat) (rig : Rig) :
    (play s scene frameIndex).run p rig =
      (reclaim p.nextSet >>= fun _ =>
        s.cycle.forM (step ⟨s, scene, frameIndex, p.nextLists⟩) >>= fun _ =>
          closeFrame p.nextSet).run p rig := by
  unfold play
  rw [Op.run_bind, Op.run_read]
  apply Op.run_bind_congr
  intro _ mid rigMid reclaiming
  have kept : mid.rewound = p.rewound := (keeps_reclaim p.nextSet).of_run reclaiming
  rw [Schedule.cycle, List.forM_eq_forM, List.forM_append, bind_assoc]
  apply Op.run_bind_congr
  intro _ last rigLast stepping
  have count : p.fences.length = s.fences.length := by
    rw [← fits.queues, List.length_map]
  have owners : (last.fences.map (·.queue)).drop 0 = s.fences := by
    have stepped : last.rewound = mid.rewound :=
      (Op.keeps_forM _ fun e => keeps_step rewound_raised _ e).of_run stepping
    exact (queues_of_rewound (stepped.trans kept)).trans fits.queues
  rw [Op.run_bind, Op.run_bind, count, List.range_eq_range', run_gathers owners]
  rfl

theorem play_ok {scene : Scene} {frameIndex : Nat} (fits : p.Fits s)
    (ran : (play s scene frameIndex).run p rig = (.ok (), after, rig')) :
    ∃ traffic, rig'.traffic.toList = rig.traffic.toList ++ traffic ∧
      p.Turn s scene frameIndex traffic after := by
  rw [run_play fits] at ran
  obtain ⟨_, _, _, reclaiming, ran⟩ := Op.run_bind_ok.mp ran
  rcases reclaim_ok reclaiming with ⟨rfl, first⟩
  obtain ⟨_, mid, _, stepping, closing⟩ := Op.run_bind_ok.mp ran
  obtain ⟨body, second, replays⟩ := steps_ok stepping
  rcases closeFrame_ok closing with ⟨rfl, last⟩
  refine ⟨_, ?_, .mk replays⟩
  rw [last, second, first]
  simp only [List.append_assoc]

end Player

end RenderGraph
