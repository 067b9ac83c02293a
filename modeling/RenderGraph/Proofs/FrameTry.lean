import RenderGraph.Proofs.CallsMade
import RenderGraph.Proofs.FrameOrder

/-! Frames that may fail on the way. A frame that is given up has replayed a part of the schedule,
and all that it has done besides is to signal a fence that nobody waits for. It does not count, so
that the next frame uses the same set of lists. -/

namespace RenderGraph

def Rig.Silent (rig rig' : Rig) : Prop :=
  ∃ tail, rig'.traffic.toList = rig.traffic.toList ++ tail ∧ ∀ sent, .command sent ∉ tail

theorem Rig.silent_refl (rig : Rig) : rig.Silent rig :=
  ⟨[], (List.append_nil _).symm, fun _ => List.not_mem_nil⟩

theorem Rig.silent_of_call_error {rig after : Rig} {c : Call} {failure : Failure}
    (ran : rig.call c = (.error failure, after)) : rig.Silent after := by
  rcases (call_error ran).1 with same | ⟨method, _, refused⟩
  · exact ⟨[], by rw [same, List.append_nil], fun _ => List.not_mem_nil⟩
  · exact ⟨[.refused method], by rw [refused, Array.toList_push], by simp⟩

namespace Op

variable {σ α β : Type} {s after : σ} {rig rig' : Rig} {failure : Failure}

theorem run_call_error {c : Call}
    (ran : (call c : Op σ c.Reply).run s rig = (.error failure, after, rig')) :
    after = s ∧ rig.Silent rig' := by
  simp only [run_call, Prod.mk.injEq] at ran
  rcases ran with ⟨failed, rfl, rfl⟩
  exact ⟨rfl, Rig.silent_of_call_error (Prod.ext failed rfl)⟩

theorem run_entry_bind_error {entries : List α} {index : Nat} {next : α → Op σ β}
    (ran : (entry entries index >>= next).run s rig = (.error failure, after, rig')) :
    rig.Silent rig' ∨ ∃ a, (next a).run s rig = (.error failure, after, rig') := by
  unfold entry at ran
  cases found : entries[index]? with
  | none =>
    rw [found] at ran
    cases ran
    exact Or.inl rig.silent_refl
  | some a =>
    rw [found] at ran
    exact Or.inr ⟨a, ran⟩

theorem run_allow_bind_error {result : Except Misuse α} {next : α → Op σ β}
    (ran : (allow result >>= next).run s rig = (.error failure, after, rig')) :
    rig.Silent rig' ∨ ∃ a, (next a).run s rig = (.error failure, after, rig') := by
  cases result with
  | error misuse =>
    cases ran
    exact Or.inl rig.silent_refl
  | ok a => exact Or.inr ⟨a, ran⟩

theorem run_mapM_error {f : α → Op σ β}
    (each : ∀ {a b s after rig rig'}, (f a).run s rig = (.ok b, after, rig') → rig = rig')
    (fails : ∀ {a s after rig rig' failure},
      (f a).run s rig = (.error failure, after, rig') → rig.Silent rig')
    {xs : List α} (ran : (xs.mapM f).run s rig = (.error failure, after, rig')) :
    rig.Silent rig' := by
  induction xs generalizing s rig with
  | nil => cases ran
  | cons x xs ih =>
    rw [List.mapM_cons] at ran
    rcases run_bind_error.mp ran with failed | ⟨_, _, _, first, ran⟩
    · exact fails failed
    · cases each first
      rcases run_bind_error.mp ran with failed | ⟨_, _, _, _, last⟩
      · exact ih failed
      · cases last

end Op

namespace Player

variable {f : Frame} {p after : Player} {e : Event} {events : List Event} {s : Schedule}
  {rig rig' : Rig} {failure : Failure}

theorem Frame.resolve_error {barrier : Barrier}
    (ran : (f.resolve barrier).run p rig = (.error failure, after, rig')) : rig.Silent rig' := by
  rcases Op.run_allow_bind_error ran with silent | ⟨resource, rest⟩
  · exact silent
  · split at rest
    · cases rest
      exact rig.silent_refl
    · cases barrier <;> cases rest

theorem Frame.record_error {list : ListKey} {id : PassId} {pass : Pass}
    (ran : (f.record list id pass).run p rig = (.error failure, after, rig')) :
    rig.Silent rig' := by
  unfold Frame.record at ran
  split at ran
  · cases ran
  · rcases Op.run_bind_error.mp ran with failed | ⟨_, _, _, _, recorded⟩
    · refine Op.run_mapM_error (fun bound => (Op.run_allow_ok.mp bound).2.2) ?_ failed
      intro r s after rig rig' failure refused
      rw [← bind_pure (Op.allow _)] at refused
      rcases Op.run_allow_bind_error refused with silent | ⟨_, ok⟩
      · exact silent
      · cases ok
    · cases recorded

/-- The traffic of an event that is given up: the signal of a sync whose wait fails, at most. -/
def Abandons (p : Player) (e : Event) (traffic : List Traffic) : Prop :=
  ∀ sent, .command sent ∈ traffic → ∃ signal wait fence slot, e = .sync signal wait fence ∧
    p.fences[fence.index]? = some slot ∧ sent = .signal signal slot.fence slot.raised.value

theorem handOver_error {signal wait : Queue} {fence : FenceId}
    (ran : (step f (.sync signal wait fence)).run p rig = (.error failure, after, rig')) :
    ∃ traffic, rig'.traffic.toList = rig.traffic.toList ++ traffic ∧
      p.Abandons (.sync signal wait fence) traffic := by
  have silently (silent : rig.Silent rig') : ∃ traffic,
      rig'.traffic.toList = rig.traffic.toList ++ traffic ∧
        p.Abandons (.sync signal wait fence) traffic := by
    obtain ⟨tail, same, none⟩ := silent
    exact ⟨tail, same, fun sent member => absurd member (none sent)⟩
  rcases Op.run_bind_error.mp ran with failed | ⟨_, _, _, raising, calls⟩
  · rw [run_raise] at failed
    split at failed <;> cases failed
    exact silently rig.silent_refl
  · obtain ⟨slot, owned, rfl, rfl, rfl⟩ := raise_ok raising
    rcases Op.run_bind_error.mp calls with failed | ⟨_, _, _, signalled, waited⟩
    · exact silently (Op.run_call_error failed).2
    · rcases Op.traffic_of_call signalled with ⟨rfl, first⟩
      obtain ⟨_, tail, second, none⟩ := Op.run_call_error waited
      refine ⟨.command (.signal signal slot.fence slot.raised.value) :: tail, ?_, ?_⟩
      · rw [second, first, List.append_assoc]
        rfl
      · intro sent member
        rcases List.mem_cons.mp member with here | later
        · exact ⟨signal, wait, fence, slot, rfl, owned, Traffic.command.inj here⟩
        · exact absurd later (none sent)

theorem silent_step (quiet : e.syncFence? = none)
    (ran : (step f e).run p rig = (.error failure, after, rig')) : rig.Silent rig' := by
  cases e with
  | openList queue list =>
    rcases Op.run_entry_bind_error ran with silent | ⟨key, called⟩
    · exact silent
    · exact (Op.run_call_error called).2
  | barriers list batch =>
    rcases Op.run_bind_error.mp ran with failed | ⟨made, _, _, resolving, rest⟩
    · exact Op.run_mapM_error (fun ran => (Frame.resolve_ok ran).2.2) Frame.resolve_error failed
    · rcases Op.run_mapM_ok Frame.resolve_ok resolving with ⟨_, rfl, rfl⟩
      rcases Op.run_entry_bind_error rest with silent | ⟨key, called⟩
      · exact silent
      · exact (Op.run_call_error called).2
  | record list id =>
    rcases Op.run_allow_bind_error ran with silent | ⟨pass, rest⟩
    · exact silent
    · rcases Op.run_entry_bind_error rest with silent | ⟨key, recorded⟩
      · exact silent
      · exact Frame.record_error recorded
  | submit list =>
    rcases Op.run_entry_bind_error ran with silent | ⟨queue, rest⟩
    · exact silent
    · rcases Op.run_entry_bind_error rest with silent | ⟨key, called⟩
      · exact silent
      · exact (Op.run_call_error called).2
  | sync => cases quiet

/-- Only a sync makes more than one call, and so can fail after one that went through. -/
theorem step_error (ran : (step f e).run p rig = (.error failure, after, rig')) :
    ∃ traffic, rig'.traffic.toList = rig.traffic.toList ++ traffic ∧ p.Abandons e traffic := by
  by_cases quiet : e.syncFence? = none
  · obtain ⟨tail, same, none⟩ := silent_step quiet ran
    exact ⟨tail, same, fun sent member => absurd member (none sent)⟩
  · cases e with
    | sync signal wait fence => exact handOver_error ran
    | openList | barriers | record | submit => exact absurd rfl quiet

theorem steps_error (ran : (events.forM (step f)).run p rig = (.error failure, after, rig')) :
    ∃ done e rest mid body tail, events = done ++ e :: rest ∧ f.Replays p done body mid ∧
      mid.Abandons e tail ∧ rig'.traffic.toList = rig.traffic.toList ++ (body ++ tail) := by
  induction events generalizing p rig with
  | nil => cases ran
  | cons e events ih =>
    rcases Op.run_bind_error.mp ran with failed | ⟨_, _, _, one, others⟩
    · obtain ⟨tail, traffic, abandons⟩ := step_error failed
      exact ⟨[], e, events, p, [], tail, rfl, .nil p, abandons, traffic⟩
    · obtain ⟨first, head, carries⟩ := step_ok one
      obtain ⟨done, e', rest, mid, body, tail, rfl, replays, abandons, traffic⟩ := ih others
      refine ⟨e :: done, e', rest, mid, first ++ body, tail, rfl, .cons carries replays,
        abandons, ?_⟩
      rw [traffic, head]
      simp only [List.append_assoc]

/-! Whole frames. -/

/-- One attempt at a frame: whether it goes through, its traffic, and the player after it. -/
inductive Attempt (s : Schedule) (scene : Scene) (frameIndex : Nat) (p : Player) :
    Bool → List Traffic → Player → Prop
  | refused {traffic : List Traffic} (silent : ∀ sent, .command sent ∉ traffic) :
    Attempt s scene frameIndex p false traffic p
  | stopped {done : List Event} {body tail : List Traffic} {mid after : Player}
    (part : done <+: s.cycle)
    (replays : Frame.Replays ⟨s, scene, frameIndex, p.nextLists⟩ p done body mid)
    (signals : ∀ sent, .command sent ∈ tail → ∃ queue ∈ s.fences, ∃ slot ∈ mid.fences, ∃ value,
      sent = .signal queue slot.fence value)
    (rewound : after.rewound = p.rewound) (setValues : after.setValues = p.setValues)
    (frames : after.frames = p.frames) (grows : p.frameFence.value ≤ after.frameFence.value) :
    Attempt s scene frameIndex p false (p.reclaims ++ body ++ tail) after
  | whole {traffic : List Traffic} {after : Player}
    (turn : p.Turn s scene frameIndex traffic after) :
    Attempt s scene frameIndex p true traffic after

theorem reclaim_error (ran : (reclaim p.nextSet).run p rig = (.error failure, after, rig')) :
    after = p ∧ rig.Silent rig' := by
  rcases Op.run_bind_error.mp ran with failed | ⟨_, _, _, reading, waiting⟩
  · cases failed
  · cases reading
    dsimp only at waiting
    split at waiting
    · exact Op.run_call_error waiting
    · cases waiting

theorem steps_kept {result : Except Failure Unit}
    (ran : (events.forM (step f)).run p rig = (result, after, rig')) :
    after.rewound = p.rewound ∧ after.setValues = p.setValues ∧ after.frames = p.frames ∧
      after.frameFence = p.frameFence := by
  have keeps {β : Type} {view : Player → β} (same : ∀ p fence, view (raised p fence) = view p) :
      view after = view p := (Op.keeps_forM events fun e => keeps_step same f e).of_run ran
  exact ⟨keeps rewound_raised, keeps fun _ _ => rfl, keeps fun _ _ => rfl, keeps fun _ _ => rfl⟩

theorem play_error {scene : Scene} {frameIndex : Nat} (fits : p.Fits s) (signed : s.Signed)
    (ran : (play s scene frameIndex).run p rig = (.error failure, after, rig')) :
    ∃ traffic, rig'.traffic.toList = rig.traffic.toList ++ traffic ∧
      p.Attempt s scene frameIndex false traffic after := by
  rw [run_play fits] at ran
  rcases Op.run_bind_error.mp ran with failed | ⟨_, _, _, reclaiming, rest⟩
  · obtain ⟨rfl, tail, traffic, silent⟩ := reclaim_error failed
    exact ⟨tail, traffic, .refused silent⟩
  · rcases reclaim_ok reclaiming with ⟨rfl, first⟩
    rcases Op.run_bind_error.mp rest with failed | ⟨_, mid, _, stepping, closing⟩
    · obtain ⟨done, e, later, mid, body, tail, cycle, replays, abandons, traffic⟩ :=
        steps_error failed
      obtain ⟨rewound, setValues, frames, frameFence⟩ := steps_kept failed
      refine ⟨p.reclaims ++ body ++ tail, ?_, .stopped (cycle ▸ List.prefix_append _ _) replays ?_
        rewound setValues frames (Nat.le_of_eq (congrArg FenceSlot.value frameFence.symm))⟩
      · rw [traffic, first]
        simp only [List.append_assoc]
      · intro sent member
        obtain ⟨signal, wait, fence, slot, same, owned, logged⟩ := abandons sent member
        have inside : e ∈ s.cycle := cycle ▸ List.mem_append_right _ List.mem_cons_self
        exact ⟨signal, List.mem_of_getElem? (signed.owned e inside signal wait fence same), slot,
          List.mem_of_getElem? owned, _, logged⟩
    · obtain ⟨body, second, replays⟩ := steps_ok stepping
      obtain ⟨rewound, setValues, frames, frameFence⟩ := steps_kept stepping
      have value : p.frameFence.value ≤ mid.frameFence.raised.value :=
        frameFence ▸ Nat.le_succ _
      rw [run_closeFrame] at closing
      split at closing
      · cases closing
      · rename_i called
        cases closing
        obtain ⟨tail, last, silent⟩ := Rig.silent_of_call_error called
        refine ⟨p.reclaims ++ body ++ tail, ?_, .stopped (List.prefix_refl _) replays
          (fun sent member => absurd member (silent sent)) rewound setValues frames value⟩
        rw [last, second, first]
        simp only [List.append_assoc]

end Player

end RenderGraph
