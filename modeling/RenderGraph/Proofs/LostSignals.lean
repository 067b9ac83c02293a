import RenderGraph.Proofs.CompileFailure
import RenderGraph.Proofs.DrainFinishes
import RenderGraph.Proofs.ExecuteResult
import RenderGraph.Proofs.SignalTries

/-! Lost signals. Draining waits for the value that each fence has been given last. If the signal
with that value was refused, nobody gives it any more, and draining fails until another frame
signals the fence again. -/

namespace RenderGraph

namespace Kit

theorem maintains_fill_unused (s : Schedule) (count : Nat) :
    (fill s count).Maintains fun kit => ∀ slot ∈ kit.fences, slot.value = 0 := by
  have calls {α : Type} {op : Op Kit α} (keeps : op.Keeps (·.fences)) :
      op.Maintains fun kit => ∀ slot ∈ kit.fences, slot.value = 0 :=
    keeps.maintains fun kit kit' same unused => same ▸ unused
  have list (queue : Queue) : (addList queue).Keeps (·.fences) :=
    (Op.keeps_call _).bind fun _ => Op.keeps_update fun _ => rfl
  have fence (queue : Queue) : (addFence queue).Maintains
      fun kit => ∀ slot ∈ kit.fences, slot.value = 0 := by
    refine (calls (Op.keeps_call _)).bind fun fence => Op.maintains_update fun kit unused => ?_
    intro slot member
    rcases List.mem_append.mp member with old | new
    · exact unused slot old
    · rw [List.mem_singleton.mp new]
  have fences (queues : List Queue) : (queues.forM addFence).Maintains
      fun kit => ∀ slot ∈ kit.fences, slot.value = 0 := by
    induction queues with
    | nil => exact fun _ _ unused => unused
    | cons queue queues ih => exact (fence queue).bind fun _ => ih
  refine (calls (Op.keeps_forM _ list)).bind fun _ => ?_
  exact (fences s.fences).bind fun _ => calls (Op.keeps_call _)

end Kit

namespace Player

variable {σ : Type} {p : Player} {s : Schedule} {frameCount : Nat} {rig rig' : Rig} {d : Device}

theorem MadeFor.unused (made : p.MadeFor s frameCount rig) : ∀ slot ∈ p.slots, slot.value = 0 := by
  obtain ⟨before, ran⟩ := made
  obtain ⟨⟨result, kit⟩, _, _, aside, ran⟩ := Op.run_bind_ok.mp ran
  obtain ⟨filled, _⟩ := Op.run_aside_ok.mp aside
  cases result with
  | ok fence =>
    cases ran
    have unused := (Kit.maintains_fill_unused s _).of_run filled (by simp)
    intro slot member
    rcases List.mem_append.mp member with own | frame
    · exact unused slot own
    · rw [List.mem_singleton.mp frame]
  | error failure =>
    obtain ⟨_, _, _, _, ran⟩ := Op.run_bind_ok.mp ran
    obtain ⟨_, _, _, _, failed⟩ := Op.run_bind_ok.mp ran
    cases failed

/-! Draining. -/

def Reached (p : Player) (d : Device) : Prop :=
  ∀ slot ∈ p.slots, 0 < slot.value →
    ∃ reached, d.fenceValue? slot.fence = some reached ∧ slot.value ≤ reached

theorem reached_of_drain {s s' : σ}
    (ran : (p.drain : Op σ Unit).run s rig = (.ok (), s', rig')) : p.Reached rig.device := by
  unfold drain at ran
  unfold Reached
  generalize p.slots = slots at ran ⊢
  induction slots generalizing s rig with
  | nil => simp
  | cons slot slots ih =>
    obtain ⟨_, mid, rigMid, one, rest⟩ := Op.run_bind_ok.mp ran
    have later := ih rest
    dsimp only at one
    split at one
    · obtain ⟨_, device, answered, recorded, _⟩ := Op.run_call_ok one
      have fences : rigMid.device.fences = rig.device.fences := by
        rw [recorded, Device.eq_of_respond (by trivial) answered]
        rfl
      refine List.forall_mem_cons.mpr ⟨fun _ => ?_, fun other member positive => ?_⟩
      · simp only [Device.respond] at answered
        split at answered
        · cases answered
        · rename_i reached known
          split at answered
          · rename_i le
            exact ⟨reached, known, le⟩
          · cases answered
      · obtain ⟨reached, known, le⟩ := later other member positive
        rw [Device.fenceValue?, fences] at known
        exact ⟨reached, known, le⟩
    · rename_i unused
      cases one
      exact List.forall_mem_cons.mpr ⟨fun positive => absurd positive unused, later⟩

theorem Standing.reached_iff {base : Player} {tries : List (FenceKey × Bool)}
    (standing : Standing base s tries p d) :
    p.Reached d ↔ ∀ slot ∈ p.slots, lastTry slot.fence tries ≠ some false := by
  refine forall_congr' fun slot => forall_congr' fun member => ?_
  have stands := standing.stands slot member
  unfold FenceSlot.Stands at stands
  rcases last : lastTry slot.fence tries with _ | _ | _ <;> rw [last] at stands
  · simp [stands]
  · obtain ⟨reached, less, known⟩ := stands
    have positive : 0 < slot.value := Nat.zero_lt_of_lt less
    simp [positive, known, less]
  · simp [stands]

end Player

/-- The signals that were tried in frames with the given traffic, each with its outcome. -/
def Compilation.triesIn (c : Compilation) (frames : List (List Traffic)) :
    List (FenceKey × Bool) :=
  frames.flatMap fun traffic => (c.player.signalOrder c.schedule).zip (signalTries traffic)

namespace Graph

variable {g g' : Graph} {rig rig' : Rig}

theorem run_drain {c : Compilation} (held : g.compilation = some c) (rig : Rig) :
    drain.run g rig = (c.player.drain : Op Graph Unit).run g rig := by
  rw [drain, Op.run_bind, Op.run_read]
  dsimp only
  rw [held]

theorem exists_release_of_drain (ok : (drain.run g rig).1 = .ok ()) :
    ∃ g' rig', release.run g rig = (.ok (), g', rig') := by
  rcases ran : release.run g rig with ⟨failure | ⟨⟩, g', rig'⟩
  · rw [(release_error ran).2] at ok
    cases ok
  · exact ⟨g', rig', rfl⟩

theorem result_of_release {next : Op Graph Unit} (succeeds : next.Succeeds) (g : Graph)
    (rig : Rig) : ((release >>= fun _ => next).run g rig).1 = (drain.run g rig).1 := by
  rw [release_eq, bind_assoc, Op.run_bind]
  rcases drain.run g rig with ⟨failure | ⟨⟩, mid, rigMid⟩
  · rfl
  · obtain ⟨_, ok⟩ := (succeeds_giveUp.bind fun _ => succeeds) mid rigMid
    exact ok

end Graph

namespace Session

variable {s t u : Session} {c : Compilation} {frames : List (List Traffic)}

/-- The compilation in use was made in a session from which this one comes, with the frames tried
since. -/
def ServesSince (s : Session) (c : Compilation) (frames : List (List Traffic)) : Prop :=
  ∃ t u : Session, t.Reachable ∧ t.Does Graph.compile u ∧ u.graph.compilation = some c ∧
    u.Serves frames s

/-- A signal of the fence was refused, and the fence has not been signalled since. -/
def Lost (s : Session) (fence : FenceKey) : Prop :=
  ∃ c frames, s.ServesSince c frames ∧ lastTry fence (c.triesIn frames) = some false

theorem Reachable.serves (reachable : s.Reachable) :
    s.graph.compilation = none ∨ ∃ c frames, s.ServesSince c frames := by
  induction reachable with
  | start config faults journal => exact Or.inl rfl
  | @act s reachable a ih =>
    by_cases executes : a = .execute
    · subst executes
      rcases ih with none | ⟨c, frames, t, u, reached, does, held, serves⟩
      · exact Or.inl (compilation_execute_of_none none)
      · obtain ⟨traffic, made⟩ := s.extends_act .execute
        exact Or.inr ⟨c, _, t, u, reached, does, held, serves.execute traffic made.symm⟩
    · by_cases compiles : a = .compile ∧ (Graph.compile.run s.graph s.rig).1 = .ok ()
      · obtain ⟨rfl, ok⟩ := compiles
        have does : s.Does Graph.compile (s.act .compile) := does_after (by rw [ok]; rfl)
        obtain ⟨c, _, compiled, _⟩ := does.compiled
        exact Or.inr ⟨c, [], s, _, reachable, does, compiled.compilation, .start⟩
      · have fails : a = .compile →
            ∃ failure, (Graph.compile.run s.graph s.rig).1 = .error failure := by
          intro compile
          rcases ended : (Graph.compile.run s.graph s.rig).1 with failure | ⟨⟩
          · exact ⟨failure, rfl⟩
          · exact absurd ⟨compile, ended⟩ compiles
        rcases s.kept_or_none a executes fails with kept | gone
        · rcases ih with none | ⟨c, frames, t, u, reached, does, held, serves⟩
          · exact Or.inl (kept.compilation.trans none)
          · exact Or.inr ⟨c, frames, t, u, reached, does, held, serves.idle a kept⟩
        · exact Or.inl gone

theorem Serves.standing (serves : u.Serves frames s) (held : u.graph.compilation = some c)
    (start : Player.Standing c.player c.schedule [] c.player u.rig.device) :
    ∃ player executed, s.graph.compilation = some { c with player, executed } ∧
      Player.Standing c.player c.schedule (c.triesIn frames) player s.rig.device := by
  induction serves with
  | start => exact ⟨c.player, c.executed, held, start⟩
  | idle _ a kept ih =>
    obtain ⟨player, executed, held', standing⟩ := ih
    exact ⟨player, executed, kept.compilation.trans held',
      standing.congr kept.lists kept.fences⟩
  | @execute frames t _ traffic made ih =>
    obtain ⟨player, executed, held', standing⟩ := ih
    rw [Compilation.triesIn, List.flatMap_append, List.flatMap_singleton]
    rcases Graph.execute_cases t.graph t.rig with idle | ⟨c', held'', played⟩
    · have left : t.act .execute = ⟨(Graph.execute.run t.graph t.rig).2.1,
          (Graph.execute.run t.graph t.rig).2.2⟩ := rfl
      rw [left, idle] at made ⊢
      have none : traffic = [] := List.append_right_eq_self.mp made.symm
      rw [none, signalTries, List.filterMap_nil, List.zip_nil_right, List.append_nil]
      exact ⟨player, executed, held', standing⟩
    · cases held'.symm.trans held''
      obtain ⟨added, signalled⟩ := Player.signals_play c.schedule t.graph.scene t.graph.frameIndex
        _ player t.rig standing
      have left : t.act .execute = ⟨(Graph.execute.run t.graph t.rig).2.1,
          (Graph.execute.run t.graph t.rig).2.2⟩ := rfl
      rw [left, played] at made ⊢
      have equal : added = traffic := List.append_cancel_left (signalled.traffic.symm.trans made)
      rw [← equal]
      exact ⟨_, _, rfl, signalled.standing⟩

theorem ServesSince.standing (since : s.ServesSince c frames) :
    ∃ player executed, s.graph.compilation = some { c with player, executed } ∧
      Player.Standing c.player c.schedule (c.triesIn frames) player s.rig.device := by
  obtain ⟨t, u, reachable, does, held, serves⟩ := since
  have reachable' : u.Reachable := does.after_eq ▸ reachable.act .compile
  obtain ⟨c', _, compiled, _, _, _, made, _⟩ := does.compiled
  cases held.symm.trans compiled.compilation
  exact serves.standing held
    ⟨rfl, reachable'.backed.player c held, fun slot member => made.unused slot member⟩

theorem ServesSince.reached_iff {c' : Compilation} (since : s.ServesSince c frames)
    (held : s.graph.compilation = some c') : c'.player.Reached s.rig.device ↔
      ∀ fence, lastTry fence (c.triesIn frames) ≠ some false := by
  obtain ⟨player, executed, held', standing⟩ := since.standing
  cases held.symm.trans held'
  refine standing.reached_iff.trans ⟨fun none fence last => ?_, fun none slot _ => none slot.fence⟩
  obtain ⟨traffic, _, tried⟩ := List.mem_flatMap.mp (mem_of_lastTry last)
  obtain ⟨slot, own, rfl⟩ := Player.mem_slots_of_signalOrder (List.of_mem_zip tried).1
  have key : slot.fence ∈ player.slots.map (·.fence) := by
    rw [Player.keys_of_rewound standing.kept]
    exact List.mem_map_of_mem own
  obtain ⟨later, member, same⟩ := List.mem_map.mp key
  exact none later member (by rwa [same])

theorem drain_ok_iff (spared : (s.act .drain).rig.refusals = s.rig.refusals)
    (held : s.graph.compilation = some c) :
    (Graph.drain.run s.graph s.rig).1 = .ok () ↔ c.player.Reached s.rig.device := by
  have same := Graph.run_drain held s.rig
  rcases ran : Graph.drain.run s.graph s.rig with ⟨failure | ⟨⟩, g, rig⟩
  · refine iff_of_false (fun ok => by cases ok) fun reached => ?_
    rcases c.player.fares_drain s.graph s.rig failure g rig (same.symm.trans ran) with
      ⟨slot, member, positive, denied⟩ | ⟨more, _⟩
    · obtain ⟨value, known, le⟩ := reached slot member positive
      exact (Rig.accepts_waitCpu known le).not_denies failure denied
    · have left : (s.act .drain).rig = rig := congrArg (·.2.2) ran
      rw [← left, spared] at more
      exact absurd more (Nat.lt_irrefl _)
  · exact iff_of_true rfl (Player.reached_of_drain (same.symm.trans ran))

theorem leftBare_of_release {next : Op Graph Unit} (accounts : s.graph.Accounts s.rig)
    (upholds : (Graph.release >>= fun _ => next).Upholds Graph.Accounts)
    (residency : next.Keeps (·.residency)) (compilation : next.Keeps (·.compilation))
    (ok : (Graph.drain.run s.graph s.rig).1 = .ok ()) :
    (s.after (Graph.release >>= fun _ => next)).LeftBare := by
  obtain ⟨g, rig, ran⟩ := Graph.exists_release_of_drain ok
  have left : s.after (Graph.release >>= fun _ => next) =
      ⟨(next.run g rig).2.1, (next.run g rig).2.2⟩ := by
    unfold after
    rw [Op.run_bind, ran]
  have after : (s.after (Graph.release >>= fun _ => next)).graph.Accounts
      (s.after (Graph.release >>= fun _ => next)).rig := upholds s.graph s.rig accounts
  apply leftBare_of_nothing after
  · rw [left]
    exact (residency g rig).trans (Graph.residency_of_release ran)
  · rw [left]
    exact (compilation g rig).trans (Graph.compilation_of_release ran)

theorem leftBare_of_drop (accounts : s.graph.Accounts s.rig)
    (ok : (Graph.drain.run s.graph s.rig).1 = .ok ()) : (s.after Graph.drop).LeftBare := by
  have dropped : (s.after Graph.drop).graph.Accounts (s.after Graph.drop).rig :=
    Graph.upholds_drop_accounts s.graph s.rig accounts
  have same : (s.after Graph.drop).graph = (Graph.release.run s.graph s.rig).2.1 :=
    (Graph.run_drop s.graph s.rig).2.1
  obtain ⟨g, rig, ran⟩ := Graph.exists_release_of_drain ok
  rw [ran] at same
  apply leftBare_of_nothing dropped
  · rw [same]
    exact Graph.residency_of_release ran
  · rw [same]
    exact Graph.compilation_of_release ran

theorem not_lost_of_none (none : s.graph.compilation = none) (fence : FenceKey) :
    ¬ s.Lost fence := by
  rintro ⟨c, frames, since, _⟩
  obtain ⟨player, executed, held, _⟩ := since.standing
  rw [none] at held
  cases held

theorem Serves.mem_traffic (serves : u.Serves frames s) {traffic : List Traffic}
    (frame : traffic ∈ frames) {x : Traffic} (member : x ∈ traffic) :
    x ∈ s.rig.traffic.toList := by
  induction serves with
  | start => cases frame
  | idle _ a _ ih =>
    obtain ⟨added, same⟩ := extends_act _ a
    rw [← same]
    exact List.mem_append_left _ (ih frame)
  | execute _ last made ih =>
    rw [made]
    rcases List.mem_append.mp frame with earlier | here
    · exact List.mem_append_left _ (ih earlier)
    · rw [List.mem_singleton.mp here] at member
      exact List.mem_append_right _ member

theorem not_lost_of_accepted (accepted : Traffic.refused .signal ∉ s.rig.traffic.toList)
    (fence : FenceKey) : ¬ s.Lost fence := by
  rintro ⟨c, frames, ⟨t, u, _, _, _, serves⟩, last⟩
  obtain ⟨traffic, frame, tried⟩ := List.mem_flatMap.mp (mem_of_lastTry last)
  obtain ⟨x, member, refused⟩ := List.mem_filterMap.mp (List.of_mem_zip tried).2
  have same : x = .refused .signal := by
    unfold Traffic.signalled? at refused
    split at refused <;> first | rfl | cases refused
  exact accepted (same ▸ serves.mem_traffic frame member)

theorem drain_ok_iff_not_lost (reachable : s.Reachable)
    (spared : (s.act .drain).rig.refusals = s.rig.refusals) :
    (Graph.drain.run s.graph s.rig).1 = .ok () ↔ ∀ fence, ¬ s.Lost fence := by
  rcases reachable.serves with none | ⟨c, frames, since⟩
  · refine iff_of_true ?_ (not_lost_of_none none)
    rw [Graph.drain, Op.run_bind, Op.run_read]
    dsimp only
    rw [none]
    rfl
  · obtain ⟨player, executed, held, _⟩ := since.standing
    refine (drain_ok_iff spared held).trans ⟨fun reached fence lost => ?_, fun none => ?_⟩
    · obtain ⟨c', frames', since', last⟩ := lost
      exact (since'.reached_iff held).mp reached fence last
    · exact (since.reached_iff held).mpr fun fence last => none fence ⟨c, frames, since, last⟩

/-- Once no call is made to fail any more, draining goes through exactly if no fence is lost, and
whatever starts with a release ends as draining does. Without a refused signal no fence is lost,
whichever other calls have failed. As long as none is lost, all that the graph made can be given up
and nothing of it is left on the device. -/
theorem recoverable_unless_lost (reachable : s.Reachable)
    (spared : (s.act .drain).rig.refusals = s.rig.refusals) :
    ((Graph.drain.run s.graph s.rig).1 = .ok () ↔ ∀ fence, ¬ s.Lost fence) ∧
    (Graph.release.run s.graph s.rig).1 = (Graph.drain.run s.graph s.rig).1 ∧
    (Graph.reset.run s.graph s.rig).1 = (Graph.drain.run s.graph s.rig).1 ∧
    (∀ n, ((Graph.setFrameCount n).run s.graph s.rig).1 = (Graph.drain.run s.graph s.rig).1) ∧
    (Traffic.refused .signal ∉ s.rig.traffic.toList → ∀ fence, ¬ s.Lost fence) ∧
    ((∀ fence, ¬ s.Lost fence) →
      (s.after Graph.release).LeftBare ∧ (s.act .reset).LeftBare ∧
        (∀ n, (s.act (.setFrameCount n)).LeftBare) ∧ (s.after Graph.drop).LeftBare) := by
  have drains := drain_ok_iff_not_lost reachable spared
  have accounts := reachable.accounts
  have releases : (Graph.release >>= fun _ => pure ()) = Graph.release := bind_pure_unit
  have result := Graph.result_of_release (Op.succeeds_pure ()) s.graph s.rig
  rw [releases] at result
  refine ⟨drains, result, ?_, fun n => ?_, not_lost_of_accepted, fun none => ?_⟩
  · exact Graph.result_of_release ((Op.succeeds_update _).bind fun _ => Op.succeeds_note _ _)
      s.graph s.rig
  · exact Graph.result_of_release (Op.succeeds_update _) s.graph s.rig
  have ok := drains.mpr none
  refine ⟨?_, ?_, fun n => ?_, leftBare_of_drop accounts ok⟩
  · have bare := leftBare_of_release accounts
      (Graph.upholds_release_accounts fun _ _ empty none => Graph.accounts_of_nothing empty none)
      (Op.keeps_pure ()) (Op.keeps_pure ()) ok
    rwa [releases] at bare
  · refine leftBare_of_release accounts Graph.upholds_reset_accounts
      ((Op.keeps_update ?_).bind fun _ => Op.keeps_note _ _)
      ((Op.keeps_update ?_).bind fun _ => Op.keeps_note _ _) ok
    all_goals exact fun _ => rfl
  · exact leftBare_of_release accounts (Graph.upholds_setFrameCount_accounts n)
      (Op.keeps_update fun _ => rfl) (Op.keeps_update fun _ => rfl) ok

theorem faltered_recovered : faltered.Reachable ∧ (∃ fence, faltered.Lost fence) ∧
    (Graph.drain.run faltered.graph faltered.rig).1 ≠ .ok () ∧
    (∀ fence, ¬ (faltered.act .execute).Lost fence) ∧
    ((faltered.act .execute).act .reset).LeftBare ∧
    ((faltered.act .execute).after Graph.drop).LeftBare := by
  have reachable := faltered_reachable
  have fails : (Graph.drain.run faltered.graph faltered.rig).1 ≠ .ok () := by decide +kernel
  have drains : (Graph.drain.run (faltered.act .execute).graph (faltered.act .execute).rig).1 =
      .ok () := by decide +kernel
  have before := recoverable_unless_lost reachable (by decide +kernel)
  obtain ⟨ok_iff, _, _, _, _, bare⟩ :=
    recoverable_unless_lost (reachable.act .execute) (by decide +kernel)
  have none := ok_iff.mp drains
  obtain ⟨_, reset, _, drop⟩ := bare none
  refine ⟨reachable, ?_, fails, none, reset, drop⟩
  by_contra nowhere
  exact fails (before.1.mpr (not_exists.mp nowhere))

/-- Draining need not go through on a device that fails no calls. -/
theorem not_all_drain : ¬ ∀ s : Session, s.Reachable → s.rig.faults = [] →
    (Graph.drain.run s.graph s.rig).1 = .ok () := by
  intro all
  have ok := all (faltered.act (.plan [])) (faltered_reachable.act _) rfl
  have fails : (Graph.drain.run (faltered.act (.plan [])).graph
      (faltered.act (.plan [])).rig).1 ≠ .ok () := by decide +kernel
  exact fails ok

end Session

end RenderGraph
