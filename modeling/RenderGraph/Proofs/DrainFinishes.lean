import Mathlib
import RenderGraph.Proofs.FrameOrder
import RenderGraph.Proofs.OwedSignals
import RenderGraph.Proofs.WorkFinished

/-! What draining finishes. The processor waits for every signal that has been given, so that a list
is finished exactly if its queue has signalled a fence since the list was submitted. In a frame that
goes through, the graphics queue and the queues that have a fence do so, and no other one. -/

namespace RenderGraph

theorem cut_append {α : Type} {xs ys before late : List α} {x : α}
    (cut : xs ++ ys = before ++ x :: late) (other : x ∉ ys) :
    ∃ mid, xs = before ++ x :: mid ∧ late = mid ++ ys := by
  rcases List.append_eq_append_iff.mp cut with ⟨rest, _, later⟩ | ⟨rest, early, later⟩
  · exact absurd (later ▸ List.mem_append_right _ List.mem_cons_self) other
  · cases rest with
    | nil =>
      rw [List.nil_append] at later
      exact absurd (later ▸ List.mem_cons_self) other
    | cons y mid =>
      obtain ⟨rfl, rest⟩ := List.cons.inj later
      exact ⟨mid, early, rest⟩

theorem cut_append_right {α : Type} {xs ys before late : List α} {x : α}
    (cut : xs ++ ys = before ++ x :: late) (other : x ∉ xs) :
    ∃ mid, before = xs ++ mid ∧ ys = mid ++ x :: late := by
  rcases List.append_eq_append_iff.mp cut with ⟨mid, early, later⟩ | ⟨rest, early, later⟩
  · exact ⟨mid, early, later⟩
  · cases rest with
    | nil => exact ⟨[], by rw [early, List.append_nil, List.append_nil], later.symm⟩
    | cons y rest =>
      obtain ⟨rfl, _⟩ := List.cons.inj later
      exact absurd (early ▸ List.mem_append_right _ List.mem_cons_self) other

theorem signals_append {queue : Queue} {xs ys : List Traffic} :
    Signals queue (xs ++ ys) ↔ Signals queue xs ∨ Signals queue ys := by
  simp only [Signals, List.mem_append, exists_or]

namespace Player

variable {s : Schedule} {f : Frame} {p after start : Player} {events : List Event}
  {traffic before late : List Traffic} {queue : Queue} {key : ListKey} {scene : Scene}
  {frameIndex : Nat}

theorem Frame.Replays.signals (replays : f.Replays p events traffic after) :
    Signals queue traffic ↔ ∃ wait fence, .sync queue wait fence ∈ events := by
  induction replays with
  | nil => simp [Signals]
  | @cons _ _ _ e events sent _ one _ ih =>
    rw [signals_append, ih]
    have first : Signals queue sent ↔ ∃ wait fence, e = .sync queue wait fence := by
      cases one with
      | openList | barriers | silent | record | submit => simp [Signals]
      | sync => simp [Signals, eq_comm]
    rw [first]
    simp only [List.mem_cons, exists_or, eq_comm]

theorem Frame.Replays.no_submit (replays : f.Replays p events traffic after)
    (none : ∀ list, .submit list ∉ events) : .command (.submit queue key) ∉ traffic := by
  induction replays with
  | nil => exact List.not_mem_nil
  | cons one _ ih =>
    intro member
    rcases List.mem_append.mp member with here | later
    · cases one with
      | openList | barriers | silent | record | sync => simp at here
      | @submit list => exact none list List.mem_cons_self
    · exact ih (fun list present => none list (List.mem_cons_of_mem _ present)) later

theorem signals_closing {owner : Queue} :
    (∃ wait fence, Event.sync owner wait fence ∈ s.closing) ↔ owner ∈ s.fences := by
  constructor
  · rintro ⟨wait, fence, member⟩
    exact List.mem_of_getElem? (Schedule.mem_closing.mp member).1
  · intro fenced
    obtain ⟨i, held⟩ := List.mem_iff_getElem?.mp fenced
    exact ⟨.graphics, ⟨i⟩, Schedule.mem_closing.mpr ⟨held, rfl⟩⟩

theorem submit_notMem_ends {second : List Traffic} (gathers : f.Replays p s.closing second after)
    (last : Player) (queue : Queue) (key : ListKey) :
    .command (.submit queue key) ∉ second ++ [last.closes] := by
  intro member
  rcases List.mem_append.mp member with gather | close
  · refine gathers.no_submit (fun list submit => ?_) gather
    obtain ⟨⟨queue, i⟩, _, sync⟩ := List.mem_map.mp submit
    cases sync
  · simp [closes] at close

theorem Turn.signals_after (turn : p.Turn s scene frameIndex traffic after) (fits : p.Fits s)
    (signed : s.Signed) (cut : traffic = before ++ .command (.submit queue key) :: late) :
    Signals queue late ↔ queue = .graphics ∨ queue ∈ s.fences := by
  cases turn with
  | @mk body last replays =>
    obtain ⟨mid, first, second, events, gathers, rfl⟩ := replays.split
    obtain ⟨rewound, fences, rfl⟩ := replays.kept
    have graphics : Signals queue [closes { p with fences }] ↔ queue = .graphics := by
      simp [Signals, closes, fits.graphics]
    have halves : (p.reclaims ++ first) ++ (second ++ [closes { p with fences }]) =
        before ++ .command (.submit queue key) :: late := by
      rw [← cut]
      simp only [List.append_assoc]
    obtain ⟨rest, early, rfl⟩ := cut_append halves (submit_notMem_ends gathers _ queue key)
    have fenced (signals : Signals queue rest) : queue ∈ s.fences := by
      have within : Signals queue (p.reclaims ++ first) := by
        rw [early, signals_append]
        obtain ⟨fence, value, member⟩ := signals
        exact Or.inr ⟨fence, value, List.mem_cons_of_mem _ member⟩
      rcases signals_append.mp within with ⟨fence, value, wait⟩ | signals
      · simp only [reclaims] at wait
        split at wait <;> simp at wait
      · obtain ⟨wait, fence, sync⟩ := events.signals.mp signals
        exact List.mem_of_getElem? (signed.owner sync)
    rw [signals_append, signals_append, gathers.signals, signals_closing, graphics]
    constructor
    · rintro (signals | fenced | graphics)
      · exact Or.inr (fenced signals)
      · exact Or.inr fenced
      · exact Or.inl graphics
    · rintro (graphics | fenced)
      · exact Or.inr (Or.inr graphics)
      · exact Or.inr (Or.inl fenced)

theorem Turn.signals (turn : p.Turn s scene frameIndex traffic after) (fits : p.Fits s)
    (signed : s.Signed) (signals : Signals queue traffic) :
    queue = .graphics ∨ queue ∈ s.fences := by
  cases turn with
  | @mk body last replays =>
    rcases signals_append.mp signals with early | ⟨fence, value, close⟩
    · rcases signals_append.mp early with ⟨fence, value, wait⟩ | replayed
      · simp only [reclaims] at wait
        split at wait <;> simp at wait
      · obtain ⟨wait, fence, sync⟩ := replays.signals.mp replayed
        exact Or.inr (List.mem_of_getElem? (signed.owned _ sync queue wait fence rfl))
    · obtain ⟨rewound, fences, rfl⟩ := replays.kept
      simp only [closes, fits.graphics, List.mem_singleton, Traffic.command.injEq,
        Command.signal.injEq] at close
      exact Or.inl close.1

theorem Turns.signals_after {frames : List (List Traffic)} (turns : start.Turns s frames p)
    (fits : start.Fits s) (signed : s.Signed)
    (cut : frames.flatten = before ++ .command (.submit queue key) :: late) :
    Signals queue late ↔ queue = .graphics ∨ queue ∈ s.fences := by
  induction turns generalizing late with
  | nil => simp at cut
  | @snoc frames last mid after scene frameIndex turns turn ih =>
    have fits' := fits.of_rewound turns.rewound
    rw [List.flatten_append, List.flatten_singleton] at cut
    rcases List.append_eq_append_iff.mp cut with ⟨rest, rfl, within⟩ | ⟨rest, earlier, within⟩
    · exact turn.signals_after fits' signed within
    · cases rest with
      | nil =>
        have whole : last = [] ++ .command (.submit queue key) :: late := within.symm
        exact turn.signals_after fits' signed whole
      | cons x rest =>
        rw [List.cons_append] at within
        obtain ⟨rfl, rfl⟩ := List.cons.inj within
        rw [signals_append, ih earlier]
        exact or_iff_left_of_imp (turn.signals fits' signed)

end Player

namespace Session

variable {s t u : Session} {c : Compilation} {frames : List PlayedFrame}

theorem Plays.traffic (plays : s.Plays frames t) :
    t.rig.traffic.toList = s.rig.traffic.toList ++ (frames.map (·.traffic)).flatten := by
  induction plays with
  | start => exact (List.append_nil _).symm
  | idle _ a _ silent ih => rw [silent, ih]
  | execute _ _ made ih =>
    rw [made, ih, List.map_append, List.flatten_append, List.append_assoc]
    simp

theorem Does.waits (does : s.Does Graph.drain t) :
    ∃ waits, t.rig.traffic.toList = s.rig.traffic.toList ++ waits ∧
      ∀ sent, .command sent ∈ waits → ∃ fence value, sent = .waitCpu fence value := by
  have leads := Graph.makes_drain s.graph s.rig
  rw [does] at leads
  obtain ⟨waits, traffic, each⟩ := leads.traffic
  refine ⟨waits, traffic, fun sent member => ?_⟩
  obtain ⟨c, reply, wait, rfl⟩ := each sent member
  cases c with
  | waitCpu fence value => exact ⟨fence, value, rfl⟩
  | _ => cases wait

theorem Does.finished_iff (does : s.Does Graph.drain t) (reachable : s.Reachable)
    {before after : List Traffic} {queue : Queue} {key : ListKey}
    (cut : t.rig.traffic.toList = before ++ .command (.submit queue key) :: after) :
    Finished queue after ↔ Signals queue after := by
  refine ⟨Finished.signals, ?_⟩
  rintro ⟨fence, value, member⟩
  obtain ⟨early, late, rfl⟩ := List.append_of_mem member
  have settled := does.settled reachable fence value
  have waited : ∃ reached, value ≤ reached ∧ .command (.waitCpu fence reached) ∈ late := by
    by_contra unsettled
    refine settled ⟨before ++ .command (.submit queue key) :: early, queue, late, ?_, ?_⟩
    · rw [cut, List.append_assoc, List.cons_append]
    · exact fun reached le wait => unsettled ⟨reached, le, wait⟩
  obtain ⟨reached, le, wait⟩ := waited
  rw [Finished, Wake.observeAll_append]
  have known : queue ∈ (Wake.observeAll { queues := [queue] } early).queues :=
    (Wake.grows_observeAll _ early).queues queue (List.mem_singleton_self queue)
  rw [Wake.observeAll_command]
  refine Wake.seen_of_waitCpu ?_ le wait
  simp only [Wake.observe, if_pos known]
  exact List.mem_cons_self

theorem Plays.signals_after (plays : u.Plays frames s) (does : s.Does Graph.drain t)
    (reachable : u.Reachable) (held : u.graph.compilation = some c)
    {before after : List Traffic} {queue : Queue} {key : ListKey}
    (cut : t.rig.traffic.toList =
      u.rig.traffic.toList ++ (before ++ .command (.submit queue key) :: after)) :
    Signals queue after ↔ queue = .graphics ∨ queue ∈ c.schedule.fences := by
  have sound := reachable.upheld.2 c held
  obtain ⟨b, _, made⟩ := sound.scheduled
  obtain ⟨_, _, _, turns⟩ := plays.turns held sound.fits
  obtain ⟨waits, traffic, each⟩ := does.waits
  have whole : u.rig.traffic.toList ++ ((frames.map (·.traffic)).flatten ++ waits) =
      u.rig.traffic.toList ++ (before ++ .command (.submit queue key) :: after) := by
    rw [← cut, traffic, plays.traffic, List.append_assoc]
  have other : .command (.submit queue key) ∉ waits := by
    intro member
    obtain ⟨_, _, wait⟩ := each _ member
    cases wait
  obtain ⟨late, cut', rfl⟩ := cut_append (List.append_cancel_left whole) other
  have silent : ¬ Signals queue waits := by
    rintro ⟨fence, value, member⟩
    obtain ⟨_, _, wait⟩ := each _ member
    cases wait
  rw [signals_append, or_iff_left silent]
  exact turns.signals_after sound.fits (Brief.signed_of_schedule made) cut'

/-- Once the graph is drained, a list is finished exactly if its queue has signalled a fence since
the list was submitted. In frames that went through, these are the lists of the graphics queue and
of the queues that have a fence. -/
theorem drained_iff (reachable : s.Reachable) (does : s.Does Graph.drain t) :
    (∀ before queue key after,
      t.rig.traffic.toList = before ++ .command (.submit queue key) :: after →
      (Finished queue after ↔ Signals queue after)) ∧
    ∀ (u : Session) (c : Compilation) frames, u.Reachable →
      u.graph.compilation = some c → u.Plays frames s →
      ∀ before queue key after,
        t.rig.traffic.toList =
          u.rig.traffic.toList ++ (before ++ .command (.submit queue key) :: after) →
        (Finished queue after ↔ queue = .graphics ∨ queue ∈ c.schedule.fences) := by
  refine ⟨fun before queue key after => does.finished_iff reachable, ?_⟩
  intro u c frames reachable' held plays before queue key after cut
  have signals := plays.signals_after does reachable' held cut
  rw [← List.append_assoc] at cut
  exact (does.finished_iff reachable cut).trans signals

/-! Particles that the compute queue moves in every frame, while the graphics queue draws something
else. Neither queue waits for the other, and the compute queue has no fence. -/

def simulated : Session := [
  .manage "particles" { extent := .buffer 16 64 } .unorderedWrite,
  .declare "simulate" .compute
    [.write ⟨0⟩ "particles" .unorderedWrite [], .sideEffects true] none,
  .declare "overlay" .graphics [.sideEffects true] none].foldl act (start {} [] {})

def simulatedCull : CullResult :=
  ⟨{ passRefs := [1, 0], resourceRefs := [0], live := [true] }, []⟩

theorem simulated_cull : simulated.graph.declaration.cull = simulatedCull := by
  unfold simulated simulatedCull
  cbv

def simulatedBuilt : Session := simulated.built simulatedCull

theorem simulated_compiles : simulated.Does Graph.compile simulatedBuilt :=
  does_compile_of_fresh (by decide +kernel) (by decide +kernel) simulated_cull (by decide +kernel)

theorem simulated_reachable : simulatedBuilt.Reachable := by
  have reachable : simulated.Reachable := (Reachable.start {} [] {}).foldl _
  rw [← simulated_compiles.after_eq]
  exact reachable.act .compile

def simulatedCompilation : Compilation where
  schedule := {
    events := [
      .openList .compute ⟨0⟩,
      .record ⟨0⟩ ⟨0⟩,
      .submit ⟨0⟩,
      .openList .graphics ⟨1⟩,
      .record ⟨1⟩ ⟨1⟩,
      .submit ⟨1⟩]
    lists := [.compute, .graphics]
    fences := []
    finalStates := [some .unorderedAccess] }
  player := {
    sets := [[⟨3⟩, ⟨4⟩], [⟨5⟩, ⟨6⟩]]
    setValues := [0, 0]
    fences := []
    frameFence := ⟨⟨7⟩, .graphics, 0⟩ }

theorem simulated_compilation :
    simulatedBuilt.graph.compilation = some simulatedCompilation := by decide +kernel

def simulatedTraffic (simulate overlay : ListKey) (frame : Nat) : List Traffic := [
  .command (.resetList simulate),
  .command (.submit .compute simulate),
  .command (.resetList overlay),
  .command (.submit .graphics overlay),
  .command (.signal .graphics ⟨7⟩ frame)]

def simulatedOnce : Session := simulatedBuilt.act .execute

def simulatedDrained : Session := simulatedOnce.act .drain

theorem simulated_plays :
    simulatedBuilt.Plays [⟨simulatedBuilt.graph, simulatedTraffic ⟨3⟩ ⟨4⟩ 1⟩] simulatedOnce :=
  Plays.start.execute (does_after (by decide +kernel)) (by decide +kernel)

theorem simulated_drains : simulatedOnce.Does Graph.drain simulatedDrained :=
  does_after (by decide +kernel)

theorem simulatedOnce_reachable : simulatedOnce.Reachable := simulated_reachable.act .execute

theorem overlay_drained : simulatedOnce.Reachable ∧
    simulatedOnce.Does Graph.drain simulatedDrained ∧ simulatedBuilt.Reachable ∧
    simulatedBuilt.graph.compilation = some simulatedCompilation ∧
    simulatedBuilt.Plays [⟨simulatedBuilt.graph, simulatedTraffic ⟨3⟩ ⟨4⟩ 1⟩] simulatedOnce ∧
    simulatedDrained.rig.traffic.toList = simulatedBuilt.rig.traffic.toList ++
      ((simulatedTraffic ⟨3⟩ ⟨4⟩ 1).take 3 ++ .command (.submit .graphics ⟨4⟩) ::
        [.command (.signal .graphics ⟨7⟩ 1), .command (.waitCpu ⟨7⟩ 1)]) ∧
    Finished .graphics [.command (.signal .graphics ⟨7⟩ 1), .command (.waitCpu ⟨7⟩ 1)] := by
  have cut : simulatedDrained.rig.traffic.toList = simulatedBuilt.rig.traffic.toList ++
      ((simulatedTraffic ⟨3⟩ ⟨4⟩ 1).take 3 ++ .command (.submit .graphics ⟨4⟩) ::
        [.command (.signal .graphics ⟨7⟩ 1), .command (.waitCpu ⟨7⟩ 1)]) := by decide +kernel
  obtain ⟨_, frames⟩ := drained_iff simulatedOnce_reachable simulated_drains
  exact ⟨simulatedOnce_reachable, simulated_drains, simulated_reachable, simulated_compilation,
    simulated_plays, cut, (frames _ _ _ simulated_reachable simulated_compilation simulated_plays
      _ _ _ _ cut).mpr (Or.inl rfl)⟩

/-- Nothing waits for the particles, although the graph is drained. -/
theorem not_all_drained_finished :
    ¬ ∀ (s t : Session) (before after : List Traffic) queue key, s.Reachable →
      s.Does Graph.drain t →
      t.rig.traffic.toList = before ++ .command (.submit queue key) :: after →
      Finished queue after := by
  intro claim
  have cut : simulatedDrained.rig.traffic.toList =
      (simulatedBuilt.rig.traffic.toList ++ (simulatedTraffic ⟨3⟩ ⟨4⟩ 1).take 1) ++
        .command (.submit .compute ⟨3⟩) ::
          ((simulatedTraffic ⟨3⟩ ⟨4⟩ 1).drop 2 ++ [.command (.waitCpu ⟨7⟩ 1)]) := by
    decide +kernel
  have finished := claim simulatedOnce simulatedDrained _ _ _ _ simulatedOnce_reachable
    simulated_drains cut
  revert finished
  decide

end Session

end RenderGraph
