import RenderGraph.Proofs.AttemptTraffic

/-! When lists are used again. A set of lists is used again once the processor has waited for the
frame that used it last. This finishes a list of the set exactly if the list's queue is gathered at
the end of a frame, and if some frame has gone through since the list was submitted. -/

namespace RenderGraph

namespace Player

variable {s : Schedule} {f : Frame} {start p after : Player} {events : List Event}
  {traffic before late : List Traffic} {queue : Queue} {key : ListKey} {scene : Scene}
  {frameIndex : Nat} {completed : Bool}

theorem Frame.Replays.handOver {signal wait : Queue} {fence : FenceId}
    (replays : f.Replays p events traffic after) (member : .sync signal wait fence ∈ events) :
    ∃ first last key value, traffic = first ++ .command (.signal signal key value) ::
      .command (.wait wait key value) :: last := by
  induction replays with
  | nil => cases member
  | @cons _ _ _ _ _ sent more one _ ih =>
    rcases List.mem_cons.mp member with rfl | later
    · cases one
      exact ⟨[], more, _, _, rfl⟩
    · obtain ⟨first, last, key, value, rfl⟩ := ih later
      exact ⟨sent ++ first, last, key, value, (List.append_assoc _ _ _).symm⟩

theorem Turn.ends (turn : p.Turn s scene frameIndex traffic after) (fits : p.Fits s) :
    ∃ tail, tail <:+ traffic ∧ (∀ queue key, .command (.submit queue key) ∉ tail) ∧
      ∀ (w : Wake) queue, queue ∈ w.queues → queue = .graphics ∨ queue ∈ s.fences →
        (p.frameFence.fence, p.frameFence.raised.value) ∈ (w.observeAll tail).signals := by
  cases turn with
  | @mk body last replays =>
    obtain ⟨mid, first, second, events, gathers, rfl⟩ := replays.split
    obtain ⟨rewound, fences, rfl⟩ := replays.kept
    refine ⟨second ++ [closes { p with fences }], ⟨p.reclaims ++ first, ?_⟩,
      fun queue key => submit_notMem_ends gathers _ queue key, ?_⟩
    · simp only [List.append_assoc]
    · intro w queue known gathered
      have graphics : .graphics ∈ (w.observeAll second).queues := by
        rcases gathered with rfl | fenced
        · exact (Wake.grows_observeAll w second).queues _ known
        · obtain ⟨wait, fence, sync⟩ := signals_closing.mpr fenced
          obtain ⟨_, rfl⟩ := Schedule.mem_closing.mp sync
          obtain ⟨before, rest, key, value, rfl⟩ := gathers.handOver sync
          exact Wake.mem_queues_of_handOver known before rest .graphics
      rw [Wake.observeAll_append]
      apply Wake.mem_signals_of_signal graphics
      rw [closes, fits.graphics]
      exact List.mem_singleton_self _

end Player

/-- What there is of work in a set of lists: no frame has gone through since, so that the set is
still up, or one has signalled the frame fence after the work, and the set has its value or a later
one. -/
def Wake.Awaits (w : Wake) (p : Player) (set : Nat) : Bool → Prop
  | false => p.nextSet = set
  | true => ∃ value, 0 < value ∧ (p.frameFence.fence, value) ∈ w.signals ∧
      value ≤ p.setValues.getD set 0

namespace Player

variable {s : Schedule} {start p after : Player} {traffic before late : List Traffic}
  {queue : Queue} {key : ListKey} {scene : Scene} {frameIndex : Nat} {completed gone : Bool}
  {w : Wake} {set : Nat} {frames : List TriedFrame} {frame : TriedFrame}

theorem Attempt.awaits (attempt : p.Attempt s scene frameIndex completed traffic after)
    (fits : p.Fits s) (counted : p.Counted) (inside : set < p.sets.length)
    (known : queue ∈ w.queues) (gathered : queue = .graphics ∨ queue ∈ s.fences)
    (awaits : w.Awaits p set gone)
    (ends : ∀ tail, tail <:+ traffic → (∀ queue key, .command (.submit queue key) ∉ tail) →
      tail <:+ late) : (w.observeAll late).Awaits after set (gone || completed) := by
  have fence := fence_of_rewound attempt.rewound
  have grows := Wake.grows_observeAll w late
  cases completed with
  | false =>
    rw [Bool.or_false]
    obtain ⟨nextSet, setValues⟩ := attempt.given_up
    cases gone with
    | false => exact nextSet.trans awaits
    | true =>
      obtain ⟨value, positive, signalled, le⟩ := awaits
      exact ⟨value, positive, fence ▸ grows.signals _ signalled, setValues ▸ le⟩
  | true =>
    rw [Bool.or_true]
    obtain ⟨setValues, _⟩ := attempt.went_through
    cases attempt with
    | whole turn =>
      obtain ⟨tail, suffix, none, signals⟩ := turn.ends fits
      obtain ⟨more, rfl⟩ := ends tail suffix none
      by_cases same : p.nextSet = set
      · refine ⟨p.frameFence.raised.value, Nat.zero_lt_succ _, ?_, ?_⟩
        · rw [fence, Wake.observeAll_append]
          exact signals _ queue ((Wake.grows_observeAll w more).queues queue known) gathered
        · rw [setValues, same, List.getD_eq_getElem?_getD,
            List.getElem?_set_self (counted.length ▸ inside)]
          exact Nat.le_refl _
      · cases gone with
        | false => exact absurd awaits same
        | true =>
          obtain ⟨value, positive, signalled, le⟩ := awaits
          refine ⟨value, positive, fence ▸ grows.signals _ signalled, ?_⟩
          rw [setValues, List.getD_eq_getElem?_getD, List.getElem?_set_ne same,
            ← List.getD_eq_getElem?_getD]
          exact le

theorem Fits.getElem?_nextSet (fits : p.Fits s) :
    p.sets[p.nextSet]? = Option.some p.nextLists := by
  have within : p.nextSet < p.sets.length := Nat.mod_lt _ fits.some
  rw [Player.nextLists, List.getD_eq_getElem?_getD, List.getElem?_eq_getElem within]
  rfl

def since (frames : List TriedFrame) (i : Nat) (late : List Traffic) : List Traffic :=
  late ++ (frames.drop (i + 1)).flatMap (·.traffic)

theorem Tries.awaits {i : Nat} (tries : start.Tries s frames p) (fits : start.Fits s)
    (counted : start.Counted) (held : frames[i]? = some frame)
    (cut : frame.traffic = before ++ .command (.submit queue key) :: late)
    (gathered : queue = .graphics ∨ queue ∈ s.fences) :
    ∃ set lists, start.sets[set]? = some lists ∧ key ∈ lists ∧
      (Wake.observeAll { queues := [queue] } (since frames i late)).Awaits p set
        ((frames.drop i).any (·.completed)) := by
  induction tries with
  | nil => cases held
  | @snoc frames last mid after scene frameIndex tries attempt ih =>
    have fits' := fits.of_rewound tries.rewound
    have counted' := tries.counted counted
    have sets := sets_of_rewound tries.rewound
    -- The list is handed over in an earlier frame, or in the one that is tried last.
    rcases Nat.lt_trichotomy i frames.length with inside | rfl | beyond
    · rw [List.getElem?_append_left inside] at held
      obtain ⟨set, lists, found, member, awaits⟩ := ih held
      refine ⟨set, lists, found, member, ?_⟩
      have known := (Wake.grows_observeAll { queues := [queue] } (since frames i late)).queues queue
        (List.mem_singleton_self queue)
      have within : set < mid.sets.length := sets ▸ (List.getElem?_eq_some_iff.mp found).1
      have next := attempt.awaits fits' counted' within known gathered awaits
        fun tail suffix _ => suffix
      have more : since (frames ++ [last]) i late = since frames i late ++ last.traffic := by
        rw [since, since, List.drop_append_of_le_length inside, List.flatMap_append,
          List.append_assoc]
        simp
      rw [more, Wake.observeAll_append, List.drop_append_of_le_length (Nat.le_of_lt inside),
        List.any_append]
      simpa using next
    · rw [List.getElem?_concat_length] at held
      cases held
      have member := attempt.mem_nextLists_of_submit fits' cut
      have within : mid.nextSet < mid.sets.length := Nat.mod_lt _ fits'.some
      refine ⟨mid.nextSet, mid.nextLists, sets ▸ fits'.getElem?_nextSet, member, ?_⟩
      have next : (Wake.observeAll { queues := [queue] } late).Awaits after mid.nextSet
          (false || frame.completed) := by
        have up : Wake.Awaits { queues := [queue] } mid mid.nextSet false := rfl
        refine attempt.awaits fits' counted' within (List.mem_singleton_self queue) gathered up ?_
        rintro tail ⟨head, whole⟩ none
        obtain ⟨rest, _, same⟩ := cut_append (whole.trans cut) (none queue key)
        exact ⟨rest, same.symm⟩
      simpa [since] using next
    · have bound := (List.getElem?_eq_some_iff.mp held).1
      rw [List.length_append, List.length_singleton] at bound
      omega

theorem Fits.set_unique (fits : p.Fits s) {other : Nat} {lists lists' : List ListKey}
    (found : p.sets[set]? = Option.some lists) (found' : p.sets[other]? = Option.some lists')
    (member : key ∈ lists) (member' : key ∈ lists') : set = other := by
  have apart := List.pairwise_iff_getElem.mp (List.nodup_flatten.mp fits.distinct).2
  obtain ⟨inside, rfl⟩ := List.getElem?_eq_some_iff.mp found
  obtain ⟨inside', rfl⟩ := List.getElem?_eq_some_iff.mp found'
  rcases Nat.lt_trichotomy set other with lower | same | higher
  · exact absurd member' (apart set other inside inside' lower member)
  · exact same
  · exact absurd member (apart other set inside' inside higher member')

theorem Tries.exists_attempt (tries : start.Tries s frames p) (member : frame ∈ frames) :
    ∃ (mid : Player) (scene : Scene) (frameIndex : Nat) (after : Player),
      mid.rewound = start.rewound ∧
        mid.Attempt s scene frameIndex frame.completed frame.traffic after := by
  obtain ⟨j, held⟩ := List.mem_iff_getElem?.mp member
  obtain ⟨mid, scene, frameIndex, after, earlier, attempt⟩ := tries.split held
  exact ⟨mid, scene, frameIndex, after, earlier.rewound, attempt⟩

end Player

def TriedBetween (frames : List TriedFrame) (i j : Nat) (first second : Command)
    (traffic : List Traffic) : Prop :=
  ∃ x y before late early rest, frames[i]? = some x ∧ frames[j]? = some y ∧
    x.traffic = before ++ .command first :: late ∧
    y.traffic = early ++ .command second :: rest ∧
    traffic = late ++ ((frames.take j).drop (i + 1)).flatMap (·.traffic) ++ early

theorem TriedBetween.exists_frame {frames : List TriedFrame} {i j : Nat} {first second : Command}
    {traffic : List Traffic} {x : Traffic} (between : TriedBetween frames i j first second traffic)
    (before : i < j) (member : x ∈ traffic) :
    ∃ frame ∈ frames, x ∈ frame.traffic ∧ (frame ∈ (frames.take j).drop i ∨
      ∃ early rest, frame.traffic = early ++ .command second :: rest ∧ x ∈ early) := by
  obtain ⟨opens, last, head, late, early, rest, held, held', cut, cut', rfl⟩ := between
  rcases List.mem_append.mp member with old | present
  · rcases List.mem_append.mp old with present | middle
    · refine ⟨opens, List.mem_of_getElem? held,
        cut ▸ List.mem_append_right _ (List.mem_cons_of_mem _ present), Or.inl ?_⟩
      apply List.mem_of_getElem? (i := 0)
      rw [List.getElem?_drop, List.getElem?_take_of_lt (by omega)]
      exact held
    · obtain ⟨frame, within, present⟩ := List.mem_flatMap.mp middle
      have inside := List.drop_subset_drop_left _ (Nat.le_succ i) within
      exact ⟨frame, List.mem_of_mem_take (List.mem_of_mem_drop inside), present, Or.inl inside⟩
  · exact ⟨last, List.mem_of_getElem? held', cut' ▸ List.mem_append_left _ present,
      Or.inr ⟨early, rest, cut', present⟩⟩

namespace Player

section

variable {s : Schedule} {start p : Player} {frames : List TriedFrame} {queue : Queue}
  {key : ListKey} {i j : Nat} {traffic : List Traffic}

theorem Tries.finished (tries : start.Tries s frames p) (fits : start.Fits s)
    (counted : start.Counted) (before : i < j)
    (between : TriedBetween frames i j (.submit queue key) (.resetList key) traffic)
    (gathered : queue = .graphics ∨ queue ∈ s.fences)
    (through : ∃ frame ∈ (frames.take j).drop i, frame.completed = true) :
    Finished queue traffic := by
  obtain ⟨x, y, head, late, early, rest, held, held', cut, cut', rfl⟩ := between
  obtain ⟨mid, scene, frameIndex, after, earlier, attempt⟩ := tries.split held'
  have fits' := fits.of_rewound earlier.rewound
  have sets := sets_of_rewound earlier.rewound
  have present : (frames.take j)[i]? = some x := by
    rw [List.getElem?_take_of_lt before]
    exact held
  obtain ⟨set, lists, found, member, awaits⟩ :=
    earlier.awaits fits counted present cut gathered
  obtain ⟨member', ⟨more, rfl⟩, _⟩ := attempt.of_reset fits' cut'
  have same : set = mid.nextSet :=
    fits'.set_unique (sets ▸ found) fits'.getElem?_nextSet member member'
  have gone : ((frames.take j).drop i).any (·.completed) = true := List.any_eq_true.mpr through
  rw [gone, same] at awaits
  obtain ⟨value, positive, signalled, le⟩ := awaits
  have waits : .command (.waitCpu mid.frameFence.fence (mid.setValues.getD mid.nextSet 0)) ∈
      mid.reclaims ++ more := by
    apply List.mem_append_left
    rw [reclaims, if_pos (Nat.lt_of_lt_of_le positive le)]
    exact List.mem_singleton_self _
  rw [Finished, Wake.observeAll_append]
  exact Wake.seen_of_waitCpu signalled le waits

theorem Tries.of_finished (tries : start.Tries s frames p) (fits : start.Fits s)
    (signed : s.Signed) (before : i < j)
    (between : TriedBetween frames i j (.submit queue key) (.resetList key) traffic)
    (finished : Finished queue traffic) :
    (queue = .graphics ∨ queue ∈ s.fences) ∧
      ∃ frame ∈ (frames.take j).drop i, frame.completed = true := by
  constructor
  · obtain ⟨fence, value, signal⟩ := finished.signals
    obtain ⟨frame, tried, present, _⟩ := between.exists_frame before signal
    obtain ⟨mid, _, _, _, same, attempt⟩ := tries.exists_attempt tried
    exact attempt.signals (fits.of_rewound same) signed ⟨fence, value, present⟩
  · obtain ⟨fence, reached, owner, value, wait, signal⟩ := finished.waits
    obtain ⟨waiting, tried, present, _⟩ := between.exists_frame before wait
    obtain ⟨_, _, _, _, same, attempt⟩ := tries.exists_attempt tried
    have waited := attempt.fence_of_wait (fits.of_rewound same) present
    obtain ⟨frame, tried', present', place⟩ := between.exists_frame before signal
    obtain ⟨mid, _, _, _, same', attempt'⟩ := tries.exists_attempt tried'
    have fits' := fits.of_rewound same'
    -- What is waited for is the frame fence, which is signalled where a frame has gone through.
    rw [waited, fence_of_rewound same, ← fence_of_rewound same'] at present' place
    rcases place with inside | ⟨early, rest, cut, early'⟩
    · exact ⟨frame, inside, attempt'.completed_of_signal fits' present'⟩
    · exact absurd early' ((attempt'.of_reset fits' cut).2.2 owner value)

end

end Player

namespace Session

variable {s t : Session} {c : Compilation} {frames : List TriedFrame}

/-- Within a frame, no list is reset once it is submitted. A list that is used again in a later
frame is finished by then exactly if it is on the graphics queue or on a queue that has a fence, and
some frame since its submission has gone through. -/
theorem reset_finished_iff (reachable : s.Reachable) (held : s.graph.compilation = some c)
    (tries : s.Tries frames t) :
    (∀ frame ∈ frames, ∀ before queue key late,
      frame.traffic = before ++ .command (.submit queue key) :: late →
      .command (.resetList key) ∉ late) ∧
    ∀ i j queue key traffic, i < j →
      TriedBetween frames i j (.submit queue key) (.resetList key) traffic →
      (Finished queue traffic ↔ (queue = .graphics ∨ queue ∈ c.schedule.fences) ∧
        ∃ frame ∈ (frames.take j).drop i, frame.completed = true) := by
  have sound := reachable.upheld.2 c held
  obtain ⟨b, _, made⟩ := sound.scheduled
  have signed := Brief.signed_of_schedule made
  obtain ⟨_, _, _, tries⟩ := tries.tries held sound.fits signed
  constructor
  · intro frame member before queue key late cut
    obtain ⟨mid, _, _, _, same, attempt⟩ := tries.exists_attempt member
    exact attempt.reset_notMem (sound.fits.of_rewound same) (Brief.apart_of_schedule made) cut
  · intro i j queue key traffic before between
    constructor
    · exact tries.of_finished sound.fits signed before between
    · rintro ⟨gathered, through⟩
      exact tries.finished sound.fits sound.counted before between gathered through

/-! The particles and the overlay once more, in three frames that go through, one that is given up
at its end, and one more. -/

def simulatedFrames : List TriedFrame := [
  ⟨true, simulatedTraffic ⟨3⟩ ⟨4⟩ 1⟩,
  ⟨true, simulatedTraffic ⟨5⟩ ⟨6⟩ 2⟩,
  ⟨true, .command (.waitCpu ⟨7⟩ 1) :: simulatedTraffic ⟨3⟩ ⟨4⟩ 3⟩,
  ⟨false, .command (.waitCpu ⟨7⟩ 2) :: (simulatedTraffic ⟨5⟩ ⟨6⟩ 4).take 4 ++ [.refused .signal]⟩,
  ⟨true, .command (.waitCpu ⟨7⟩ 2) :: simulatedTraffic ⟨5⟩ ⟨6⟩ 5⟩]

def simulatedTwice : Session := simulatedOnce.act .execute

def simulatedThrice : Session := simulatedTwice.act .execute

def simulatedStopped : Session :=
  (simulatedThrice.act (.plan [{ method := .signal, error := .deviceLost }])).act .execute

theorem simulated_tries : simulatedBuilt.Tries (simulatedFrames.take 3) simulatedThrice := by
  have first : simulatedBuilt.Tries (simulatedFrames.take 1) simulatedOnce :=
    Tries.start.execute _ (by decide +kernel) (by decide +kernel)
  have second : simulatedBuilt.Tries (simulatedFrames.take 2) simulatedTwice :=
    first.execute _ (by decide +kernel) (by decide +kernel)
  exact second.execute _ (by decide +kernel) (by decide +kernel)

theorem simulated_tries_again :
    simulatedBuilt.Tries simulatedFrames (simulatedStopped.act .execute) := by
  have planned := simulated_tries.plan [{ method := .signal, error := .deviceLost }]
  have stopped : simulatedBuilt.Tries (simulatedFrames.take 4) simulatedStopped :=
    planned.execute _ (by decide +kernel) (by decide +kernel)
  exact stopped.execute _ (by decide +kernel) (by decide +kernel)

theorem overlay_reused : simulatedBuilt.Reachable ∧
    simulatedBuilt.graph.compilation = some simulatedCompilation ∧
    simulatedBuilt.Tries simulatedFrames (simulatedStopped.act .execute) ∧
    ∃ traffic later, 0 < 2 ∧ 3 < 4 ∧
      TriedBetween simulatedFrames 0 2 (.submit .graphics ⟨4⟩) (.resetList ⟨4⟩) traffic ∧
      TriedBetween simulatedFrames 3 4 (.submit .graphics ⟨6⟩) (.resetList ⟨6⟩) later ∧
      Finished .graphics traffic ∧ ¬ Finished .graphics later := by
  have between : TriedBetween simulatedFrames 0 2 (.submit .graphics ⟨4⟩) (.resetList ⟨4⟩)
      ((simulatedTraffic ⟨3⟩ ⟨4⟩ 1).drop 4 ++ simulatedTraffic ⟨5⟩ ⟨6⟩ 2 ++
        .command (.waitCpu ⟨7⟩ 1) :: (simulatedTraffic ⟨3⟩ ⟨4⟩ 3).take 2) :=
    ⟨_, _, (simulatedTraffic ⟨3⟩ ⟨4⟩ 1).take 3, _, _, (simulatedTraffic ⟨3⟩ ⟨4⟩ 3).drop 3, rfl, rfl,
      rfl, rfl, rfl⟩
  have between' : TriedBetween simulatedFrames 3 4 (.submit .graphics ⟨6⟩) (.resetList ⟨6⟩)
      (.refused .signal :: .command (.waitCpu ⟨7⟩ 2) :: (simulatedTraffic ⟨5⟩ ⟨6⟩ 5).take 2) :=
    ⟨_, _, .command (.waitCpu ⟨7⟩ 2) :: (simulatedTraffic ⟨5⟩ ⟨6⟩ 4).take 3, _, _,
      (simulatedTraffic ⟨5⟩ ⟨6⟩ 5).drop 3, rfl, rfl, rfl, rfl, rfl⟩
  obtain ⟨_, finished⟩ :=
    reset_finished_iff simulated_reachable simulated_compilation simulated_tries_again
  refine ⟨simulated_reachable, simulated_compilation, simulated_tries_again, _, _, by decide,
    by decide, between, between', ?_, ?_⟩
  · exact (finished 0 2 _ _ _ (by decide) between).mpr
      ⟨Or.inl rfl, _, List.mem_cons_self, rfl⟩
  · intro early
    obtain ⟨_, frame, member, through⟩ := (finished 3 4 _ _ _ (by decide) between').mp early
    cases List.mem_singleton.mp member
    cases through

/-- Nothing waits for the particles before their list is reset, although all frames go through. -/
theorem not_all_resets_finished :
    ¬ ∀ (s t : Session) (c : Compilation) frames i j queue key traffic, s.Reachable →
      s.graph.compilation = some c → s.Tries frames t → i < j →
      TriedBetween frames i j (.submit queue key) (.resetList key) traffic →
      Finished queue traffic := by
  intro claim
  have between : TriedBetween (simulatedFrames.take 3) 0 2 (.submit .compute ⟨3⟩) (.resetList ⟨3⟩)
      ((simulatedTraffic ⟨3⟩ ⟨4⟩ 1).drop 2 ++ simulatedTraffic ⟨5⟩ ⟨6⟩ 2 ++
        [.command (.waitCpu ⟨7⟩ 1)]) :=
    ⟨_, _, (simulatedTraffic ⟨3⟩ ⟨4⟩ 1).take 1, _, _, (simulatedTraffic ⟨3⟩ ⟨4⟩ 3).drop 1, rfl, rfl,
      rfl, rfl, rfl⟩
  have finished := claim _ _ _ _ 0 2 _ _ _ simulated_reachable simulated_compilation
    simulated_tries (by decide) between
  revert finished
  decide

end Session

end RenderGraph
