import RenderGraph.Proofs.FrameOrder
import RenderGraph.Proofs.QueueOrder

/-! Order between the frames of a compiled graph. Only the graphics queue waits at the end of a
frame, so work of one frame comes before work of a later one on another queue exactly if syncs lead
there, or if so many frames lie between them that the processor has waited. -/

namespace RenderGraph

/-- The traffic from a command of one frame up to a command of a later one. -/
def Between (frames : List PlayedFrame) (i j : Nat) (first second : Command)
    (traffic : List Traffic) : Prop :=
  ∃ x y before late early rest, frames[i]? = some x ∧ frames[j]? = some y ∧
    x.traffic = before ++ .command first :: late ∧
    y.traffic = early ++ .command second :: rest ∧
    traffic = late ++ ((frames.take j).drop (i + 1)).flatMap (·.traffic) ++ early

/-- Where the work of a pass goes in a frame that comes after some others: the pass is recorded into
one list, and the list is submitted to the queue. -/
structure Compilation.SubmitsIn (c : Compilation) (count : Nat) (frame : PlayedFrame) (p : PassId)
    (queue : Queue) (key : ListKey) (position : Nat) : Prop where
  list : ∃ list, c.schedule.RecordedInto p list ∧ c.schedule.listQueue? list = some queue ∧
    c.schedule.SubmittedAt list position ∧
    c.player.list? ((c.player.frames + count) % c.player.sets.length) list = some key
  recordings : ∀ r, .recording r ∈ frame.traffic → r.pass = p → r.list = key
  submits : .command (.submit queue key) ∈ frame.traffic

namespace Player

variable {s : Schedule} {p after : Player} {scene : Scene} {frameIndex : Nat}
  {traffic : List Traffic}

theorem Turn.list_of_recording (turn : p.Turn s scene frameIndex traffic after) {r : Recording}
    (member : .recording r ∈ traffic) {list : ListId} (into : s.RecordedInto r.pass list) :
    p.list? p.nextSet list = some r.list := by
  cases turn with
  | @mk body last replays =>
    have inside : Traffic.recording r ∈ body := by
      rcases List.mem_append.mp member with early | close
      · rcases List.mem_append.mp early with wait | body
        · simp only [reclaims] at wait
          split at wait <;> simp at wait
        · exact body
      · simp [closes] at close
    obtain ⟨other, record, own⟩ := replays.recording inside
    rcases List.mem_append.mp record with event | gather
    · obtain ⟨n, held⟩ := List.mem_iff_getElem?.mp event
      rw [into.list_eq held] at own
      rw [list?_nextSet]
      exact own
    · obtain ⟨⟨queue, i⟩, _, sync⟩ := List.mem_map.mp gather
      cases sync

end Player

namespace Session

variable {s t : Session} {c : Compilation} {frames : List PlayedFrame} {p q : PassId}
  {first second : ListId} {i j : Nat} {x y : PlayedFrame}

theorem Plays.submits {frameCount : Nat} (plays : s.Plays frames t)
    (held : s.graph.compilation = some c) (sound : c.Sound frameCount)
    (into : c.schedule.RecordedInto p first) (played : frames[i]? = some x) :
    ∃ queue key position, c.SubmitsIn i x p queue key position := by
  obtain ⟨b, closed, made⟩ := sound.scheduled
  obtain ⟨log, _, follows⟩ := Brief.follows_of_schedule closed made
  obtain ⟨e, member, rfl, _⟩ := follows.exists_entry into.mem_events
  obtain ⟨position, submitted⟩ := follows.submittedAt (follows.queues e member)
  obtain ⟨_, _, _, turns⟩ := plays.turns held sound.fits
  have present : (frames.map (·.traffic))[i]? = some x.traffic := by
    rw [List.getElem?_map, played]
    rfl
  obtain ⟨mid, scene, frameIndex, after, earlier, turn⟩ := turns.split present
  have turned := earlier.turned sound.counted sound.fits.some
  have inside : i < frames.length := (List.getElem?_eq_some_iff.mp played).1
  rw [List.length_take_of_le (by simpa using Nat.le_of_lt inside)] at turned
  obtain ⟨key, _, _, _, _, own, _, around⟩ :=
    turn.around (sound.fits.of_rewound turned.rewound) submitted (follows.queues e member)
  have key_eq := own
  rw [turned.list?_eq] at key_eq
  refine ⟨e.pass.queue, key, position, ⟨e.list, into, follows.queues e member, submitted, key_eq⟩,
    ?_, ?_⟩
  · rintro r recorded rfl
    have found := turn.list_of_recording recorded into
    exact Option.some.inj (found.symm.trans own)
  · rw [around.traffic_eq]
    exact List.mem_append_right _ List.mem_cons_self

/-- Work of one frame comes before work of a later one exactly if both are on one queue, or the
frames are so far apart that their sets of lists come round and the graphics queue waits for the
first one's queue, or a chain of syncs leads from the one to the other. -/
theorem frames_ordered_iff (reachable : s.Reachable) (held : s.graph.compilation = some c)
    (plays : s.Plays frames t) (earlier : i < j) (played : frames[i]? = some x)
    (played' : frames[j]? = some y) (into : c.schedule.RecordedInto p first)
    (into' : c.schedule.RecordedInto q second) :
    ∃ source key m target key' n,
      c.SubmitsIn i x p source key m ∧ c.SubmitsIn j y q target key' n ∧
      ∀ traffic, Between frames i j (.submit source key) (.submit target key') traffic →
        (WorkOrdered traffic source target ↔ source = target ∨
          (i + max s.graph.config.frameCount 1 ≤ j ∧
            (source = .graphics ∨ source ∈ c.schedule.fences)) ∨
          ∃ k l, SyncChain (c.schedule.span m (j - (i + 1)) n) source k target l) := by
  have sound := reachable.upheld.2 c held
  obtain ⟨source, key, m, submits⟩ := plays.submits held sound into played
  obtain ⟨target, key', n, submits'⟩ := plays.submits held sound into' played'
  refine ⟨source, key, m, target, key', n, submits, submits', ?_⟩
  rintro traffic ⟨x', y', before, late, early, rest, found, found', cut, cut', rfl⟩
  obtain ⟨list, _, opened, submitted, own⟩ := submits.list
  obtain ⟨list', _, opened', submitted', own'⟩ := submits'.list
  obtain ⟨b, _, made⟩ := sound.scheduled
  obtain ⟨_, _, _, turns⟩ := plays.turns held sound.fits
  have traffic_of {k : Nat} {z : PlayedFrame} (found : frames[k]? = some z) :
      (frames.map (·.traffic))[k]? = some z.traffic := by
    rw [List.getElem?_map, found]
    rfl
  have ordered := turns.ordered_iff sound.fits sound.counted (Brief.signed_of_schedule made)
    submitted submitted' opened opened' own own' earlier (traffic_of found) (traffic_of found')
    cut cut'
  rw [List.flatMap, List.map_drop, List.map_take, ordered, mem_hearAll_iff, sound.sets]
  constructor
  · rintro ((same | chain) | ⟨fenced, apart⟩)
    · exact Or.inl same.symm
    · exact Or.inr (Or.inr chain)
    · exact Or.inr (Or.inl ⟨apart, fenced⟩)
  · rintro (same | ⟨apart, fenced⟩ | chain)
    · exact Or.inl (Or.inl same.symm)
    · exact Or.inr ⟨fenced, apart⟩
    · exact Or.inl (Or.inr chain)

theorem Does.recordedInto (reachable : s.Reachable) (does : s.Does Graph.compile t)
    (held : t.graph.compilation = some c) (member : .record first p ∈ c.schedule.events) :
    c.schedule.RecordedInto p first := by
  obtain ⟨c', b, log, compilation, _, same, follows⟩ := does.follows reachable
  cases held.symm.trans compilation
  obtain ⟨e, present, rfl, rfl⟩ := follows.exists_entry member
  exact follows.recordedInto (Brief.nodup_ids same) present

/-! An image that the copy queue uploads in every frame and the graphics queue then draws. -/

def streamed : Session := [
  .declare "upload" .copy
    [.create { extent := .texture 8 8, format := .rgba8Unorm } "image" .copyDest []] none,
  .declare "draw" .graphics
    [.read ⟨0⟩ "image" .pixelShaderRead [], .sideEffects true] none].foldl act (start {} [] {})

def streamedCull : CullResult :=
  ⟨{ passRefs := [1, 0], resourceRefs := [1], live := [true] }, []⟩

theorem streamed_cull : streamed.graph.declaration.cull = streamedCull := by
  unfold streamed streamedCull
  cbv

def streamedBuilt : Session := streamed.built streamedCull

theorem streamed_compiles : streamed.Does Graph.compile streamedBuilt :=
  does_compile_of_fresh (by decide +kernel) (by decide +kernel) streamed_cull (by decide +kernel)

def uploadPass : Pass where
  name := "upload"
  queue := .copy
  creates := [{ name := "image", resource := ⟨0⟩, usage := .copyDest }]

theorem streamed_surviving : streamedBuilt.graph.declaration.surviving =
    [(⟨0⟩, uploadPass), (⟨1⟩, drawPass)] := by
  have same : streamedBuilt.graph.declaration = streamed.graph.declaration := by decide +kernel
  rw [same, Declaration.surviving, streamed_cull]
  decide +kernel

def streamedCompilation : Compilation where
  schedule := {
    events := [
      .openList .copy ⟨0⟩,
      .record ⟨0⟩ ⟨0⟩,
      .submit ⟨0⟩,
      .openList .graphics ⟨1⟩,
      .sync .copy .graphics ⟨0⟩,
      .barriers ⟨1⟩ [.transition ⟨⟨0⟩, .copyDest, .pixelShaderResource, {}⟩],
      .record ⟨1⟩ ⟨1⟩,
      .submit ⟨1⟩]
    lists := [.copy, .graphics]
    fences := [.copy]
    finalStates := [some .pixelShaderResource] }
  player := {
    sets := [[⟨3⟩, ⟨4⟩], [⟨5⟩, ⟨6⟩]]
    setValues := [0, 0]
    fences := [⟨⟨7⟩, .copy, 0⟩]
    frameFence := ⟨⟨8⟩, .graphics, 0⟩ }

theorem streamed_compilation :
    streamedBuilt.graph.compilation = some streamedCompilation := by decide +kernel

def streamedTraffic (upload draw : ListKey) (value frame : Nat) : List Traffic := [
  .command (.resetList upload),
  .command (.submit .copy upload),
  .command (.resetList draw),
  .command (.signal .copy ⟨7⟩ value),
  .command (.wait .graphics ⟨7⟩ value),
  .command (.barrier draw [.transition ⟨1⟩ .copyDest .pixelShaderResource {}]),
  .command (.submit .graphics draw),
  .command (.signal .copy ⟨7⟩ (value + 1)),
  .command (.wait .graphics ⟨7⟩ (value + 1)),
  .command (.signal .graphics ⟨8⟩ frame)]

def streamedOnce : Session := streamedBuilt.act .execute

def streamedFrames : List PlayedFrame := [
  ⟨streamedBuilt.graph, streamedTraffic ⟨3⟩ ⟨4⟩ 1 1⟩,
  ⟨streamedOnce.graph, streamedTraffic ⟨5⟩ ⟨6⟩ 3 2⟩]

theorem streamed_plays : streamedBuilt.Plays streamedFrames (streamedOnce.act .execute) := by
  have first : streamedBuilt.Does Graph.execute streamedOnce := does_after (by decide +kernel)
  have second : streamedOnce.Does Graph.execute (streamedOnce.act .execute) :=
    does_after (by decide +kernel)
  exact (Plays.start.execute first (by decide +kernel)).execute second (by decide +kernel)

theorem streamed_reachable : streamedBuilt.Reachable := by
  have reachable : streamed.Reachable := (Reachable.start {} [] {}).foldl _
  have built := streamed_compiles.after_eq
  rw [← built]
  exact reachable.act .compile

theorem streamed_recorded {list : ListId} {p : PassId}
    (member : .record list p ∈ streamedCompilation.schedule.events) :
    streamedCompilation.schedule.RecordedInto p list :=
  Does.recordedInto ((Reachable.start {} [] {}).foldl _) streamed_compiles streamed_compilation
    member

theorem streamed_submits {count position : Nat} {frame : PlayedFrame} {p : PassId} {queue : Queue}
    {key : ListKey} (submits : streamedCompilation.SubmitsIn count frame p queue key position)
    {list : ListId} (member : .record list p ∈ streamedCompilation.schedule.events) :
    streamedCompilation.schedule.listQueue? list = some queue ∧
      streamedCompilation.schedule.SubmittedAt list position ∧
      streamedCompilation.player.list? (count % 2) list = some key := by
  obtain ⟨other, into, opened, submitted, own⟩ := submits.list
  obtain ⟨n, held⟩ := List.mem_iff_getElem?.mp member
  have same := into.list_eq held
  subst same
  have count_eq : (0 + count) % 2 = count % 2 := by rw [Nat.zero_add]
  exact ⟨opened, submitted, count_eq ▸ own⟩

theorem streamed_upload_ordered : streamedBuilt.Reachable ∧
    streamedBuilt.graph.compilation = some streamedCompilation ∧
    streamedBuilt.Plays streamedFrames (streamedOnce.act .execute) ∧
    ∃ traffic, Between streamedFrames 0 1 (.submit .copy ⟨3⟩) (.submit .graphics ⟨6⟩) traffic ∧
      WorkOrdered traffic .copy .graphics := by
  have between : Between streamedFrames 0 1 (.submit .copy ⟨3⟩) (.submit .graphics ⟨6⟩)
      ((streamedTraffic ⟨3⟩ ⟨4⟩ 1 1).drop 2 ++ (streamedTraffic ⟨5⟩ ⟨6⟩ 3 2).take 6) :=
    ⟨_, _, (streamedTraffic ⟨3⟩ ⟨4⟩ 1 1).take 1, _, _, (streamedTraffic ⟨5⟩ ⟨6⟩ 3 2).drop 7, rfl,
      rfl, rfl, rfl, rfl⟩
  refine ⟨streamed_reachable, streamed_compilation, streamed_plays, _, between, ?_⟩
  have upload : .record ⟨0⟩ ⟨0⟩ ∈ streamedCompilation.schedule.events := by decide
  have draw : .record ⟨1⟩ ⟨1⟩ ∈ streamedCompilation.schedule.events := by decide
  obtain ⟨source, key, m, target, key', n, submits, submits', ordered⟩ :=
    frames_ordered_iff streamed_reachable streamed_compilation streamed_plays Nat.zero_lt_one rfl
      rfl (streamed_recorded upload) (streamed_recorded draw)
  rcases streamed_submits submits upload with ⟨opened, submitted, own⟩
  rcases streamed_submits submits' draw with ⟨opened', _, own'⟩
  cases opened
  cases opened'
  cases own
  cases own'
  have here : 2 = m := (submitted 2).mp rfl
  subst here
  apply (ordered _ between).mpr
  exact Or.inr (Or.inr ⟨1, 1, .one rfl⟩)

/-- Nothing makes the copy queue wait for the graphics queue, although the second frame uploads into
the image that the first frame may still draw. -/
theorem not_all_frames_ordered :
    ¬ ∀ (s s' t : Session) (c : Compilation) (frames : List PlayedFrame) (i j : Nat) x y
        (p q : PassId) pass other r r' native source key m target key' n traffic,
      s.Reachable → s.Does Graph.compile s' → s'.graph.compilation = some c →
      s'.Plays frames t → i < j → frames[i]? = some x → frames[j]? = some y →
      (p, pass) ∈ s'.graph.declaration.surviving → (q, other) ∈ s'.graph.declaration.surviving →
      pass.queue ≠ other.queue → pass.touches r = true → other.touches r' = true →
      pass.outputsTo r = true ∨ other.outputsTo r' = true →
      x.graph.scene.native? r x.graph.frameIndex = some native →
      y.graph.scene.native? r' y.graph.frameIndex = some native →
      c.SubmitsIn i x p source key m → c.SubmitsIn j y q target key' n →
      Between frames i j (.submit source key) (.submit target key') traffic →
      WorkOrdered traffic source target := by
  intro claim
  have reachable : streamed.Reachable := (Reachable.start {} [] {}).foldl _
  have upload : .record ⟨0⟩ ⟨0⟩ ∈ streamedCompilation.schedule.events := by decide
  have draw : .record ⟨1⟩ ⟨1⟩ ∈ streamedCompilation.schedule.events := by decide
  have sound := streamed_reachable.upheld.2 _ streamed_compilation
  obtain ⟨source, key, m, submits⟩ := streamed_plays.submits streamed_compilation sound
    (streamed_recorded draw) (i := 0) rfl
  obtain ⟨target, key', n, submits'⟩ := streamed_plays.submits streamed_compilation sound
    (streamed_recorded upload) (i := 1) rfl
  rcases streamed_submits submits draw with ⟨opened, _, own⟩
  rcases streamed_submits submits' upload with ⟨opened', _, own'⟩
  cases opened
  cases opened'
  cases own
  cases own'
  have between : Between streamedFrames 0 1 (.submit .graphics ⟨4⟩) (.submit .copy ⟨5⟩)
      ((streamedTraffic ⟨3⟩ ⟨4⟩ 1 1).drop 7 ++ (streamedTraffic ⟨5⟩ ⟨6⟩ 3 2).take 1) :=
    ⟨_, _, (streamedTraffic ⟨3⟩ ⟨4⟩ 1 1).take 6, _, _, (streamedTraffic ⟨5⟩ ⟨6⟩ 3 2).drop 2, rfl,
      rfl, rfl, rfl, rfl⟩
  have ordered := claim streamed streamedBuilt _ streamedCompilation streamedFrames 0 1 _ _ ⟨1⟩ ⟨0⟩
    drawPass uploadPass ⟨0⟩ ⟨0⟩ ⟨1⟩ .graphics ⟨4⟩ m .copy ⟨5⟩ n _ reachable streamed_compiles
    streamed_compilation streamed_plays Nat.zero_lt_one rfl rfl
    (by rw [streamed_surviving]; exact List.mem_cons_of_mem _ List.mem_cons_self)
    (by rw [streamed_surviving]; exact List.mem_cons_self) (by decide) (by decide) (by decide)
    (by decide) (by decide +kernel) (by decide +kernel) submits submits' between
  revert ordered
  decide

end Session

end RenderGraph
