import RenderGraph.Proofs.FrameTry

/-! Frames tried one after another, whether they go through or not. Only one that goes through
counts and gives its set of lists a new value of the frame fence. -/

namespace RenderGraph

/-- A frame that was tried: whether it went through, and the traffic it made. -/
structure TriedFrame where
  completed : Bool
  traffic : List Traffic
  deriving DecidableEq, Repr

namespace Player

inductive Tries (s : Schedule) (p : Player) : List TriedFrame → Player → Prop
  | nil : Tries s p [] p
  | snoc {frames : List TriedFrame} {frame : TriedFrame} {mid after : Player} {scene : Scene}
    {frameIndex : Nat} (tries : Tries s p frames mid)
    (attempt : mid.Attempt s scene frameIndex frame.completed frame.traffic after) :
    Tries s p (frames ++ [frame]) after

variable {s : Schedule} {start p after : Player} {scene : Scene} {frameIndex : Nat}
  {completed : Bool} {traffic : List Traffic} {frames : List TriedFrame} {frame : TriedFrame}

theorem Attempt.rewound (attempt : p.Attempt s scene frameIndex completed traffic after) :
    after.rewound = p.rewound := by
  cases attempt with
  | refused => rfl
  | stopped _ _ _ rewound => exact rewound
  | whole turn =>
    cases turn with
    | mk replays => exact replays.kept.1

theorem Attempt.given_up (attempt : p.Attempt s scene frameIndex false traffic after) :
    after.nextSet = p.nextSet ∧ after.setValues = p.setValues := by
  have sets := sets_of_rewound attempt.rewound
  cases attempt with
  | refused => exact ⟨rfl, rfl⟩
  | stopped _ _ _ _ setValues frames => exact ⟨by rw [nextSet, nextSet, sets, frames], setValues⟩

theorem Attempt.went_through (attempt : p.Attempt s scene frameIndex true traffic after) :
    after.setValues = p.setValues.set p.nextSet p.frameFence.raised.value ∧
      after.frameFence = p.frameFence.raised := by
  cases attempt with
  | whole turn =>
    cases turn with
    | mk replays =>
      obtain ⟨_, fences, rfl⟩ := replays.kept
      exact ⟨rfl, rfl⟩

theorem Attempt.counted (attempt : p.Attempt s scene frameIndex completed traffic after)
    (counted : p.Counted) : after.Counted := by
  have sets := sets_of_rewound attempt.rewound
  cases attempt with
  | refused => exact counted
  | stopped _ _ _ _ setValues _ grows =>
    constructor
    · rw [setValues, sets]
      exact counted.length
    · intro value member
      rw [setValues] at member
      exact Nat.le_trans (counted.given value member) grows
  | whole turn =>
    cases turn with
    | mk replays =>
      obtain ⟨_, fences, rfl⟩ := replays.kept
      have raised : ({ p with fences } : Player).Counted := ⟨counted.length, counted.given⟩
      exact raised.closed _

theorem Tries.rewound (tries : start.Tries s frames p) : p.rewound = start.rewound := by
  induction tries with
  | nil => rfl
  | snoc _ attempt ih => exact attempt.rewound.trans ih

theorem Tries.counted (tries : start.Tries s frames p) (counted : start.Counted) :
    p.Counted := by
  induction tries with
  | nil => exact counted
  | snoc _ attempt ih => exact attempt.counted ih

theorem Tries.split {j : Nat} (tries : start.Tries s frames p) (held : frames[j]? = some frame) :
    ∃ mid scene frameIndex after, start.Tries s (frames.take j) mid ∧
      mid.Attempt s scene frameIndex frame.completed frame.traffic after := by
  induction tries with
  | nil => cases held
  | @snoc frames last mid after scene frameIndex tries attempt ih =>
    rcases Nat.lt_trichotomy j frames.length with inside | rfl | beyond
    · rw [List.getElem?_append_left inside] at held
      rw [List.take_append_of_le_length (Nat.le_of_lt inside)]
      exact ih held
    · rw [List.getElem?_concat_length] at held
      cases held
      rw [List.take_left]
      exact ⟨mid, scene, frameIndex, after, tries, attempt⟩
    · have bound := (List.getElem?_eq_some_iff.mp held).1
      rw [List.length_append, List.length_singleton] at bound
      omega

end Player

namespace Session

variable {s t : Session} {c : Compilation} {frames : List TriedFrame}

/-- Frames of a compiled graph that are tried one after another. Between them the caller does only
what neither the traffic nor the compilation notices. -/
inductive Tries (s : Session) : List TriedFrame → Session → Prop
  | start : Tries s [] s
  | idle {frames : List TriedFrame} {t : Session} (tries : Tries s frames t) (a : Action)
    (compilation : (t.act a).graph.compilation = t.graph.compilation)
    (silent : (t.act a).rig.traffic = t.rig.traffic) : Tries s frames (t.act a)
  | execute {frames : List TriedFrame} {t : Session} (tries : Tries s frames t)
    (frame : TriedFrame) (completed : frame.completed = (Graph.execute.run t.graph t.rig).1.isOk)
    (made : (t.act .execute).rig.traffic.toList = t.rig.traffic.toList ++ frame.traffic) :
    Tries s (frames ++ [frame]) (t.act .execute)

theorem Tries.plan (tries : s.Tries frames t) (faults : List Fault) :
    s.Tries frames (t.act (.plan faults)) := tries.idle (.plan faults) rfl rfl

theorem attempt_of_execute (held : t.graph.compilation = some c) (fits : c.player.Fits c.schedule)
    (signed : c.schedule.Signed) :
    ∃ traffic player executed,
      (t.act .execute).rig.traffic.toList = t.rig.traffic.toList ++ traffic ∧
      (t.act .execute).graph.compilation = some { c with player, executed } ∧
      c.player.Attempt c.schedule t.graph.scene t.graph.frameIndex
        (Graph.execute.run t.graph t.rig).1.isOk traffic player := by
  change ∃ traffic player executed,
    (Graph.execute.run t.graph t.rig).2.2.traffic.toList = _ ∧
      (Graph.execute.run t.graph t.rig).2.1.compilation = _ ∧ _
  unfold Graph.execute
  rw [Op.run_bind, Op.run_read]
  dsimp only
  rw [held]
  cases t.graph.dirty with
  | true =>
    exact ⟨[], c.player, c.executed, (List.append_nil _).symm, held,
      .refused fun _ => List.not_mem_nil⟩
  | false =>
    dsimp only
    rw [Op.run_bind, Op.run_aside]
    dsimp only
    rw [Op.run_bind, Op.run_update]
    dsimp only
    rcases played : (Player.play c.schedule t.graph.scene t.graph.frameIndex).run c.player t.rig
      with ⟨failure | ⟨⟩, player, rig⟩
    · obtain ⟨traffic, made, attempt⟩ := Player.play_error fits signed played
      exact ⟨traffic, player, c.executed, made, rfl, attempt⟩
    · obtain ⟨traffic, made, turn⟩ := Player.play_ok fits played
      exact ⟨traffic, player, true, made, rfl, .whole turn⟩

theorem Tries.tries (tries : s.Tries frames t) (held : s.graph.compilation = some c)
    (fits : c.player.Fits c.schedule) (signed : c.schedule.Signed) :
    ∃ player executed, t.graph.compilation = some { c with player, executed } ∧
      c.player.Tries c.schedule frames player := by
  induction tries with
  | start => exact ⟨c.player, c.executed, held, .nil⟩
  | idle _ a compilation _ ih =>
    obtain ⟨player, executed, kept, tries⟩ := ih
    exact ⟨player, executed, compilation.trans kept, tries⟩
  | execute _ frame completed made ih =>
    obtain ⟨player, executed, kept, tries⟩ := ih
    obtain ⟨more, after, executed', added, left, attempt⟩ :=
      attempt_of_execute kept (fits.of_rewound tries.rewound) signed
    have equal : more = frame.traffic := List.append_cancel_left (added.symm.trans made)
    rw [equal, ← completed] at attempt
    exact ⟨after, executed', left, .snoc tries attempt⟩

end Session

end RenderGraph
