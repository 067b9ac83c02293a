import RenderGraph.Proofs.CompilationSound
import RenderGraph.Proofs.FrameTraffic

/-! Frames executed one after another. A player counts them, and before it uses a set of lists again
it waits for the frame that used the set last. -/

namespace RenderGraph

namespace Player

inductive Turns (s : Schedule) (p : Player) : List (List Traffic) → Player → Prop
  | nil : Turns s p [] p
  | snoc {frames : List (List Traffic)} {traffic : List Traffic} {mid after : Player}
    {scene : Scene} {frameIndex : Nat} (turns : Turns s p frames mid)
    (turn : mid.Turn s scene frameIndex traffic after) : Turns s p (frames ++ [traffic]) after

/-- A later player after so many frames. The sets used in the last frames have the values of these
frames, and the sets not used in any of them have older ones. -/
structure Turned (start : Player) (count : Nat) (p : Player) : Prop where
  rewound : p.rewound = start.rewound
  frames : p.frames = start.frames + count
  value : p.frameFence.value = start.frameFence.value + count
  length : p.setValues.length = start.sets.length
  recent : ∀ i, i < count → count ≤ i + start.sets.length →
    p.setValues.getD ((start.frames + i) % start.sets.length) 0 = start.frameFence.value + i + 1
  old : ∀ i, count ≤ i → i < start.sets.length →
    p.setValues.getD ((start.frames + i) % start.sets.length) 0 ≤ start.frameFence.value

variable {s : Schedule} {start p after : Player} {count : Nat} {frames : List (List Traffic)}
  {traffic : List Traffic}

theorem mod_ne_of_near {i j n : Nat} (less : i < j) (near : j < i + n) : i % n ≠ j % n := by
  intro same
  have gone := Nat.sub_mod_eq_zero_of_mod_eq same.symm
  rw [Nat.mod_eq_of_lt (by omega)] at gone
  omega

theorem turned_start (counted : start.Counted) (some : 0 < start.sets.length) :
    start.Turned 0 start where
  rewound := rfl
  frames := rfl
  value := rfl
  length := counted.length
  recent i before := absurd before (Nat.not_lt_zero i)
  old := by
    intro i _ _
    have inside : (start.frames + i) % start.sets.length < start.setValues.length := by
      rw [counted.length]
      exact Nat.mod_lt _ some
    rw [List.getD_eq_getElem?_getD, List.getElem?_eq_getElem inside]
    exact counted.given _ (List.getElem_mem inside)

theorem Turned.sets (turned : start.Turned count p) : p.sets = start.sets :=
  (congrArg Player.sets turned.rewound :)

theorem Turned.nextSet (turned : start.Turned count p) :
    p.nextSet = (start.frames + count) % start.sets.length := by
  rw [Player.nextSet, turned.sets, turned.frames]

theorem Turned.value_of_used (turned : start.Turned count p) (some : 0 < start.sets.length)
    (used : start.sets.length ≤ count) :
    p.setValues.getD p.nextSet 0 =
      start.frameFence.value + (count - start.sets.length) + 1 := by
  have index : (start.frames + count) % start.sets.length =
      (start.frames + (count - start.sets.length)) % start.sets.length := by
    rw [← Nat.add_mod_right (start.frames + (count - start.sets.length)), Nat.add_assoc,
      Nat.sub_add_cancel used]
  rw [turned.nextSet, index]
  exact turned.recent _ (by omega) (by omega)

theorem Turned.value_of_unused (turned : start.Turned count p)
    (unused : count < start.sets.length) :
    p.setValues.getD p.nextSet 0 ≤ start.frameFence.value := by
  rw [turned.nextSet]
  exact turned.old count (Nat.le_refl count) unused

theorem Turns.rewound (turns : start.Turns s frames p) : p.rewound = start.rewound := by
  induction turns with
  | nil => rfl
  | snoc _ turn ih =>
    cases turn with
    | mk replays => exact replays.kept.1.trans ih

theorem Turned.turn {scene : Scene} {frameIndex : Nat} (turned : start.Turned count p)
    (some : 0 < start.sets.length) (turn : p.Turn s scene frameIndex traffic after) :
    start.Turned (count + 1) after := by
  cases turn with
  | mk replays =>
    obtain ⟨rewound, fences, rfl⟩ := replays.kept
    have next := turned.nextSet
    have value := turned.value
    have inside : p.nextSet < p.setValues.length := by
      rw [next, turned.length]
      exact Nat.mod_lt _ some
    constructor
    · exact rewound.trans turned.rewound
    · exact congrArg (· + 1) turned.frames
    · exact congrArg (· + 1) turned.value
    · exact List.length_set.trans turned.length
    · intro i before near
      rw [closed, List.getD_eq_getElem?_getD]
      rcases Nat.lt_succ_iff_lt_or_eq.mp before with earlier | rfl
      · have other : p.nextSet ≠ (start.frames + i) % start.sets.length := by
          rw [next]
          exact (mod_ne_of_near (by omega) (by omega)).symm
        rw [List.getElem?_set_ne other, ← List.getD_eq_getElem?_getD]
        exact turned.recent i earlier (by omega)
      · rw [← next, List.getElem?_set_self inside]
        exact congrArg (· + 1) value
    · intro i later unused
      have other : p.nextSet ≠ (start.frames + i) % start.sets.length := by
        rw [next]
        exact mod_ne_of_near (by omega) (by omega)
      rw [closed, List.getD_eq_getElem?_getD, List.getElem?_set_ne other,
        ← List.getD_eq_getElem?_getD]
      exact turned.old i (by omega) unused

theorem Turns.turned (turns : start.Turns s frames p) (counted : start.Counted)
    (some : 0 < start.sets.length) : start.Turned frames.length p := by
  induction turns with
  | nil => exact turned_start counted some
  | snoc _ turn ih =>
    rw [List.length_append, List.length_singleton]
    exact ih.turn some turn

theorem Turns.split {j : Nat} (turns : start.Turns s frames p) (held : frames[j]? = some traffic) :
    ∃ mid scene frameIndex after, start.Turns s (frames.take j) mid ∧
      mid.Turn s scene frameIndex traffic after := by
  induction turns with
  | nil => cases held
  | @snoc frames last mid after scene frameIndex turns turn ih =>
    rcases Nat.lt_trichotomy j frames.length with inside | rfl | beyond
    · rw [List.getElem?_append_left inside] at held
      rw [List.take_append_of_le_length (Nat.le_of_lt inside)]
      exact ih held
    · rw [List.getElem?_concat_length] at held
      cases held
      rw [List.take_left]
      exact ⟨mid, scene, frameIndex, after, turns, turn⟩
    · have bound := (List.getElem?_eq_some_iff.mp held).1
      rw [List.length_append, List.length_singleton] at bound
      omega

end Player

/-- A frame that was executed: the graph it was executed for, and the traffic it made. -/
structure PlayedFrame where
  graph : Graph
  traffic : List Traffic
  deriving DecidableEq, Repr

namespace Session

variable {s t t' : Session}

/-- Successive frames of a compiled graph. Between them the caller does only what neither the device
nor the compilation notices. -/
inductive Plays (s : Session) : List PlayedFrame → Session → Prop
  | start : Plays s [] s
  | idle {frames : List PlayedFrame} {t : Session} (plays : Plays s frames t) (a : Action)
    (compilation : (t.act a).graph.compilation = t.graph.compilation)
    (silent : (t.act a).rig.traffic = t.rig.traffic) : Plays s frames (t.act a)
  | execute {frames : List PlayedFrame} {t t' : Session} {traffic : List Traffic}
    (plays : Plays s frames t) (does : t.Does Graph.execute t')
    (made : t'.rig.traffic.toList = t.rig.traffic.toList ++ traffic) :
    Plays s (frames ++ [⟨t.graph, traffic⟩]) t'

theorem Does.executed (does : t.Does Graph.execute t') :
    ∃ c player, t.graph.compilation = some c ∧
      (Player.play c.schedule t.graph.scene t.graph.frameIndex).run c.player t.rig =
        (.ok (), player, t'.rig) ∧
      t'.graph.compilation = some { c with player, executed := true } := by
  obtain ⟨g', rig'⟩ := t'
  obtain ⟨_, _, _, reading, ran⟩ := Op.run_bind_ok.mp does
  cases reading
  dsimp only at ran
  split at ran
  · rename_i c _ held
    obtain ⟨⟨result, player⟩, _, _, aside, ran⟩ := Op.run_bind_ok.mp ran
    rcases Op.run_aside_ok.mp aside with ⟨played, rfl⟩
    obtain ⟨_, _, _, updating, ran⟩ := Op.run_bind_ok.mp ran
    cases updating
    cases result with
    | ok done =>
      cases ran
      exact ⟨c, player, held, played, rfl⟩
    | error failure => cases ran
  · cases ran

theorem Plays.turns {c : Compilation} {frames : List PlayedFrame}
    (held : s.graph.compilation = some c) (fits : c.player.Fits c.schedule)
    (plays : s.Plays frames t) :
    ∃ player executed, t.graph.compilation = some { c with player, executed } ∧
      c.player.Turns c.schedule (frames.map (·.traffic)) player := by
  induction plays with
  | start => exact ⟨c.player, c.executed, held, .nil⟩
  | idle _ a compilation _ ih =>
    obtain ⟨player, executed, kept, turns⟩ := ih
    exact ⟨player, executed, compilation.trans kept, turns⟩
  | @execute frames t t' traffic _ does made ih =>
    obtain ⟨player, executed, kept, turns⟩ := ih
    obtain ⟨c', after, present, played, left⟩ := does.executed
    have same := Option.some.inj (present.symm.trans kept)
    subst same
    have fits' : player.Fits c.schedule := fits.of_rewound turns.rewound
    obtain ⟨more, added, turn⟩ := Player.play_ok fits' played
    have equal : traffic = more := List.append_cancel_left (made.symm.trans added)
    subst equal
    refine ⟨after, true, left, ?_⟩
    rw [List.map_append]
    exact .snoc turns turn

end Session

end RenderGraph
