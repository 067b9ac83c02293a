import RenderGraph.Proofs.PlayerKept

/-! What holds of the compilation of a graph whatever a caller has done: its schedule comes from
some declaration, and its player fits the schedule and has as many sets of lists as frames in
flight. -/

namespace RenderGraph

structure Compilation.Sound (c : Compilation) (frameCount : Nat) : Prop where
  scheduled : ∃ b : Brief, b.declaration.Closed ∧ b.schedule = .ok c.schedule
  fits : c.player.Fits c.schedule
  counted : c.player.Counted
  sets : c.player.sets.length = max frameCount 1

theorem Compilation.Sound.played {c : Compilation} {frameCount : Nat}
    (sound : c.Sound frameCount) (scene : Scene) (frameIndex : Nat) (rig : Rig) (executed : Bool) :
    ({ c with
      player := ((Player.play c.schedule scene frameIndex).run c.player rig).2.1
      executed } : Compilation).Sound frameCount := by
  have kept := Player.keeps_play_rewound c.schedule scene frameIndex c.player rig
  constructor
  · exact sound.scheduled
  · exact sound.fits.of_rewound kept
  · exact Player.maintains_play_counted c.schedule scene frameIndex c.player rig sound.counted
  · exact (congrArg (fun p : Player => p.sets.length) kept).trans sound.sets

namespace Graph

def Sound (g : Graph) : Prop := ∀ c, g.compilation = some c → c.Sound g.config.frameCount

def Upheld (g : Graph) : Prop := g.declaration.Closed ∧ g.Sound

variable {g g' : Graph} {α : Type} {rig rig' : Rig}

theorem sound_of_none (none : g.compilation = none) : g.Sound := by
  intro c some
  rw [none] at some
  cases some

theorem maintains_of_keeps {op : Op Graph α}
    (keeps : op.Keeps fun g => (g.declaration, g.compilation, g.config)) :
    op.Maintains Upheld := by
  refine keeps.maintains ?_
  intro g g' same upheld
  simp only [Prod.mk.injEq] at same
  rcases same with ⟨declaration, compilation, config⟩
  refine ⟨declaration ▸ upheld.1, ?_⟩
  intro c held
  rw [compilation] at held
  rw [config]
  exact upheld.2 c held

theorem maintains_releaseResidency : releaseResidency.Maintains Upheld :=
  maintains_of_keeps (keeps_releaseResidency fun _ _ => rfl)

theorem maintains_release : release.Maintains Upheld := by
  apply (maintains_of_keeps keeps_drain).bind
  intro _
  apply (maintains_of_keeps Op.keeps_read).bind
  intro g
  have rest : (do releaseResidency; Op.update ({ · with compilation := none })).Maintains
      Upheld := by
    apply maintains_releaseResidency.bind
    intro _
    exact Op.maintains_update fun g upheld => ⟨upheld.1, sound_of_none rfl⟩
  cases g.compilation with
  | none => exact (maintains_of_keeps (Op.keeps_pure ())).bind fun _ => rest
  | some c => exact (maintains_of_keeps c.player.keeps_destroy).bind fun _ => rest

theorem compilation_of_release (ran : release.run g rig = (.ok (), g', rig')) :
    g'.compilation = none := by
  have rest {mid : Graph} {rigMid : Rig}
      (ran : (do releaseResidency; Op.update ({ · with compilation := none })).run mid rigMid =
        (.ok (), g', rig')) : g'.compilation = none := by
    obtain ⟨_, _, _, _, update⟩ := Op.run_bind_ok.mp ran
    cases update
    rfl
  obtain ⟨_, _, _, _, ran⟩ := Op.run_bind_ok.mp ran
  obtain ⟨held, _, _, _, ran⟩ := Op.run_bind_ok.mp ran
  dsimp only at ran
  split at ran
  · obtain ⟨_, _, _, _, ran⟩ := Op.run_bind_ok.mp ran
    exact rest ran
  · exact rest ran

theorem maintains_build : build.Maintains Upheld := by
  apply (maintains_of_keeps (keeps_placeResources fun _ _ => rfl)).bind
  intro _
  apply Op.maintains_read_bind
  intro g rig upheld
  rw [Op.run_bind, Op.run_aside]
  dsimp only
  rcases ran : (makeCompilation (g.brief g.config.mergesReads) g.config.frameCount :
    Op Unit Compilation).run () rig with ⟨failure | c, ⟨⟩, after⟩
  · exact (maintains_releaseResidency.bind fun _ => Op.maintains_fail failure) g after upheld
  · rcases makeCompilation_ok ran with ⟨scheduled, _, made⟩
    have sound : ({ g with compilation := some c, dirty := false } : Graph).Upheld := by
      refine ⟨upheld.1, ?_⟩
      rintro _ ⟨⟩
      exact ⟨⟨_, upheld.1, scheduled⟩, made.fits, made.counted, made.length_sets⟩
    dsimp only
    split <;> exact sound

theorem maintains_compile : compile.Maintains Upheld := by
  apply maintains_release.bind
  intro _
  apply (maintains_of_keeps (keeps_cull fun _ _ _ => rfl)).bind
  intro _
  exact maintains_build

theorem maintains_execute : execute.Maintains Upheld := by
  apply Op.maintains_read_bind
  intro g rig upheld
  dsimp only
  split
  · rename_i c _ held
    rw [Op.run_bind, Op.run_aside]
    dsimp only
    rw [Op.run_bind, Op.run_update]
    dsimp only
    have sound (executed : Bool) :=
      (upheld.2 c held).played g.scene g.frameIndex rig executed
    split
    · refine ⟨upheld.1, ?_⟩
      rintro _ ⟨⟩
      exact sound true
    · refine ⟨upheld.1, ?_⟩
      rintro _ ⟨⟩
      exact sound c.executed
  · exact upheld

theorem upheld_of_release {next : Op Graph Unit} (upheld : g.Upheld)
    (ends : ∀ g rig, g.declaration.Closed → g.compilation = none → (next.run g rig).2.1.Upheld)
    (rig : Rig) : ((release >>= fun _ => next).run g rig).2.1.Upheld := by
  rw [Op.run_bind]
  rcases ran : release.run g rig with ⟨failure | ⟨⟩, g', rig'⟩
  · exact maintains_release.of_run ran upheld
  · have released := maintains_release.of_run ran upheld
    exact ends g' rig' released.1 (compilation_of_release ran)

theorem maintains_setFrameCount (n : Nat) : (setFrameCount n).Maintains Upheld := by
  intro g rig upheld
  unfold setFrameCount
  apply upheld_of_release upheld
  intro g rig closed none
  exact ⟨closed, sound_of_none none⟩

theorem maintains_reset : reset.Maintains Upheld := by
  intro g rig upheld
  unfold reset
  apply upheld_of_release upheld
  intro g rig _ none
  exact ⟨Declaration.closed_empty, sound_of_none none⟩

end Graph

namespace Session

theorem sound_rebound {s : Session} (sound : s.graph.Sound) {r : ResourceId} {f : Copy → Copy} :
    (s.rebound (s.graph.rebind r f)).graph.Sound := by
  unfold Graph.rebind
  cases s.graph.declaration.getResource r with
  | error misuse => exact sound
  | ok resource =>
    obtain ⟨name, origin, _⟩ := resource
    cases origin <;> exact sound

theorem Reachable.upheld {s : Session} (reachable : s.Reachable) : s.graph.Upheld := by
  induction reachable with
  | start config faults journal =>
    exact ⟨Declaration.closed_empty, Graph.sound_of_none rfl⟩
  | @act s reachable a upheld =>
    have closed := (reachable.act a).closed
    cases a with
    | importResource | manage | declare | setFrameIndex | useData | clearData | plan
      | refuseResources => exact ⟨closed, upheld.2⟩
    | update r native => exact ⟨closed, sound_rebound upheld.2⟩
    | updateView r kind view => exact ⟨closed, sound_rebound upheld.2⟩
    | setFrameCount n => exact Graph.maintains_setFrameCount n s.graph s.rig upheld
    | compile => exact Graph.maintains_compile s.graph s.rig upheld
    | execute => exact Graph.maintains_execute s.graph s.rig upheld
    | drain => exact Graph.maintains_of_keeps Graph.keeps_drain s.graph s.rig upheld
    | reset => exact Graph.maintains_reset s.graph s.rig upheld

end Session

end RenderGraph
