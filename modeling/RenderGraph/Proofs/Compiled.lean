import RenderGraph.Proofs.Session

/-! What a compilation that goes through leaves behind: the schedule of the declaration as culling
left it, and a player made for it. -/

namespace RenderGraph

/-- The player that `Player.make` makes for the schedule on some rig, and the rig afterwards. -/
def Player.MadeFor (p : Player) (schedule : Schedule) (frameCount : Nat) (rig : Rig) : Prop :=
  ∃ before, (make schedule frameCount : Op Unit Player).run () before = (.ok p, (), rig)

structure Graph.CompiledTo (g : Graph) (c : Compilation) : Prop where
  compilation : g.compilation = some c
  survival : g.survival = g.declaration.cull.survival
  schedule : (g.brief g.config.mergesReads).schedule = .ok c.schedule
  clean : g.dirty = false

namespace Graph

theorem survival_of_cull {g g' : Graph} {rig rig' : Rig} {result : Except Failure CullResult}
    (ran : cull.run g rig = (result, g', rig')) :
    g'.survival = g'.declaration.cull.survival := by
  cases ran
  rfl

theorem makeSchedule_ok {σ : Type} {b : Brief} {s s' : σ} {rig rig' : Rig} {schedule : Schedule}
    (ran : (makeSchedule b).run s rig = (.ok schedule, s', rig')) :
    b.schedule = .ok schedule := by
  obtain ⟨_, _, _, _, rest⟩ := Op.run_bind_ok.mp ran
  cases found : b.schedule with
  | ok made =>
    rw [found] at rest
    cases rest
    rfl
  | error reason =>
    rw [found] at rest
    cases rest

theorem makeCompilation_ok {b : Brief} {frameCount : Nat} {rig rig' : Rig} {c : Compilation}
    (ran : (makeCompilation b frameCount : Op Unit Compilation).run () rig = (.ok c, (), rig')) :
    b.schedule = .ok c.schedule ∧ c.executed = false ∧
      c.player.MadeFor c.schedule frameCount rig' := by
  obtain ⟨schedule, _, scheduled, made, rest⟩ := Op.run_bind_ok.mp ran
  obtain ⟨player, _, _, makes, last⟩ := Op.run_bind_ok.mp rest
  cases last
  exact ⟨makeSchedule_ok made, rfl, scheduled, makes⟩

def culled (g : Graph) (result : CullResult) : Graph :=
  { g with
    survival := result.survival
    wanted := g.declaration.resourceIds.map (g.declaration.wantedViews result.survival) }

theorem run_release_of_fresh {g : Graph} (compilation : g.compilation = none)
    (residency : g.residency = []) (rig : Rig) : release.run g rig = (.ok (), g, rig) := by
  obtain ⟨config, declaration, survival, wanted, _, _, dirty, frameIndex, deviceData⟩ := g
  cases compilation
  cases residency
  rfl

theorem run_compile_of_fresh {g : Graph} {result : CullResult}
    (compilation : g.compilation = none) (residency : g.residency = [])
    (cull : g.declaration.cull = result) (rig : Rig) :
    compile.run g rig =
      build.run (g.culled result) (rig.noteAll (g.declaration.cullLines result)) := by
  subst cull
  unfold compile
  rw [Op.run_bind, run_release_of_fresh compilation residency]
  rfl

end Graph

namespace Session

def built (s : Session) (result : CullResult) : Session :=
  after ⟨s.graph.culled result, s.rig.noteAll (s.graph.declaration.cullLines result)⟩ Graph.build

theorem does_compile_of_fresh {s : Session} {result : CullResult}
    (compilation : s.graph.compilation = none) (residency : s.graph.residency = [])
    (cull : s.graph.declaration.cull = result)
    (ok : (Graph.build.run (s.graph.culled result)
      (s.rig.noteAll (s.graph.declaration.cullLines result))).1.isOk = true) :
    s.Does Graph.compile (s.built result) := by
  have ran := Graph.run_compile_of_fresh compilation residency cull s.rig
  have same : s.after Graph.compile = s.built result := by
    unfold built after
    rw [ran]
  rw [← same]
  apply does_after
  rw [ran]
  exact ok

theorem Does.compiled {s s' : Session} (does : s.Does Graph.compile s') :
    ∃ c made, s'.graph.CompiledTo c ∧ c.executed = false ∧
      s'.graph.declaration = s.graph.declaration ∧ s'.graph.config = s.graph.config ∧
      c.player.MadeFor c.schedule s'.graph.config.frameCount made ∧
      s'.rig.device = made.device ∧ s'.rig.traffic = made.traffic := by
  obtain ⟨g', rig'⟩ := s'
  have keeps : Graph.compile.Keeps fun g => (g.declaration, g.config) :=
    Graph.keeps_compile fun _ _ _ _ _ _ => rfl
  have kept := Prod.mk.inj (keeps.of_run does)
  obtain ⟨_, released, rig₁, _, afterRelease⟩ := Op.run_bind_ok.mp does
  obtain ⟨_, culled, rig₂, cull, afterCull⟩ := Op.run_bind_ok.mp afterRelease
  obtain ⟨_, placed, rig₃, place, afterPlace⟩ := Op.run_bind_ok.mp afterCull
  have keepsPlacing : Graph.placeResources.Keeps fun g => (g.declaration, g.survival) :=
    Graph.keeps_placeResources fun _ _ => rfl
  have keptPlacing := Prod.mk.inj (keepsPlacing.of_run place)
  have survival : placed.survival = placed.declaration.cull.survival := by
    rw [keptPlacing.1, keptPlacing.2]
    exact Graph.survival_of_cull cull
  obtain ⟨_, _, _, read, afterRead⟩ := Op.run_bind_ok.mp afterPlace
  cases read
  obtain ⟨⟨result, ⟨⟩⟩, ready, rig₄, aside, afterMaking⟩ := Op.run_bind_ok.mp afterRead
  obtain ⟨making, rfl⟩ := Op.run_aside_ok.mp aside
  cases result with
  | error failure =>
    obtain ⟨_, _, _, _, failed⟩ := Op.run_bind_ok.mp afterMaking
    cases failed
  | ok c =>
    obtain ⟨scheduled, fresh, makes⟩ := Graph.makeCompilation_ok making
    obtain ⟨_, _, _, noted, last⟩ := Op.run_bind_ok.mp afterMaking
    cases noted
    have ended : g' = { ready with compilation := some c, dirty := false } ∧
        rig'.device = rig₄.device ∧ rig'.traffic = rig₄.traffic := by
      dsimp only at last
      split at last
      · obtain ⟨_, _, _, traced, update⟩ := Op.run_bind_ok.mp last
        cases traced
        cases update
        exact ⟨rfl, rfl, rfl⟩
      · cases last
        exact ⟨rfl, rfl, rfl⟩
    obtain ⟨rfl, device, traffic⟩ := ended
    exact ⟨c, rig₄, ⟨rfl, survival, scheduled, rfl⟩, fresh, kept.1, kept.2, makes, device, traffic⟩

theorem Does.schedule_eq {s s' : Session} {c : Compilation} {result : CullResult}
    (does : s.Does Graph.compile s') (cull : s.graph.declaration.cull = result)
    (compilation : s'.graph.compilation = some c) :
    (Brief.mk s.graph.declaration result.survival s.graph.config.mergesReads).schedule =
      .ok c.schedule := by
  obtain ⟨c', made, compiled, _, declaration, config, _⟩ := does.compiled
  have same : c = c' := Option.some.inj (compilation.symm.trans compiled.compilation)
  have schedule := compiled.schedule
  rw [Graph.brief, compiled.survival, declaration, config, cull] at schedule
  rw [same]
  exact schedule

end Session

end RenderGraph
