import RenderGraph.Proofs.CompilationKept
import RenderGraph.Proofs.CompileResult
import RenderGraph.Proofs.ExactOwnership

/-! What a failed compilation leaves behind. A failure can come between the copies of a resource,
between the views of a copy, in the middle of a set of lists or when all there is to place is in
place. Wherever it comes, everything made so far is given up again and the graph has nothing to
execute, until a compilation goes through. -/

namespace RenderGraph

/-- The failure is handed back to the caller. A misuse is not: it ends the caller's program. -/
def Failure.IsReturned : Failure → Prop
  | misuse _ => False
  | _ => True

namespace Residency

variable {o : Order} {orders : List Order} {held after : Residency} {rig rig' : Rig}
  {failure : Failure}

theorem run_releaseAll_nil (held : Residency) (rig : Rig) :
    ∃ after, releaseAll.run held rig = (.ok (), [], after) := by
  obtain ⟨_, ok⟩ := succeeds_releaseAll held rig
  rcases ran : releaseAll.run held rig with ⟨_ | ⟨⟩, left, after⟩
  · rw [ran] at ok
    cases ok
  · exact ⟨after, by rw [eq_nil_of_releaseAll ran]⟩

theorem eq_nil_of_giveBack {copies : List Copy} {result : Except Failure Unit}
    (ran : (giveBack copies failure).run held rig = (result, after, rig')) : after = [] := by
  obtain ⟨_, ok⟩ := Op.succeeds_releaseCopies copies held rig
  rw [giveBack, Op.run_bind] at ran
  rcases released : (Op.releaseCopies copies).run held rig with ⟨_ | ⟨⟩, mid, rigMid⟩
  · rw [released] at ok
    cases ok
  · obtain ⟨last, emptied⟩ := run_releaseAll_nil mid rigMid
    rw [released] at ran
    dsimp only at ran
    rw [Op.run_bind, emptied] at ran
    cases ran
    rfl

theorem eq_nil_of_place_error (returned : failure.IsReturned)
    (ran : (place o).run held rig = (.error failure, after, rig')) : after = [] := by
  have fares := o.fares_addCopies (Rig.Leads.refl : rig.Leads Call.IsUpkeep rig) o.count []
  rw [place, Op.run_bind, Op.run_aside] at ran
  rcases made : (o.addCopies o.count).run [] rig with ⟨cause | ⟨⟩, copies, mid⟩
  all_goals rw [made] at ran
  · have isCall : cause.IsCall := by
      rcases fares cause copies mid made with denied | refused
      · exact denied.isCall
      · exact refused.isCall
    cases cause with
    | device error =>
      dsimp only at ran
      rw [Op.run_bind, Op.run_note] at ran
      exact eq_nil_of_giveBack ran
    | misuse =>
      cases ran
      exact absurd returned id
    | allPassesCulled | readBeforeCreate | unbound | notCompiled => exact absurd isCall id
  · cases ran

theorem eq_nil_of_placeAll_error (returned : failure.IsReturned)
    (ran : (placeAll orders).run held rig = (.error failure, after, rig')) : after = [] := by
  have placing : (orders.forM place).run held rig = (.error failure, after, rig') := by
    rcases Op.run_bind_error.mp ran with placing | ⟨_, _, _, _, noted⟩
    · exact placing
    · cases noted
  clear ran
  induction orders generalizing held rig with
  | nil => cases placing
  | cons o orders ih =>
    rcases Op.run_bind_error.mp placing with first | ⟨_, _, _, _, rest⟩
    · exact eq_nil_of_place_error returned first
    · exact ih rest

end Residency

namespace Graph

variable {g g' : Graph} {rig rig' : Rig} {failure : Failure}

theorem residency_of_build_error (returned : failure.IsReturned)
    (ran : build.run g rig = (.error failure, g', rig')) : g'.residency = [] := by
  rw [build_eq] at ran
  rcases Op.run_bind_error.mp ran with placing | ⟨_, mid, rigMid, _, ran⟩
  · rw [placeResources, Op.run_bind, Op.run_read] at placing
    dsimp only at placing
    rw [Op.run_within] at placing
    obtain ⟨result, rest⟩ := Prod.mk.inj placing
    obtain ⟨rfl, rfl⟩ := Prod.mk.inj rest
    exact Residency.eq_nil_of_placeAll_error returned (Prod.ext result rfl)
  · rw [Op.run_bind, Op.run_read] at ran
    dsimp only at ran
    rw [assemble, Op.run_bind, Op.run_aside] at ran
    rcases made : (makeCompilation (mid.brief mid.config.mergesReads) mid.config.frameCount :
      Op Unit Compilation).run () rigMid with ⟨cause | c, ⟨⟩, rigMade⟩
    all_goals
      rw [made] at ran
      dsimp only at ran
    · obtain ⟨last, emptied⟩ := Residency.run_releaseAll_nil mid.residency rigMade
      rw [Op.run_bind, releaseResidency, Op.run_within, emptied] at ran
      cases ran
      rfl
    · rw [Op.run_bind, Op.run_note] at ran
      dsimp only at ran
      split at ran <;> cases ran

theorem nothing_of_compile_error {released : Graph} {rigReleased : Rig}
    (returned : failure.IsReturned)
    (releasing : release.run g rig = (.ok (), released, rigReleased))
    (ran : compile.run g rig = (.error failure, g', rig')) :
    g'.residency = [] ∧ g'.compilation = none := by
  rcases Op.run_bind_error.mp ran with stopped | ⟨_, mid, rigMid, same, ran⟩
  · cases releasing.symm.trans stopped
  · cases releasing.symm.trans same
    obtain ⟨_, culled, _, culling, building⟩ :=
      (Op.run_bind_error.mp ran).resolve_left fun culling => by cases culling
    have keeps : cull.Keeps compilation := keeps_cull fun _ _ _ => rfl
    refine ⟨residency_of_build_error returned building, ?_⟩
    rw [compilation_of_build_error building, keeps.of_run culling,
      compilation_of_release releasing]

theorem run_execute_of_none (none : g.compilation = none) (rig : Rig) :
    execute.run g rig = (.error .notCompiled, g, rig) := by
  rw [execute, Op.run_bind, Op.run_read]
  dsimp only
  rw [none]
  cases g.dirty <;> rfl

end Graph

namespace Session

variable {s t : Session} {failure : Failure}

/-- Nothing that the graph ever made is left on the device, nor in its rows. -/
structure LeftBare (s : Session) : Prop where
  lists : s.rig.device.lists = []
  resources : s.rig.device.resources = []
  views : s.rig.device.views = []
  fences : s.rig.device.fences = []
  given_up : (madeIn s.rig.traffic.toList).Perm (givenUpIn s.rig.traffic.toList)
  rows : ∀ r resource, s.graph.declaration.resource? r = some resource →
    resource.origin.isImported = false → s.graph.scene.copies r = []

/-- One session comes of the other, and no compilation goes through on the way. -/
inductive WithoutCompiling (s : Session) : Session → Prop
  | start : s.WithoutCompiling s
  | act {t : Session} (before : s.WithoutCompiling t) (a : Action)
    (fails : a = .compile → ∃ failure, (Graph.compile.run t.graph t.rig).1 = .error failure) :
    s.WithoutCompiling (t.act a)

theorem leftBare_of_nothing (accounts : s.graph.Accounts s.rig) (empty : s.graph.residency = [])
    (none : s.graph.compilation = none) : s.LeftBare := by
  have assets : s.graph.assets = [] := by
    rw [Graph.assets, Graph.playerAssets, empty, none]
    rfl
  have nothing : s.rig.Accounts [] := assets ▸ accounts
  obtain ⟨lists, resources, views, fences⟩ := Device.eq_nil_of_assets nothing.alive.eq_nil
  refine ⟨lists, resources, views, fences, ?_, fun r resource declared owned => ?_⟩
  · simpa using nothing.account
  · cases resource with
    | mk name origin =>
      cases origin with
      | imported => cases owned
      | managed | transient => simp [Scene.copies, Graph.scene, declared, Residency.copiesOf, empty]

theorem compilation_act (none : s.graph.compilation = none) (a : Action)
    (fails : a = .compile → ∃ failure, (Graph.compile.run s.graph s.rig).1 = .error failure) :
    (s.act a).graph.compilation = .none := by
  by_cases executes : a = .execute
  · subst executes
    have same : (s.act .execute).graph = s.graph :=
      congrArg (·.2.1) (Graph.run_execute_of_none none s.rig)
    rw [same]
    exact none
  · rcases s.kept_or_none a executes fails with kept | gone
    · exact kept.compilation.trans none
    · exact gone

theorem WithoutCompiling.compilation (without : s.WithoutCompiling t)
    (none : s.graph.compilation = none) : t.graph.compilation = .none := by
  induction without with
  | start => exact none
  | act _ a fails ih => exact compilation_act ih a fails

/-- If the earlier compilation is released and compiling then fails, wherever that is, nothing that
the graph made is left on the device and no row of its own has a copy. Until a compilation goes
through there is no schedule, and executing is refused and makes no call. -/
theorem compile_failure_leaves_nothing (reachable : s.Reachable)
    (released : (Graph.release.run s.graph s.rig).1 = .ok ())
    (failed : (Graph.compile.run s.graph s.rig).1 = .error failure)
    (returned : failure.IsReturned) :
    (s.act .compile).LeftBare ∧ ∀ t, (s.act .compile).WithoutCompiling t →
      t.graph.schedule? = none ∧
        Graph.execute.run t.graph t.rig = (.error .notCompiled, t.graph, t.rig) := by
  rcases releasing : Graph.release.run s.graph s.rig with ⟨result, left, rigLeft⟩
  rcases ran : Graph.compile.run s.graph s.rig with ⟨outcome, g', rig'⟩
  rw [releasing] at released
  rw [ran] at failed
  subst released failed
  obtain ⟨empty, none⟩ := Graph.nothing_of_compile_error returned releasing ran
  have same : (s.act .compile).graph = g' := congrArg (·.2.1) ran
  rw [← same] at empty none
  refine ⟨leftBare_of_nothing (reachable.act .compile).accounts empty none, fun t without => ?_⟩
  have still := without.compilation none
  refine ⟨?_, Graph.run_execute_of_none still t.rig⟩
  rw [Graph.schedule?, still]
  rfl

def streamedLost : Session :=
  streamed.act (.plan [{ method := .createFence, skip := 1, error := .deviceLost }])

theorem streamedLost_compile (rig : Rig) : Graph.compile.run streamedLost.graph rig =
    Graph.build.run (streamedLost.graph.culled streamedCull)
      (rig.noteAll (streamedLost.graph.declaration.cullLines streamedCull)) :=
  Graph.run_compile_of_fresh (by decide +kernel) (by decide +kernel) streamed_cull rig

theorem streamedLost_leaves_nothing : streamedLost.Reachable ∧
    (Graph.release.run streamedLost.graph streamedLost.rig).1 = .ok () ∧
    (Graph.compile.run streamedLost.graph streamedLost.rig).1 = .error (.device .deviceLost) ∧
    givenUpIn (streamedLost.act .compile).rig.traffic.toList = [
      .list ⟨3⟩, .list ⟨4⟩, .list ⟨5⟩, .list ⟨6⟩, .fence ⟨7⟩,
      .view .shaderRead ⟨2⟩, .resource ⟨1⟩] ∧
    (streamedLost.act .compile).LeftBare ∧
    (streamedLost.act .compile).graph.schedule? = none ∧
    Graph.execute.run (streamedLost.act .compile).graph (streamedLost.act .compile).rig =
      (.error .notCompiled, (streamedLost.act .compile).graph,
        (streamedLost.act .compile).rig) := by
  have reachable : streamedLost.Reachable := ((Reachable.start {} [] {}).foldl _).act _
  have released : (Graph.release.run streamedLost.graph streamedLost.rig).1 = .ok () := by
    decide +kernel
  have failed : (Graph.compile.run streamedLost.graph streamedLost.rig).1 =
      .error (.device .deviceLost) := by
    rw [streamedLost_compile]
    decide +kernel
  obtain ⟨bare, uncompiled⟩ := compile_failure_leaves_nothing reachable released failed trivial
  refine ⟨reachable, released, failed, ?_, bare, uncompiled _ .start⟩
  have rig : (streamedLost.act .compile).rig =
      (Graph.compile.run streamedLost.graph streamedLost.rig).2.2 := rfl
  rw [rig, streamedLost_compile]
  decide +kernel

end Session

end RenderGraph
