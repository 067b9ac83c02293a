import RenderGraph.Proofs.CompileCalls
import RenderGraph.Proofs.Compiled
import RenderGraph.Proofs.QueueOrder
import RenderGraph.Proofs.ScheduleMade
import RenderGraph.Proofs.TablesInRange

/-! What compiling comes to. Apart from calls that fail, it depends on nothing but whether a pass
survives. -/

namespace RenderGraph

namespace Graph

def culledBrief (g : Graph) : Brief :=
  ⟨g.declaration, g.declaration.cull.survival, g.config.mergesReads⟩

theorem live_culledBrief (g : Graph) : g.culledBrief.live = g.declaration.surviving := rfl

theorem succeeds_cull : cull.Succeeds := fun _ _ => ⟨_, rfl⟩

theorem fares_compile (g : Graph) (rig : Rig) : compile.Fares (fun failure =>
    g.culledBrief.Fails failure ∨ ∃ c, g.Asks c ∧ rig.Denies c failure) g rig := by
  refine ((fares_release g rig).mono fun _ => Or.inr).seq makes_release
    fun _ released rigReleased releasing led => ?_
  refine (succeeds_cull.fares released rigReleased).seq makes_cull
    fun _ culled rigCulled culling on => ?_
  have keepsReleasing : release.Keeps fun g => (g.declaration, g.config) :=
    keeps_release fun _ _ _ => rfl
  have keepsCulling : cull.Keeps fun g => (g.declaration, g.config) :=
    keeps_cull fun _ _ _ => rfl
  obtain ⟨declaration, config⟩ := Prod.mk.inj
    ((keepsCulling.of_run culling).trans (keepsReleasing.of_run releasing))
  have survival := survival_of_cull culling
  have same : culled.brief culled.config.mergesReads = g.culledBrief := by
    rw [brief, culledBrief, survival, declaration, config]
  refine (fares_build culled rigCulled).mono fun failure reason => ?_
  rcases reason with unmade | ⟨o, member, denied⟩
  · exact Or.inl (same ▸ unmade)
  · rw [survival, declaration, config] at member
    exact Or.inr ⟨_, .create member,
      led.denies_createResource (on.denies_createResource denied)⟩

end Graph

namespace Session

variable {s : Session}

theorem compile_outcome (reachable : s.Reachable) :
    (Graph.compile.run s.graph s.rig).1 = .ok () ∧ s.graph.declaration.surviving ≠ [] ∨
      (Graph.compile.run s.graph s.rig).1 = .error .allPassesCulled ∧
        s.graph.declaration.surviving = [] ∨
      ∃ failure, (Graph.compile.run s.graph s.rig).1 = .error failure ∧
        (s.rig.Refused (s.act .compile).rig failure ∨
          ∃ c, s.graph.Asks c ∧ s.rig.Denies c failure) := by
  rcases ran : Graph.compile.run s.graph s.rig with ⟨failure | ⟨⟩, g, rig⟩
  · have left : (s.act .compile).rig = rig := congrArg (·.2.2) ran
    rcases Graph.fares_compile s.graph s.rig failure g rig ran with
      (⟨reason, unmade, rfl⟩ | denied) | refused
    · by_cases none : s.graph.culledBrief.live = []
      · rw [Brief.schedule_of_none none] at unmade
        cases unmade
        exact Or.inr (Or.inl ⟨rfl, none⟩)
      · obtain ⟨schedule, made⟩ :=
          Brief.schedule_of_live reachable.closed reachable.ordered rfl none
        cases made.symm.trans unmade
    · exact Or.inr (Or.inr ⟨failure, rfl, Or.inr denied⟩)
    · exact Or.inr (Or.inr ⟨failure, rfl, Or.inl (left ▸ refused)⟩)
  · refine Or.inl ⟨rfl, fun none => ?_⟩
    have does : s.Does Graph.compile (s.after Graph.compile) := does_after (by rw [ran]; rfl)
    obtain ⟨c, _, compiled, _⟩ := does.compiled
    have made : s.graph.culledBrief.schedule = .ok c.schedule :=
      does.schedule_eq rfl compiled.compilation
    have unmade := Brief.schedule_of_none (s.graph.live_culledBrief.trans none)
    cases made.symm.trans unmade

/-- Compiling never meets a transient resource that is not created yet. It goes through exactly if a
pass survives, and reports that all passes are culled if none does, unless a call is made to fail or
the device denies one as things stand before compiling. Nothing is looked up outside its table. -/
theorem compile_result (reachable : s.Reachable) :
    (∀ pass resource,
      (Graph.compile.run s.graph s.rig).1 ≠ .error (.readBeforeCreate pass resource)) ∧
    ((Graph.compile.run s.graph s.rig).1 = .ok () ∧ s.graph.declaration.surviving ≠ [] ∨
      (Graph.compile.run s.graph s.rig).1 = .error .allPassesCulled ∧
        s.graph.declaration.surviving = [] ∨
      ∃ failure, (Graph.compile.run s.graph s.rig).1 = .error failure ∧
        (s.rig.Refused (s.act .compile).rig failure ∨
          ∃ c, s.graph.Asks c ∧ s.rig.Denies c failure)) ∧
    s.graph.culledBrief.InRange := by
  have outcome := compile_outcome reachable
  refine ⟨fun pass resource premature => ?_, outcome, Brief.inRange reachable.closed rfl⟩
  rw [premature] at outcome
  rcases outcome with ⟨ok, _⟩ | ⟨culled, _⟩ | ⟨failure, failed, refused | ⟨c, _, denied⟩⟩
  · cases ok
  · cases culled
  · cases failed
    exact refused.isCall
  · cases failed
    exact denied.isCall

/-! A pass that fills an image nobody reads, beside the blurred image from before. -/

def orphaned : Session := [
  .declare "fill" .graphics
    [.create { extent := .texture 8 8, format := .rgba8Unorm } "image" .colorTarget []]
    none].foldl act (start {} [] {})

theorem orphaned_cull : orphaned.graph.declaration.cull =
    ⟨{ passRefs := [0], resourceRefs := [0], live := [false] }, [.culled ⟨0⟩]⟩ := by
  unfold orphaned
  cbv

theorem survivors_of_results : blurred.Reachable ∧ orphaned.Reachable ∧
    (Graph.compile.run blurred.graph blurred.rig).1 = .ok () ∧
    blurred.graph.declaration.surviving ≠ [] ∧
    (Graph.compile.run orphaned.graph orphaned.rig).1 = .error .allPassesCulled ∧
    orphaned.graph.declaration.surviving = [] := by
  have reachable : blurred.Reachable := (Reachable.start {} [] {}).foldl _
  have reachable' : orphaned.Reachable := (Reachable.start {} [] {}).foldl _
  have compiles : (Graph.compile.run blurred.graph blurred.rig).1 = .ok () :=
    congrArg (·.1) blurred_compiles
  have culled : (Graph.compile.run orphaned.graph orphaned.rig).1 = .error .allPassesCulled := by
    rw [Graph.run_compile_of_fresh (by decide +kernel) (by decide +kernel) orphaned_cull]
    decide +kernel
  obtain ⟨_, outcome, _⟩ := compile_result reachable
  obtain ⟨_, outcome', _⟩ := compile_result reachable'
  rw [compiles] at outcome
  rw [culled] at outcome'
  refine ⟨reachable, reachable', compiles, ?_, culled, ?_⟩
  · rcases outcome with ⟨_, some⟩ | ⟨failed, _⟩ | ⟨_, failed, _⟩
    · exact some
    · cases failed
    · cases failed
  · rcases outcome' with ⟨ok, _⟩ | ⟨_, none⟩ | ⟨failure, failed, refused | ⟨c, _, denied⟩⟩
    · cases ok
    · exact none
    · cases failed
      exact absurd refused.isCall id
    · cases failed
      exact absurd denied.isCall id

end Session

end RenderGraph
