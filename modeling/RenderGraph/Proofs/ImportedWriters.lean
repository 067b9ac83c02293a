import RenderGraph.Proofs.HistoryWriters
import RenderGraph.Proofs.KeptScene
import RenderGraph.Proofs.StatedCalls

/-! Writers of imported resources. Writing an imported resource gives a pass side effects, so that
it is never culled. But the mark is one that later calls can take away again: then the pass is
recorded only for the passes that it contributes to. -/

namespace RenderGraph

namespace Session

variable {s t u : Session} {p : PassId} {pass : Pass}

/-- One session comes of the other, and no reset goes through on the way. -/
inductive WithoutReset (s : Session) : Session → Prop
  | start : s.WithoutReset s
  | act {t : Session} (before : s.WithoutReset t) (a : Action)
    (fails : a = .reset → ∃ failure, (Graph.reset.run t.graph t.rig).1 = .error failure) :
    s.WithoutReset (t.act a)

theorem WithoutReset.reachable (without : s.WithoutReset t) (reachable : s.Reachable) :
    t.Reachable := by
  induction without with
  | start => exact reachable
  | act _ a _ ih => exact ih.act a

theorem declaration_of_failed_reset
    (failed : ∃ failure, (Graph.reset.run s.graph s.rig).1 = .error failure) :
    (s.act .reset).graph.declaration = s.graph.declaration := by
  obtain ⟨failure, failed⟩ := failed
  rcases ran : Graph.reset.run s.graph s.rig with ⟨result, g, rig⟩
  rw [ran] at failed
  subst failed
  have left : (s.act .reset).graph = g := congrArg (·.2.1) ran
  rw [left]
  rcases Op.run_bind_error.mp ran with failed | ⟨_, _, _, _, rest⟩
  · rw [(Graph.release_error failed).1]
  · cases rest

theorem passes_act (s : Session) (a : Action)
    (fails : a = .reset → ∃ failure, (Graph.reset.run s.graph s.rig).1 = .error failure) :
    s.graph.declaration.passes <+: (s.act a).graph.declaration.passes := by
  have same {d : Declaration} (kept : d.passes = s.graph.declaration.passes) :
      s.graph.declaration.passes <+: d.passes := kept ▸ List.prefix_refl _
  have after (op : Op Graph Unit) (keeps : op.Keeps (·.declaration)) :
      s.graph.declaration.passes <+: (s.after op).graph.declaration.passes :=
    same (congrArg Declaration.passes (keeps s.graph s.rig))
  cases a with
  | importResource | manage | setFrameIndex | useData | clearData | plan | refuseResources =>
    exact same rfl
  | declare name queue calls recorder =>
    obtain ⟨pass, added, _⟩ := s.graph.declaration.passes_declare name queue calls recorder
    exact ⟨[pass], added.symm⟩
  | update r native => exact same (s.rebound_stays r _).1.passes
  | updateView r kind view => exact same (s.rebound_stays r _).1.passes
  | setFrameCount n => exact after _ (Graph.keeps_setFrameCount n fun _ _ _ _ _ _ => rfl)
  | compile => exact after _ (Graph.keeps_compile fun _ _ _ _ _ _ => rfl)
  | execute => exact after Graph.execute (Graph.keeps_execute fun _ _ => rfl)
  | drain => exact after Graph.drain Graph.keeps_drain
  | reset => exact same (congrArg Declaration.passes (declaration_of_failed_reset (fails rfl)))

theorem WithoutReset.passes (without : s.WithoutReset t) :
    s.graph.declaration.passes <+: t.graph.declaration.passes := by
  induction without with
  | start => exact List.prefix_refl _
  | act _ a fails ih => exact ih.trans (passes_act _ a fails)

theorem WithoutReset.hasSideEffects {name : String} {queue : Queue} {calls : List PassCall}
    {recorder : Option (List ResourceId)}
    (later : (s.act (.declare name queue calls recorder)).WithoutReset t) :
    t.graph.declaration.hasSideEffects ⟨s.graph.declaration.passes.length⟩ =
      s.graph.declaration.marked (calls.take
        (s.graph.declaration.declare name queue calls recorder).1.replies.length) := by
  obtain ⟨pass, added, effects⟩ := s.graph.declaration.passes_declare name queue calls recorder
  obtain ⟨more, kept⟩ := later.passes
  have passes : t.graph.declaration.passes =
      s.graph.declaration.passes ++ [pass] ++ more := by
    rw [← kept, ← added]
    rfl
  have held : t.graph.declaration.pass? ⟨s.graph.declaration.passes.length⟩ = some pass := by
    simp [Declaration.pass?, passes]
  rw [Declaration.hasSideEffects, held, Option.any_some, effects]

/-- A declared pass is recorded by every compilation that goes through before a reset if its calls
leave it with side effects, and otherwise only if it feeds a pass that is kept without being brought
back or contributes to a recorded pass after it. After a write to an imported resource it has side
effects as long as no call takes them away again. -/
theorem recorded_iff_marked (reachable : s.Reachable) {name : String} {queue : Queue}
    {calls : List PassCall} {recorder : Option (List ResourceId)}
    (later : (s.act (.declare name queue calls recorder)).WithoutReset t)
    (does : t.Does Graph.compile u) :
    ∃ c, u.graph.compilation = some c ∧
      let d := s.graph.declaration
      let p : PassId := ⟨d.passes.length⟩
      let accepted := calls.take (d.declare name queue calls recorder).1.replies.length
      let recorded := c.schedule.recordedPasses
      (p ∈ recorded ↔ d.marked accepted = true ∨
        (∃ x, u.graph.declaration.Sustained x ∧ u.graph.declaration.Feeds p x) ∨
        ∃ x ∈ recorded, u.graph.declaration.Contributes p x ∧ p.index < x.index) ∧
      ∀ before r label usage tweaks after,
        accepted = before ++ .write r label usage tweaks :: after →
        d.importsResource r = true → .sideEffects false ∉ after → p ∈ recorded := by
  have reachable' : t.Reachable := later.reachable (reachable.act _)
  obtain ⟨c, _, compiled, _, declaration, _⟩ := does.compiled
  have closed : u.graph.declaration.Closed := declaration ▸ reachable'.closed
  have marked := later.hasSideEffects
  rw [← declaration] at marked
  refine ⟨c, compiled.compilation, ?_⟩
  intro d p accepted recorded
  have mem_recorded : ∀ x, x ∈ recorded ↔ u.graph.declaration.Survives x :=
    does.mem_recordedPasses reachable' compiled.compilation
  have why : p ∈ recorded ↔ d.marked accepted = true ∨
      (∃ x, u.graph.declaration.Sustained x ∧ u.graph.declaration.Feeds p x) ∨
      ∃ x ∈ recorded, u.graph.declaration.Contributes p x ∧ p.index < x.index := by
    simp only [mem_recorded]
    rw [← marked]
    exact Declaration.survives_iff closed
  refine ⟨why, fun before r label usage tweaks after split imported kept => why.mpr (Or.inl ?_)⟩
  refine Declaration.marked_of_marking split ?_ kept
  rw [Declaration.marking, if_pos imported]

/-! A picture that is written to an imported image by a pass which is then declared to have no side
effects. -/

def offered : Session := [
  .importResource "swapchain" { extent := .texture 8 8, format := .rgba8Unorm } .present none
    ⟨7⟩].foldl act (start {} [] {})

def presentCalls : List PassCall :=
  [.write ⟨0⟩ "swapchain" .colorTarget [], .sideEffects false]

def withdrawn : Session := [
  .declare "present" .graphics presentCalls none,
  .declare "overlay" .graphics [.sideEffects true] none].foldl act offered

def withdrawnCull : CullResult :=
  ⟨{ passRefs := [0, 0], resourceRefs := [0], live := [false] }, [.culled ⟨0⟩]⟩

theorem withdrawn_cull : withdrawn.graph.declaration.cull = withdrawnCull := by
  unfold withdrawn offered presentCalls withdrawnCull
  cbv

def withdrawnBuilt : Session := withdrawn.built withdrawnCull

theorem withdrawn_compiles : withdrawn.Does Graph.compile withdrawnBuilt :=
  does_compile_of_fresh (by decide +kernel) (by decide +kernel) withdrawn_cull (by decide +kernel)

theorem offered_reachable : offered.Reachable := (Reachable.start {} [] {}).foldl _

theorem withdrawn_later :
    (offered.act (.declare "present" .graphics presentCalls none)).WithoutReset withdrawn :=
  .act .start (.declare "overlay" .graphics [.sideEffects true] none) nofun

theorem withdrawn_survives (p : PassId) :
    withdrawnBuilt.graph.declaration.Survives p ↔ p = ⟨1⟩ := by
  have survivors : withdrawnBuilt.graph.declaration.surviving.map Prod.fst = [⟨1⟩] := by
    obtain ⟨_, _, _, _, declaration, _⟩ := withdrawn_compiles.compiled
    rw [declaration, Declaration.surviving, withdrawn_cull]
    decide +kernel
  calc withdrawnBuilt.graph.declaration.Survives p
      ↔ p ∈ withdrawnBuilt.graph.declaration.surviving.map Prod.fst := by
        simp [Declaration.Survives]
    _ ↔ p = ⟨1⟩ := by
        rw [survivors, List.mem_singleton]

theorem withdrawn_recorded_iff : offered.Reachable ∧
    (offered.act (.declare "present" .graphics presentCalls none)).WithoutReset withdrawn ∧
    withdrawn.Does Graph.compile withdrawnBuilt ∧
    offered.graph.declaration.importsResource ⟨0⟩ = true ∧
    ∃ c, withdrawnBuilt.graph.compilation = some c ∧ ⟨0⟩ ∉ c.schedule.recordedPasses ∧
      offered.graph.declaration.marked presentCalls = false := by
  obtain ⟨c, held, why, _⟩ :=
    recorded_iff_marked offered_reachable withdrawn_later withdrawn_compiles
  have gone : ⟨0⟩ ∉ c.schedule.recordedPasses := by
    rw [withdrawn_compiles.mem_recordedPasses (withdrawn_later.reachable (offered_reachable.act _))
      held, withdrawn_survives]
    decide
  have accepted : presentCalls.take (offered.graph.declaration.declare "present" .graphics
      presentCalls none).1.replies.length = presentCalls := by decide +kernel
  have first : offered.graph.declaration.passes.length = 0 := by decide +kernel
  rw [first, accepted] at why
  refine ⟨offered_reachable, withdrawn_later, withdrawn_compiles, by decide +kernel, c, held, gone,
    ?_⟩
  exact Bool.eq_false_iff.mpr fun marked => gone (why.mpr (Or.inl marked))

/-- A pass that writes an imported resource is culled if it is declared to have no side effects
afterwards. -/
theorem not_all_imported_writers_survive :
    ¬ ∀ s s' : Session, s.Reachable → s.Does Graph.compile s' →
      ∀ p writer r resource, s'.graph.declaration.pass? p = some writer →
        writer.writesTo r = true → s'.graph.declaration.resource? r = some resource →
        resource.origin.isImported = true → s'.graph.declaration.Survives p := by
  intro always
  have writes : (withdrawnBuilt.graph.declaration.pass? ⟨0⟩).map (·.writesTo ⟨0⟩) = some true := by
    decide +kernel
  have imports : (withdrawnBuilt.graph.declaration.resource? ⟨0⟩).map (·.origin.isImported) =
      some true := by decide +kernel
  obtain ⟨writer, held, writes⟩ := Option.map_eq_some_iff.mp writes
  obtain ⟨resource, declared, imported⟩ := Option.map_eq_some_iff.mp imports
  have kept := always withdrawn withdrawnBuilt
    (withdrawn_later.reachable (offered_reachable.act _)) withdrawn_compiles ⟨0⟩ writer ⟨0⟩ resource
    held writes declared imported
  rw [withdrawn_survives] at kept
  revert kept
  decide

end Session

end RenderGraph
