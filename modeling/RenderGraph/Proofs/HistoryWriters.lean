import RenderGraph.Proofs.ScheduleGrammar
import RenderGraph.Proofs.SurvivalClosure

/-! Writers of what lasts from frame to frame. What a surviving pass reads may come from a pass that
is declared after it and ran in the frame before. Counting references keeps such a writer for every
reader that it keeps itself. Reviving does not look at later passes, so that a reader that is
brought back does not bring them back. -/

namespace RenderGraph

namespace Declaration

variable {d : Declaration} {p q : PassId} {reader writer : Pass} {r : ResourceId}

theorem contributes_of_reads (found : d.pass? q = some reader) (reads : reader.readsFrom r = true)
    (held : d.pass? p = some writer) (outputs : writer.outputsTo r = true) : d.Contributes p q :=
  ⟨r, writer, reader, held, found, Or.inl ⟨outputs, reads⟩⟩

theorem writer_survives_of_le (survives : d.Survives q) (found : d.pass? q = some reader)
    (reads : reader.readsFrom r = true) (held : d.pass? p = some writer)
    (outputs : writer.outputsTo r = true) (before : p.index ≤ q.index) : d.Survives p := by
  rcases Nat.lt_or_eq_of_le before with earlier | same
  · exact survives.of_contributes (contributes_of_reads found reads held outputs) earlier
  · rwa [show p = q from congrArg PassId.mk same]

theorem writer_survives_of_sustained (closed : d.Closed) (sustained : d.Sustained q)
    (found : d.pass? q = some reader) (reads : reader.onlyReads r = true)
    (held : d.pass? p = some writer) (outputs : writer.outputsTo r = true) : d.Survives p := by
  have feeds : d.Feeds p q := ⟨r, writer, reader, held, found, outputs, reads⟩
  exact (sustained.of_feeds feeds).survives closed

end Declaration

namespace Session

variable {s s' : Session}

theorem Does.mem_recordedPasses (does : s.Does Graph.compile s') (reachable : s.Reachable)
    {c : Compilation} (held : s'.graph.compilation = some c) (p : PassId) :
    p ∈ c.schedule.recordedPasses ↔ s'.graph.declaration.Survives p := by
  obtain ⟨c', blocks, held', consists⟩ := schedule_grammar reachable does
  cases held.symm.trans held'
  rw [consists.recorded, List.mem_map]
  constructor
  · rintro ⟨⟨_, pass⟩, member, rfl⟩
    exact ⟨pass, member⟩
  · rintro ⟨pass, member⟩
    exact ⟨(p, pass), member, rfl⟩

/-- Of the passes that output to what a recorded pass reads, those declared no later are recorded,
and all of them are if the reader is kept without being brought back and does not output to it
itself. A later writer of what a revived pass reads is recorded only for other reasons: its side
effects, a pass that it feeds and that is kept without being brought back, or a recorded pass after
it that it contributes to. -/
theorem recorded_writers (reachable : s.Reachable) (does : s.Does Graph.compile s') :
    ∃ c, s'.graph.compilation = some c ∧
      let d := s'.graph.declaration
      let recorded := c.schedule.recordedPasses
      ∀ q reader p writer r, q ∈ recorded → d.pass? q = some reader →
        reader.readsFrom r = true → d.pass? p = some writer → writer.outputsTo r = true →
        (p.index ≤ q.index ∨ d.Sustained q ∧ reader.onlyReads r = true → p ∈ recorded) ∧
        (p ∈ recorded ↔ d.hasSideEffects p = true ∨ (∃ x, d.Sustained x ∧ d.Feeds p x) ∨
          ∃ x ∈ recorded, d.Contributes p x ∧ p.index < x.index) := by
  obtain ⟨c, _, compiled, _, declaration, _⟩ := does.compiled
  have closed : s'.graph.declaration.Closed := declaration ▸ reachable.closed
  refine ⟨c, compiled.compilation, ?_⟩
  intro d recorded q reader p writer r kept found reads held outputs
  have mem_recorded : ∀ x, x ∈ recorded ↔ d.Survives x :=
    does.mem_recordedPasses reachable compiled.compilation
  constructor
  · rw [mem_recorded]
    rintro (before | ⟨sustained, onlyReads⟩)
    · have survives := (mem_recorded q).mp kept
      exact Declaration.writer_survives_of_le survives found reads held outputs before
    · exact Declaration.writer_survives_of_sustained closed sustained found onlyReads held outputs
  · simp only [mem_recorded]
    exact Declaration.survives_iff closed

/-! An image that is made from a picture of the last frame. The pass that makes it is brought back
for the pass that presents it; the pass that is to leave the picture for the next frame is not. -/

def replayed : Session := [
  .manage "history" { extent := .texture 8 8, format := .rgba8Unorm } .colorTarget,
  .declare "blend" .graphics
    [.read ⟨0⟩ "history" .pixelShaderRead [],
      .create { extent := .texture 8 8, format := .rgba8Unorm } "image" .colorTarget []] none,
  .declare "present" .graphics [.write ⟨1⟩ "image" .colorTarget [], .sideEffects true] none,
  .declare "keep" .graphics [.write ⟨0⟩ "history" .colorTarget []] none].foldl act (start {} [] {})

def replayedCull : CullResult :=
  ⟨{ passRefs := [1, 1, 0], resourceRefs := [0, 0], live := [true, true] },
    [.culled ⟨0⟩, .culled ⟨2⟩, .revived ⟨0⟩ ⟨1⟩]⟩

theorem replayed_cull : replayed.graph.declaration.cull = replayedCull := by
  unfold replayed replayedCull
  cbv

def replayedBuilt : Session := replayed.built replayedCull

theorem replayed_compiles : replayed.Does Graph.compile replayedBuilt :=
  does_compile_of_fresh (by decide +kernel) (by decide +kernel) replayed_cull (by decide +kernel)

theorem replayed_reachable : replayed.Reachable := (Reachable.start {} [] {}).foldl _

def blendPass : Pass where
  name := "blend"
  queue := .graphics
  reads := [{ name := "history", resource := ⟨0⟩, usage := .pixelShaderRead }]
  creates := [{ name := "image", resource := ⟨1⟩, usage := .colorTarget }]

def keepPass : Pass where
  name := "keep"
  queue := .graphics
  writes := [{ name := "history", resource := ⟨0⟩, usage := .colorTarget }]

theorem replayed_pass? :
    replayedBuilt.graph.declaration.pass? ⟨0⟩ = some blendPass ∧
      replayedBuilt.graph.declaration.pass? ⟨2⟩ = some keepPass := by
  decide +kernel

theorem replayed_survives (p : PassId) :
    replayedBuilt.graph.declaration.Survives p ↔ p = ⟨0⟩ ∨ p = ⟨1⟩ := by
  have survivors : replayedBuilt.graph.declaration.surviving.map Prod.fst = [⟨0⟩, ⟨1⟩] := by
    obtain ⟨_, _, _, _, declaration, _⟩ := replayed_compiles.compiled
    rw [declaration, Declaration.surviving, replayed_cull]
    decide +kernel
  calc replayedBuilt.graph.declaration.Survives p
      ↔ p ∈ replayedBuilt.graph.declaration.surviving.map Prod.fst := by
        simp [Declaration.Survives]
    _ ↔ p = ⟨0⟩ ∨ p = ⟨1⟩ := by
        rw [survivors, List.mem_cons, List.mem_singleton]

theorem replayed_recorded_writers : replayed.Reachable ∧
    replayed.Does Graph.compile replayedBuilt ∧
    ∃ c, replayedBuilt.graph.compilation = some c ∧
      ⟨0⟩ ∈ c.schedule.recordedPasses ∧ blendPass.readsFrom ⟨0⟩ = true ∧
      keepPass.outputsTo ⟨0⟩ = true ∧
      ¬ (replayedBuilt.graph.declaration.hasSideEffects ⟨2⟩ = true ∨
        (∃ x, replayedBuilt.graph.declaration.Sustained x ∧
          replayedBuilt.graph.declaration.Feeds ⟨2⟩ x) ∨
        ∃ x ∈ c.schedule.recordedPasses,
          replayedBuilt.graph.declaration.Contributes ⟨2⟩ x ∧ 2 < x.index) := by
  obtain ⟨c, held, recorded⟩ := recorded_writers replayed_reachable replayed_compiles
  have mem_recorded := replayed_compiles.mem_recordedPasses replayed_reachable held
  have blends : ⟨0⟩ ∈ c.schedule.recordedPasses :=
    (mem_recorded ⟨0⟩).mpr ((replayed_survives ⟨0⟩).mpr (Or.inl rfl))
  have gone : ⟨2⟩ ∉ c.schedule.recordedPasses := by
    rw [mem_recorded, replayed_survives]
    decide
  have why := (recorded ⟨0⟩ blendPass ⟨2⟩ keepPass ⟨0⟩ blends replayed_pass?.1 rfl
    replayed_pass?.2 rfl).2
  exact ⟨replayed_reachable, replayed_compiles, c, held, blends, rfl, rfl, why.not.mp gone⟩

/-- A managed resource has survivors read it although a writer of it does not survive. -/
theorem not_all_history_writers_survive :
    ¬ ∀ s s' : Session, s.Reachable → s.Does Graph.compile s' →
      ∀ q reader p writer r resource, s'.graph.declaration.Survives q →
        s'.graph.declaration.pass? q = some reader → reader.readsFrom r = true →
        s'.graph.declaration.pass? p = some writer → writer.writesTo r = true →
        s'.graph.declaration.resource? r = some resource → resource.origin = .managed →
        s'.graph.declaration.Survives p := by
  intro always
  have managed : (replayedBuilt.graph.declaration.resource? ⟨0⟩).map (·.origin) =
      some .managed := by decide +kernel
  obtain ⟨resource, declared, origin⟩ := Option.map_eq_some_iff.mp managed
  have kept := always replayed replayedBuilt replayed_reachable replayed_compiles ⟨0⟩ blendPass ⟨2⟩
    keepPass ⟨0⟩ resource ((replayed_survives ⟨0⟩).mpr (Or.inl rfl)) replayed_pass?.1 rfl
    replayed_pass?.2 rfl declared origin
  rw [replayed_survives] at kept
  revert kept
  decide

end Session

end RenderGraph
