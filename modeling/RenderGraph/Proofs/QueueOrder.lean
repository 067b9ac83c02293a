import Mathlib
import RenderGraph.Proofs.Compiled
import RenderGraph.Proofs.ScheduleOrder

/-! Order between the queues of a compiled graph. Passes on different queues that share a resource
are ordered whenever one of them, or a pass between them, leaves new contents in it. -/

namespace RenderGraph

namespace Declaration

/-- The passes that culling leaves. -/
def surviving (d : Declaration) : List (PassId × Pass) := d.survivors d.cull.survival

end Declaration

theorem Graph.CompiledTo.live_eq {g : Graph} {c : Compilation} (compiled : g.CompiledTo c) :
    (g.brief g.config.mergesReads).live = g.declaration.surviving := by
  simp only [Brief.live, Graph.brief, Declaration.surviving, compiled.survival]

/-- The last batch of a schedule, if it brings resources back into their states. -/
def Schedule.RestoresAt (s : Schedule) (n : Nat) (list : ListId) (batch : List Barrier) : Prop :=
  s.events[n]? = some (.barriers list batch) ∧ s.events[n + 1]? = some (.submit list) ∧
    n + 2 = s.events.length

namespace Session

variable {s s' : Session}

theorem Does.follows (reachable : s.Reachable) (does : s.Does Graph.compile s') :
    ∃ (c : Compilation) (b : Brief) (log : List Entry), s'.graph.compilation = some c ∧
      b.live = s'.graph.declaration.surviving ∧
      log.map (fun e => (e.id, e.pass)) = b.live ∧ c.schedule.Follows log := by
  obtain ⟨c, made, compiled, _, declaration, _⟩ := does.compiled
  have closed : s'.graph.declaration.Closed := declaration ▸ reachable.closed
  obtain ⟨log, same, follows⟩ := Brief.follows_of_schedule closed compiled.schedule
  exact ⟨c, s'.graph.brief s'.graph.config.mergesReads, log, compiled.compilation,
    compiled.live_eq, same, follows⟩

/-- Of two surviving passes on different queues that share a resource and do not both only read it,
the one declared first is ordered first. The batch that restores states comes after all surviving
passes on other queues that share one of its resources. -/
theorem conflicting_passes_ordered (reachable : s.Reachable) (does : s.Does Graph.compile s') :
    ∃ c, s'.graph.compilation = some c ∧
      (∀ p pass q other r, (p, pass) ∈ s'.graph.declaration.surviving →
        (q, other) ∈ s'.graph.declaration.surviving → p.index < q.index →
        pass.queue ≠ other.queue → pass.touches r = true → other.touches r = true →
        pass.outputsTo r = true ∨ other.outputsTo r = true →
        ∃ first second, c.schedule.RecordedInto p first ∧ c.schedule.RecordedInto q second ∧
          c.schedule.listQueue? first = some pass.queue ∧
          c.schedule.listQueue? second = some other.queue ∧ c.schedule.Orders first second) ∧
      ∀ n list batch t p pass, c.schedule.RestoresAt n list batch → .transition t ∈ batch →
        (p, pass) ∈ s'.graph.declaration.surviving → pass.touches t.resource = true →
        c.schedule.listQueue? list ≠ some pass.queue →
        ∃ first, c.schedule.RecordedInto p first ∧
          c.schedule.listQueue? first = some pass.queue ∧ c.schedule.Orders first list := by
  obtain ⟨c, b, log, compilation, live, same, follows⟩ := does.follows reachable
  have distinct := Brief.nodup_ids same
  refine ⟨c, compilation, ?_, ?_⟩
  · intro p pass q other r survives survives' before apart touches touches' outputs
    rw [← live] at survives survives'
    obtain ⟨j, e, held, rfl, rfl⟩ := Brief.exists_entry same survives
    obtain ⟨k, f, held', rfl, rfl⟩ := Brief.exists_entry same survives'
    have member := List.mem_of_getElem? held
    have member' := List.mem_of_getElem? held'
    have lower := Brief.lt_of_index_lt same held held' before
    have output : OutputBetween log r j k := by
      rcases outputs with first | second
      · exact ⟨j, e, Nat.le_refl j, Nat.le_of_lt lower, held, first⟩
      · exact ⟨k, f, Nat.le_of_lt lower, Nat.le_refl k, held', second⟩
    have reaches := follows.sequenced r j k e f lower held held' apart touches touches' output
    exact ⟨e.list, f.list, follows.recordedInto distinct member,
      follows.recordedInto distinct member', follows.queues e member, follows.queues f member',
      follows.orders (follows.queues e member) (follows.queues f member') reaches⟩
  · intro n list batch t p pass restores transition survives touches apart
    rw [← live] at survives
    obtain ⟨j, e, held, rfl, rfl⟩ := Brief.exists_entry same survives
    have member := List.mem_of_getElem? held
    obtain ⟨barriers, submit, _⟩ := restores
    -- A batch after which its list is handed over belongs to no pass.
    rcases follows.batched n list batch barriers with placed | ⟨queue, opened, _, _, waits⟩
    · obtain ⟨_, _, record, _⟩ := placed
      rw [submit] at record
      cases record
    · have other : e.pass.queue ≠ queue := by
        rintro rfl
        exact apart opened
      exact ⟨e.list, follows.recordedInto distinct member, follows.queues e member,
        follows.orders (follows.queues e member) opened
          (waits t transition e member other touches)⟩

/-! An image that is blurred on the compute queue, drawn on the graphics queue and brought back
into its first state there. -/

def blurred : Session := [
  .manage "image" { extent := .texture 8 8, format := .rgba8Unorm } .shaderRead,
  .declare "blur" .compute [.write ⟨0⟩ "image" .unorderedWrite []] none,
  .declare "draw" .graphics
    [.read ⟨0⟩ "image" .pixelShaderRead [], .sideEffects true] none].foldl act (start {} [] {})

theorem blurred_cull : blurred.graph.declaration.cull =
    ⟨{ passRefs := [1, 0], resourceRefs := [1], live := [true] }, []⟩ := by
  unfold blurred
  cbv

theorem blurred_compiles : blurred.Does Graph.compile (blurred.act .compile) := by
  apply does_after
  rw [Graph.run_compile_of_fresh (by decide +kernel) (by decide +kernel) blurred_cull]
  decide +kernel

def blurPass : Pass where
  name := "blur"
  queue := .compute
  writes := [{ name := "image", resource := ⟨0⟩, usage := .unorderedWrite }]

def drawPass : Pass where
  name := "draw"
  queue := .graphics
  reads := [{ name := "image", resource := ⟨0⟩, usage := .pixelShaderRead }]
  sideEffects := true

theorem blurred_surviving : (blurred.act .compile).graph.declaration.surviving =
    [(⟨0⟩, blurPass), (⟨1⟩, drawPass)] := by
  obtain ⟨_, _, _, _, declaration, _⟩ := blurred_compiles.compiled
  rw [declaration, Declaration.surviving, blurred_cull]
  decide +kernel

def blurredRestore : Transition where
  resource := ⟨0⟩
  before := .pixelShaderResource
  after := .shaderResource

def blurredSchedule : Schedule where
  events := [
    .openList .compute ⟨0⟩,
    .barriers ⟨0⟩ [.transition ⟨⟨0⟩, .shaderResource, .unorderedAccess, {}⟩],
    .record ⟨0⟩ ⟨0⟩,
    .submit ⟨0⟩,
    .openList .graphics ⟨1⟩,
    .sync .compute .graphics ⟨0⟩,
    .barriers ⟨1⟩ [.transition ⟨⟨0⟩, .unorderedAccess, .pixelShaderResource, {}⟩],
    .record ⟨1⟩ ⟨1⟩,
    .barriers ⟨1⟩ [.transition blurredRestore],
    .submit ⟨1⟩]
  lists := [.compute, .graphics]
  fences := [.compute]
  finalStates := [some .shaderResource]

theorem schedule_of_blurred {c : Compilation}
    (compilation : (blurred.act .compile).graph.compilation = some c) :
    c.schedule = blurredSchedule := by
  have made := blurred_compiles.schedule_eq blurred_cull compilation
  have expected : (Brief.mk blurred.graph.declaration
      { passRefs := [1, 0], resourceRefs := [1], live := [true] }
      blurred.graph.config.mergesReads).schedule = .ok blurredSchedule := by decide +kernel
  rw [expected] at made
  exact (Except.ok.inj made).symm

theorem blurred_image_ordered : blurred.Reachable ∧
    blurred.Does Graph.compile (blurred.act .compile) ∧
    ∃ c, (blurred.act .compile).graph.compilation = some c ∧
      (∃ first second, c.schedule.RecordedInto ⟨0⟩ first ∧ c.schedule.RecordedInto ⟨1⟩ second ∧
        c.schedule.Orders first second) ∧
      ∃ first, c.schedule.RecordedInto ⟨0⟩ first ∧ c.schedule.Orders first ⟨1⟩ := by
  have reachable : blurred.Reachable := (Reachable.start {} [] {}).foldl _
  obtain ⟨c, compilation, passes, restores⟩ :=
    conflicting_passes_ordered reachable blurred_compiles
  have blur : (⟨0⟩, blurPass) ∈ (blurred.act .compile).graph.declaration.surviving := by
    rw [blurred_surviving]
    exact List.mem_cons_self
  have draw : (⟨1⟩, drawPass) ∈ (blurred.act .compile).graph.declaration.surviving := by
    rw [blurred_surviving]
    exact List.mem_cons_of_mem _ List.mem_cons_self
  refine ⟨reachable, blurred_compiles, c, compilation, ?_, ?_⟩
  · obtain ⟨first, second, into, into', _, _, orders⟩ := passes ⟨0⟩ blurPass ⟨1⟩ drawPass ⟨0⟩
      blur draw (by decide) (by decide) (by decide) (by decide) (Or.inl (by decide))
    exact ⟨first, second, into, into', orders⟩
  · have restored : c.schedule.RestoresAt 8 ⟨1⟩ [.transition blurredRestore] := by
      rw [schedule_of_blurred compilation]
      exact ⟨rfl, rfl, rfl⟩
    have other : c.schedule.listQueue? ⟨1⟩ ≠ some blurPass.queue := by
      rw [schedule_of_blurred compilation]
      decide
    obtain ⟨first, into, _, orders⟩ := restores 8 ⟨1⟩ _ blurredRestore ⟨0⟩ blurPass restored
      List.mem_cons_self blur (by decide) other
    exact ⟨first, into, orders⟩

end Session

end RenderGraph
