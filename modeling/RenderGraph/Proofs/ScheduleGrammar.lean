import Mathlib
import RenderGraph.Proofs.DraftBlocks
import RenderGraph.Proofs.QueueOrder

/-! The grammar of the schedule of a compiled graph. Neighbouring blocks are on different queues,
the surviving passes are recorded in the order of declaration, and every sync is between two queues
of which the waiting one is the block's and the signalling one has an earlier block. -/

namespace RenderGraph

/-- The schedule consists of the blocks, in which the live passes are recorded. -/
structure Schedule.ConsistsOf (s : Schedule) (live : List (PassId × Pass)) (blocks : List Block) :
    Prop where
  nonempty : blocks ≠ []
  events : s.events = Block.layout blocks
  lists : s.lists = blocks.map Block.queue
  neighbours : s.lists.IsChain (· ≠ ·)
  admits : ∀ (i : Nat) block, blocks[i]? = some block → ∀ e ∈ block.body,
    Block.Admits s.lists s.fences live i block.queue e
  recorded : s.recordedPasses = live.map Prod.fst
  declared : s.recordedPasses.Pairwise fun p q => p.index < q.index
  fences : s.fences.Nodup

theorem Draft.Blocked.events_submitCurrent {d : Draft} {log : List Entry} {done : List Block}
    {last : Block} (blocked : d.Blocked log done last) :
    d.submitCurrent.events = Block.layout (done ++ [last]) := by
  unfold Draft.submitCurrent
  rw [blocked.current]
  simp [Draft.emit, blocked.events, Block.layout_concat, Block.events]

namespace Brief

variable {b : Brief} {s : Schedule}

theorem consists_of_schedule (closed : b.declaration.Closed) (made : b.schedule = .ok s) :
    ∃ blocks, s.ConsistsOf b.live blocks := by
  have signed := signed_of_schedule made
  obtain ⟨d, drafted, rfl⟩ := exists_draft made
  obtain ⟨log, same, consistent, nonempty, blocks⟩ := Draft.consistent_draft_of_step
    (P := Draft.InBlocks) (Or.inl ⟨rfl, rfl, rfl⟩)
    (fun _ consistent blocks recorded => blocks.recordPass consistent recorded) closed drafted
  have follows := consistent.follows nonempty (d.restoration b)
  have recorded : (b.finish d).recordedPasses = b.live.map Prod.fst := by
    rw [← same, List.map_map]
    exact follows.recordedPasses
  rcases blocks.restoreAll consistent (d.restoration b) with ⟨_, none, _⟩ | ⟨done, last, blocked⟩
  · -- Every pass is recorded into some list.
    obtain ⟨e, member⟩ := List.exists_mem_of_ne_nil log nonempty
    have listed := follows.queues e member
    rw [Schedule.listQueue?] at listed
    simp [Draft.toSchedule, Draft.lists_submitCurrent, none] at listed
  have lists : (b.finish d).lists = (d.restoreAll (d.restoration b)).lists :=
    Draft.lists_submitCurrent _
  have fences : (b.finish d).fences = (d.restoreAll (d.restoration b)).fences := by
    simp only [finish, Draft.toSchedule, Draft.submitCurrent]
    split <;> rfl
  refine ⟨done ++ [last], by simp, blocked.events_submitCurrent, lists.trans blocked.lists,
    ?_, ?_, recorded, ?_, signed.once⟩
  · rw [lists]
    exact blocked.neighbours
  · rw [lists, fences, ← same]
    exact blocked.admits
  · rw [recorded, List.pairwise_map]
    exact b.declaration.pairwise_survivors b.survival

end Brief

namespace Session

variable {s s' : Session}

/-- The schedule of a compiled graph consists of blocks, in which the passes that culling leaves are
recorded. -/
theorem schedule_grammar (reachable : s.Reachable) (does : s.Does Graph.compile s') :
    ∃ c blocks, s'.graph.compilation = some c ∧
      c.schedule.ConsistsOf s'.graph.declaration.surviving blocks := by
  obtain ⟨c, made, compiled, _, declaration, _⟩ := does.compiled
  have closed : s'.graph.declaration.Closed := declaration ▸ reachable.closed
  obtain ⟨blocks, consists⟩ := Brief.consists_of_schedule closed compiled.schedule
  refine ⟨c, blocks, compiled.compilation, ?_⟩
  simpa only [Brief.live, Graph.brief, Declaration.surviving, compiled.survival] using consists

theorem blurred_grammar : blurred.Reachable ∧ blurred.Does Graph.compile (blurred.act .compile) ∧
    ∃ c blocks, (blurred.act .compile).graph.compilation = some c ∧
      c.schedule.ConsistsOf [(⟨0⟩, blurPass), (⟨1⟩, drawPass)] blocks := by
  have reachable : blurred.Reachable := (Reachable.start {} [] {}).foldl _
  obtain ⟨c, blocks, compilation, consists⟩ := schedule_grammar reachable blurred_compiles
  rw [blurred_surviving] at consists
  exact ⟨reachable, blurred_compiles, c, blocks, compilation, consists⟩

end Session

end RenderGraph
