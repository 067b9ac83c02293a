import RenderGraph.Proofs.DraftInduction
import RenderGraph.Proofs.ScheduleOrder

/-! The fences of a schedule. Each of them belongs to one queue, which signals it at every sync that
uses it, and no queue has two. -/

namespace RenderGraph

structure Schedule.Signed (s : Schedule) : Prop where
  owner : ∀ {signal wait fence}, .sync signal wait fence ∈ s.events →
    s.fences[fence.index]? = some signal
  once : s.fences.Nodup

theorem Event.syncFence?_of_not_isPlain {e : Event} (filling : ¬ e.isPlain = true) :
    e.syncFence? = none := by
  cases e with
  | barriers | record => rfl
  | openList | submit | sync => exact absurd rfl filling

namespace Draft

variable {d d' : Draft}

def Signed (d : Draft) : Prop := d.toSchedule.Signed

theorem signed_start (tracks : List Track) : ({ tracks } : Draft).Signed where
  owner member := by cases member
  once := List.nodup_nil

theorem Signed.extend (signed : d.Signed) (fences : d'.fences = d.fences)
    (events : ∀ e ∈ d'.events, e ∈ d.events ∨ e.syncFence? = none) : d'.Signed where
  owner := by
    intro signal wait fence member
    rcases events _ member with old | quiet
    · exact (congrArg (·[fence.index]?) fences).trans (signed.owner old)
    · cases quiet
  once := (congrArg List.Nodup fences).mpr signed.once

theorem Signed.emit (signed : d.Signed) {e : Event} (quiet : e.syncFence? = none) :
    (d.emit e).Signed := by
  refine signed.extend (show (d.emit e).fences = d.fences from rfl) ?_
  intro e' member
  rcases List.mem_append.mp member with old | new
  · exact Or.inl old
  · exact Or.inr (List.mem_singleton.mp new ▸ quiet)

theorem Signed.enter (signed : d.Signed) (queue : Queue) : (d.enter queue).2.Signed := by
  have opened (d : Draft) (signed : d.Signed) (queue : Queue) :
      ({ d with lists := d.lists ++ [queue], current := some (queue, ⟨d.lists.length⟩) }.emit
        (.openList queue ⟨d.lists.length⟩)).Signed :=
    Signed.emit (d := { d with
      lists := d.lists ++ [queue], current := some (queue, ⟨d.lists.length⟩) })
      (signed.extend rfl fun _ member => Or.inl member) rfl
  unfold Draft.enter
  dsimp only
  split
  · split
    · exact signed
    · exact opened _ (signed.emit rfl) queue
  · exact opened d signed queue

theorem fences_fenceFor (d : Draft) (queue : Queue) :
    d.fences <+: (d.fenceFor queue).2.fences ∧
      (d.fenceFor queue).2.fences[(d.fenceFor queue).1.index]? = some queue ∧
      (d.fences.Nodup → (d.fenceFor queue).2.fences.Nodup) := by
  unfold fenceFor
  split
  · rename_i i found
    obtain ⟨inside, same, _⟩ := List.idxOf?_eq_some_iff.mp found
    refine ⟨List.prefix_refl _, ?_, id⟩
    rw [List.getElem?_eq_getElem inside, same]
  · rename_i missing
    refine ⟨List.prefix_append _ _, List.getElem?_concat_length, ?_⟩
    intro once
    have fresh : queue ∉ d.fences := List.idxOf?_eq_none_iff.mp missing
    exact List.nodup_append.mpr ⟨once, List.nodup_singleton queue, by
      rintro other member _ new rfl
      exact fresh (List.mem_singleton.mp new ▸ member)⟩

theorem Signed.sync (signed : d.Signed) (source waiting : Queue) :
    (d.sync source waiting).Signed := by
  rcases d.fences_fenceFor source with ⟨longer, own, once⟩
  have events : (d.sync source waiting).events =
      d.events ++ [.sync source waiting (d.fenceFor source).1] :=
    congrArg (· ++ _) (keeps_fenceFor Draft.events (fun _ _ => rfl) d source)
  constructor
  · intro signal wait fence member
    have present : .sync signal wait fence ∈ (d.sync source waiting).events := member
    rw [events] at present
    rcases List.mem_append.mp present with old | new
    · obtain ⟨more, equal⟩ := longer
      have held : d.fences[fence.index]? = some signal := signed.owner old
      have kept : (d.fences ++ more)[fence.index]? = some signal := by
        rw [List.getElem?_append_left (List.getElem?_eq_some_iff.mp held).1, held]
      exact (congrArg (·[fence.index]?) equal.symm).trans kept
    · cases List.mem_singleton.mp new
      exact own
  · exact once signed.once

theorem stable_signed : Stable Signed where
  start := signed_start
  enter queue signed := signed.enter queue
  sync source waiting signed := signed.sync source waiting
  fill signed fills := signed.extend fills.fences fun e member => by
    by_cases plain : e.isPlain = true
    · exact Or.inl (fills.mem_of_plain plain member)
    · exact Or.inr (Event.syncFence?_of_not_isPlain plain)
  submit signed := by
    unfold Draft.submitCurrent
    split
    · exact signed.emit rfl
    · exact signed

end Draft

theorem Brief.signed_of_schedule {b : Brief} {s : Schedule} (made : b.schedule = .ok s) :
    s.Signed := by
  obtain ⟨d, signed, rfl⟩ := Draft.stable_signed.schedule made
  exact signed

end RenderGraph
