import RenderGraph.Proofs.DraftInduction

/-! The life of a list in a frame. A schedule opens a list under a number that no list had before,
so that no list is opened again once it is submitted. -/

namespace RenderGraph

def Event.Apart (e f : Event) : Prop := ∀ list, e = .submit list → f.opened? ≠ some list

theorem Event.apart_of_opens_none {e f : Event} (none : f.opened? = none) : e.Apart f := by
  intro list _ opens
  rw [none] at opens
  cases opens

namespace Draft

variable {d : Draft} {queue : Queue} {list : ListId} {e : Event}

/-- No list is opened once it is submitted, and every list submitted or open has been opened. -/
structure Lives (d : Draft) : Prop where
  apart : d.events.Pairwise Event.Apart
  submitted : ∀ list, .submit list ∈ d.events → list.index < d.lists.length
  current : ∀ queue list, d.current = some (queue, list) → list.index < d.lists.length

theorem lives_start (tracks : List Track) : ({ tracks } : Draft).Lives where
  apart := .nil
  submitted _ member := by cases member
  current _ _ opened := by cases opened

theorem Lives.emit (lives : d.Lives) (opens : e.opened? = none)
    (submits : ∀ list, e = .submit list → list.index < d.lists.length) : (d.emit e).Lives where
  apart := by
    refine List.pairwise_append.mpr ⟨lives.apart, List.pairwise_singleton _ _, ?_⟩
    intro _ _ last member
    rw [List.mem_singleton.mp member]
    exact Event.apart_of_opens_none opens
  submitted := by
    intro list member
    rcases List.mem_append.mp member with old | new
    · exact lives.submitted list old
    · exact submits list (List.mem_singleton.mp new).symm
  current := lives.current

theorem Lives.opened (lives : d.Lives) (queue : Queue) :
    ({ d with lists := d.lists ++ [queue], current := some (queue, ⟨d.lists.length⟩) }.emit
      (.openList queue ⟨d.lists.length⟩)).Lives where
  apart := by
    refine List.pairwise_append.mpr ⟨lives.apart, List.pairwise_singleton _ _, ?_⟩
    rintro _ member last new list rfl opens
    rw [List.mem_singleton.mp new] at opens
    have old := lives.submitted list member
    rw [← Option.some.inj opens] at old
    exact Nat.lt_irrefl _ old
  submitted := by
    intro list member
    have old : list.index < d.lists.length := by
      rcases List.mem_append.mp member with old | new
      · exact lives.submitted list old
      · cases List.mem_singleton.mp new
    simp only [Draft.emit, List.length_append, List.length_singleton]
    omega
  current := by
    rintro _ _ ⟨⟩
    simp [Draft.emit]

theorem Lives.enter (lives : d.Lives) (queue : Queue) : (d.enter queue).2.Lives := by
  unfold Draft.enter
  dsimp only
  split
  · rename_i list current
    split
    · exact lives
    · have submitted : (d.emit (.submit list)).Lives := by
        refine lives.emit rfl ?_
        rintro _ ⟨⟩
        exact lives.current _ _ current
      exact submitted.opened queue
  · exact lives.opened queue

theorem Lives.sync (lives : d.Lives) (source waiting : Queue) : (d.sync source waiting).Lives := by
  obtain ⟨fence, events⟩ := d.events_sync source waiting
  have emitted : (d.emit (.sync source waiting fence)).Lives :=
    lives.emit rfl (by rintro _ ⟨⟩)
  have lists := keeps_sync lists (fun _ _ _ _ => rfl) d source waiting
  have current := keeps_sync Draft.current (fun _ _ _ _ => rfl) d source waiting
  constructor
  · exact events ▸ emitted.apart
  · rw [events, lists]
    exact emitted.submitted
  · rw [current, lists]
    exact lives.current

theorem Lives.fill {d' : Draft} (lives : d.Lives) (fills : d.Fills d') : d'.Lives where
  apart := by
    obtain ⟨more, events, filling⟩ := fills.events
    have opens (e : Event) (member : e ∈ more) : e.opened? = none := by
      have := filling e member
      cases e <;> first | rfl | cases this
    rw [events]
    refine List.pairwise_append.mpr ⟨lives.apart, ?_, ?_⟩
    · exact List.pairwise_of_forall_mem_list fun _ _ f member =>
        Event.apart_of_opens_none (opens f member)
    · exact fun _ _ f member => Event.apart_of_opens_none (opens f member)
  submitted := by
    intro list member
    rw [fills.lists]
    exact lives.submitted list (fills.mem_of_plain rfl member)
  current := by
    rw [fills.current, fills.lists]
    exact lives.current

theorem stable_lives : Stable Lives where
  start := lives_start
  enter queue lives := lives.enter queue
  sync source waiting lives := lives.sync source waiting
  fill lives fills := lives.fill fills
  submit {d} lives := by
    unfold Draft.submitCurrent
    split
    · rename_i queue list current
      refine lives.emit rfl ?_
      rintro _ ⟨⟩
      exact lives.current _ _ current
    · exact lives

end Draft

theorem Brief.apart_of_schedule {b : Brief} {s : Schedule} (made : b.schedule = .ok s) :
    s.events.Pairwise Event.Apart := by
  obtain ⟨d, lives, rfl⟩ := Draft.stable_lives.schedule made
  exact lives.apart

end RenderGraph
