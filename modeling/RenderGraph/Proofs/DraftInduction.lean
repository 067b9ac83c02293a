import RenderGraph.Proofs.DraftFinish

/-! Induction over the making of a schedule. A draft moves on by entering a queue, by a sync, and by
barriers and passes that go into the open list, and in the end it submits this list. What all of
these preserve holds of every schedule. -/

namespace RenderGraph

namespace Draft

structure Fills (d d' : Draft) : Prop where
  events : ∃ more, d'.events = d.events ++ more ∧ ∀ e ∈ more, e.isPlain = false
  lists : d'.lists = d.lists
  current : d'.current = d.current
  fences : d'.fences = d.fences

/-- A property that every step of the making preserves. -/
structure Stable (P : Draft → Prop) : Prop where
  start : ∀ tracks, P { tracks }
  enter : ∀ {d} queue, P d → P (d.enter queue).2
  sync : ∀ {d} source waiting, P d → P (d.sync source waiting)
  fill : ∀ {d d'}, P d → d.Fills d' → P d'
  submit : ∀ {d}, P d → P d.submitCurrent

variable {P : Draft → Prop} {b : Brief} {d d' : Draft} {ordinal : Nat} {p : PassId} {pass : Pass}

theorem Fills.mem_of_plain (fills : d.Fills d') {e : Event} (plain : e.isPlain = true)
    (member : e ∈ d'.events) : e ∈ d.events := by
  obtain ⟨more, events, filling⟩ := fills.events
  rw [events] at member
  rcases List.mem_append.mp member with old | new
  · exact old
  · rw [filling e new] at plain
    cases plain

theorem Stable.syncAll (stable : Stable P) (queue : Queue) (accesses : List (ResourceId × Bool))
    (holds : P d) : P (d.syncAll queue accesses) := by
  have step {d' : Draft} (holds : P d') (source : Queue) :
      P (d.syncOne queue accesses d' source) := by
    unfold syncOne
    split
    · exact holds
    · split
      · exact holds
      · split
        · exact holds
        · exact stable.sync source queue holds
  simp only [syncAll_eq_foldl, Queue.all, List.foldl_cons, List.foldl_nil]
  exact step (step (step holds _) _) _

theorem fills_recordPass (recorded : d.recordPass b ordinal p pass = .ok d') :
    (d.arrive pass).Fills d' where
  events := by
    obtain ⟨batch, _, events⟩ := events_recordPass recorded
    refine ⟨_, (List.append_assoc _ _ _).symm ▸ events, fun e member => ?_⟩
    rcases List.mem_append.mp member with barriers | record
    · split at barriers
      · cases barriers
      · exact List.mem_singleton.mp barriers ▸ rfl
    · exact List.mem_singleton.mp record ▸ rfl
  lists := keeps_recordPass lists (fun _ _ _ _ => rfl) recorded
  current := keeps_recordPass Draft.current (fun _ _ _ _ => rfl) recorded
  fences := keeps_recordPass fences (fun _ _ _ _ => rfl) recorded

theorem Stable.recordPass (stable : Stable P) (holds : P d)
    (recorded : d.recordPass b ordinal p pass = .ok d') : P d' :=
  stable.fill (stable.syncAll _ _ (stable.enter pass.queue holds)) (fills_recordPass recorded)

theorem Stable.recordAll (stable : Stable P) {todo : List (PassId × Pass)} (holds : P d)
    (recorded : Draft.recordAll b ordinal todo d = .ok d') : P d' := by
  induction todo generalizing d ordinal with
  | nil =>
    cases recorded
    exact holds
  | cons head rest ih =>
    obtain ⟨p, pass⟩ := head
    rw [Draft.recordAll] at recorded
    split at recorded
    · cases recorded
    · rename_i next one
      exact ih (stable.recordPass holds one) recorded

theorem fills_restoreAll {restore : List Transition} (some : restore ≠ []) :
    (d.restoring restore).Fills (d.restoreAll restore) where
  events := ⟨_, keeps_restoreAll events (fun _ _ => rfl) some,
    fun _ member => List.mem_singleton.mp member ▸ rfl⟩
  lists := keeps_restoreAll lists (fun _ _ => rfl) some
  current := keeps_restoreAll Draft.current (fun _ _ => rfl) some
  fences := keeps_restoreAll fences (fun _ _ => rfl) some

theorem Stable.restoreAll (stable : Stable P) (restore : List Transition) (holds : P d) :
    P (d.restoreAll restore) := by
  by_cases none : restore = []
  · rw [none]
    exact holds
  · exact stable.fill (stable.syncAll _ _ (stable.enter _ holds)) (fills_restoreAll none)

theorem Stable.schedule (stable : Stable P) {s : Schedule} (made : b.schedule = .ok s) :
    ∃ d, P d ∧ s = d.toSchedule := by
  obtain ⟨d, drafted, rfl⟩ := Brief.exists_draft made
  have recorded := stable.recordAll (stable.start b.startTracks)
    (Brief.recordAll_of_draft drafted)
  exact ⟨_, stable.submit (stable.restoreAll (d.restoration b) recorded), rfl⟩

end Draft

end RenderGraph
