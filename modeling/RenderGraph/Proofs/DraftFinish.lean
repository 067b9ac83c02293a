import RenderGraph.Proofs.DraftRun

/-! Finished schedules. Every list is submitted once, every surviving pass is recorded once, and the
order that recording established holds of the schedule, as it does of the batch that restores
states. -/

namespace RenderGraph

/-- A batch at the end of the queue's list, after everything on other queues that touches a
resource of a transition in it. -/
def RestoreBatch (events : List Event) (log : List Entry) (n : Nat) (list : ListId)
    (queue : Queue) (batch : List Barrier) : Prop :=
  events[n + 1]? = some (.submit list) ∧ n + 2 = events.length ∧
    ∀ t, .transition t ∈ batch → ∀ e ∈ log, e.pass.queue ≠ queue →
      e.pass.touches t.resource = true → ReachesBefore events e.list e.pass.queue list queue

/-- What the events of a schedule say about the passes recorded in it. -/
structure Schedule.Follows (s : Schedule) (log : List Entry) : Prop where
  placed : s.events.filterMap Event.placed? = log.map fun e => (e.list, e.id)
  queues : ∀ e ∈ log, s.listQueue? e.list = some e.pass.queue
  rising : log.Pairwise fun e f => e.list.index ≤ f.list.index
  submits : s.events.filterMap Event.submitted? = (List.range s.lists.length).map ListId.mk
  sequenced : Sequenced s.events log
  batched : ∀ (n : Nat) list batch, s.events[n]? = some (.barriers list batch) →
    PassBatch s.events log n list batch ∨
      ∃ queue, s.listQueue? list = some queue ∧ RestoreBatch s.events log n list queue batch

theorem Declaration.mem_passes_of_mem_survivors {d : Declaration} {survival : Survival}
    {entry : PassId × Pass} (member : entry ∈ d.survivors survival) : entry.2 ∈ d.passes := by
  obtain ⟨⟨pass, i⟩, held, rfl⟩ := List.mem_map.mp (List.mem_filter.mp member).1
  exact (List.mem_zipIdx' held).2 ▸ List.getElem_mem _

theorem Draft.length_startTracks (b : Brief) :
    b.startTracks.length = b.declaration.resources.length := by
  simp [Brief.startTracks]

namespace Brief

variable {b : Brief} {s : Schedule} {d : Draft}

theorem within_live (closed : b.declaration.Closed) :
    ∀ e ∈ b.live, e.2.Within ({ tracks := b.startTracks } : Draft).tracks.length := by
  intro e member
  rw [Draft.length_startTracks]
  exact closed _ (Declaration.mem_passes_of_mem_survivors member)

theorem recordAll_of_draft (made : b.draft = .ok d) :
    Draft.recordAll b 0 b.live { tracks := b.startTracks } = .ok d := by
  unfold draft at made
  split at made
  · cases made
  · exact made

theorem exists_draft (made : b.schedule = .ok s) : ∃ d, b.draft = .ok d ∧ s = b.finish d := by
  unfold schedule at made
  cases drafted : b.draft with
  | error reason =>
    rw [drafted] at made
    cases made
  | ok d =>
    rw [drafted] at made
    cases made
    exact ⟨d, rfl, rfl⟩

end Brief

namespace Draft

variable {b : Brief} {d d' : Draft} {log : List Entry}

theorem Consistent.recordAll {P : Draft → List Entry → Prop} {todo : List (PassId × Pass)}
    (step : ∀ {d d' log p pass}, (p, pass) ∈ todo → d.Consistent log → P d log →
      d.recordPass b log.length p pass = .ok d' → P d' (log ++ [d.entry p pass]))
    (consistent : d.Consistent log) (holds : P d log)
    (within : ∀ entry ∈ todo, entry.2.Within d.tracks.length)
    (recorded : recordAll b log.length todo d = .ok d') :
    ∃ more : List Entry, more.map (fun e => (e.id, e.pass)) = todo ∧
      d'.Consistent (log ++ more) ∧ P d' (log ++ more) := by
  induction todo generalizing d log with
  | nil =>
    cases recorded
    rw [← List.append_nil log] at consistent holds
    exact ⟨[], rfl, consistent, holds⟩
  | cons head rest ih =>
    obtain ⟨p, pass⟩ := head
    rw [Draft.recordAll] at recorded
    split at recorded
    · cases recorded
    · rename_i next one
      have first := within (p, pass) List.mem_cons_self
      have stepped := step List.mem_cons_self consistent holds one
      have rest' : ∀ entry ∈ rest, entry.2.Within next.tracks.length := by
        intro entry member
        rw [length_tracks_recordPass one]
        exact within entry (List.mem_cons_of_mem _ member)
      have length : (log ++ [d.entry p pass]).length = log.length + 1 := by simp
      rw [← length] at recorded
      obtain ⟨more, same, final⟩ := ih (fun member => step (List.mem_cons_of_mem _ member))
        (consistent.recordPass first one) stepped rest' recorded
      refine ⟨d.entry p pass :: more, ?_, ?_⟩
      · rw [List.map_cons, same]
        rfl
      · rwa [List.append_assoc] at final

theorem consistent_startTracks (b : Brief) :
    ({ tracks := b.startTracks } : Draft).Consistent [] := by
  apply consistent_start
  intro t member
  obtain ⟨⟨resource, i⟩, _, rfl⟩ := List.mem_map.mp member
  dsimp only
  split <;> exact ⟨rfl, rfl⟩

/-- The draft after the last pass has recorded all surviving passes, and has every property that the
empty draft has and that each recorded pass preserves. -/
theorem consistent_draft_of_step {P : Draft → List Entry → Prop}
    (start : P { tracks := b.startTracks } [])
    (step : ∀ {d d' log p pass}, (p, pass) ∈ b.live → d.Consistent log → P d log →
      d.recordPass b log.length p pass = .ok d' → P d' (log ++ [d.entry p pass]))
    (closed : b.declaration.Closed) (made : b.draft = .ok d) :
    ∃ log : List Entry, log.map (fun e => (e.id, e.pass)) = b.live ∧ d.Consistent log ∧
      log ≠ [] ∧ P d log := by
  unfold Brief.draft at made
  split at made
  · cases made
  · rename_i nonempty
    obtain ⟨log, same, consistent, holds⟩ :=
      (consistent_startTracks b).recordAll step start (Brief.within_live closed) made
    refine ⟨log, same, consistent, ?_, holds⟩
    rintro rfl
    rw [← same] at nonempty
    exact nonempty rfl

theorem consistent_draft (closed : b.declaration.Closed) (made : b.draft = .ok d) :
    ∃ log : List Entry, log.map (fun e => (e.id, e.pass)) = b.live ∧ d.Consistent log ∧
      log ≠ [] := by
  obtain ⟨log, same, consistent, nonempty, _⟩ := consistent_draft_of_step
    (P := fun _ _ => True) trivial (fun _ _ _ _ => trivial) closed made
  exact ⟨log, same, consistent, nonempty⟩

theorem Laid.exists_current (laid : d.Laid log) (some : log ≠ []) :
    ∃ queue list, d.current = .some (queue, list) := by
  cases current : d.current with
  | none =>
    obtain ⟨e, member⟩ := List.exists_mem_of_ne_nil log some
    have held := laid.queues e member
    rw [laid.current, Option.map_eq_none_iff, List.getLast?_eq_none_iff] at current
    rw [current] at held
    cases held
  | some open_ => exact ⟨open_.1, open_.2, rfl⟩

theorem Laid.submits_submitCurrent (laid : d.Laid log) (some : log ≠ []) :
    d.submitCurrent.events.filterMap Event.submitted? =
      (List.range d.lists.length).map ListId.mk := by
  obtain ⟨queue, list, current⟩ := laid.exists_current some
  have last := (laid.list_of_current current).1
  have before : d.lists.length - 1 = list.index := by omega
  rw [← last, List.range_succ, List.map_append]
  simp [submitCurrent, current, Draft.emit, laid.submits, before, Event.submitted?]

theorem lists_submitCurrent (d : Draft) : d.submitCurrent.lists = d.lists := by
  unfold submitCurrent
  split <;> rfl

theorem continues_submitCurrent (d : Draft) :
    Continues d.events d.submitCurrent.events := by
  unfold submitCurrent
  split
  · exact Continues.concat d.events rfl
  · exact Continues.refl d.events

theorem placed_submitCurrent (d : Draft) :
    d.submitCurrent.events.filterMap Event.placed? = d.events.filterMap Event.placed? := by
  unfold submitCurrent
  split
  · simp [emit, Event.placed?]
  · rfl

theorem Laid.follows (laid : d.Laid log) (nonempty : log ≠ [])
    (sequenced : Sequenced d.events log)
    (batched : ∀ (n : Nat) list batch, d.submitCurrent.events[n]? = some (.barriers list batch) →
      PassBatch d.submitCurrent.events log n list batch ∨
        ∃ queue, d.lists[list.index]? = some queue ∧
          RestoreBatch d.submitCurrent.events log n list queue batch) :
    d.submitCurrent.toSchedule.Follows log where
  placed := d.placed_submitCurrent.trans laid.placed
  queues := by
    intro e member
    have held := laid.queues e member
    rwa [← d.lists_submitCurrent] at held
  rising := laid.rising
  submits := by
    have submits := laid.submits_submitCurrent nonempty
    rwa [← d.lists_submitCurrent] at submits
  sequenced := sequenced.mono d.continues_submitCurrent.isPrefix
  batched := by
    intro n list batch held
    have placed := batched n list batch held
    rwa [← d.lists_submitCurrent] at placed

def restoring (d : Draft) (restore : List Transition) : Draft :=
  (d.enter (d.restoreQueue restore)).2.syncAll (d.restoreQueue restore)
    (restore.map fun t => (t.resource, true))

theorem keeps_restoreAll {α : Type} (view : Draft → α)
    (same : ∀ tracks d, view { d with tracks } = view d) {restore : List Transition}
    (some : restore ≠ []) :
    view (d.restoreAll restore) = view ((d.restoring restore).emit
      (.barriers (d.enter (d.restoreQueue restore)).1 (restore.map .transition))) := by
  unfold restoreAll
  rw [if_neg (by simpa using some)]
  have states (e : Event) := keeps_foldl_modifyTrack (fun d => view (d.emit e))
    (fun tracks d => same tracks (d.emit e)) Transition.resource
    (fun t track => { track with state := Option.some t.after }) restore (d.restoring restore)
  exact states _

theorem events_restored (d : Draft) {restore : List Transition} (some : restore ≠ []) :
    (d.restoreAll restore).submitCurrent.events = (d.restoring restore).events ++
      [.barriers (d.enter (d.restoreQueue restore)).1 (restore.map .transition),
        .submit (d.enter (d.restoreQueue restore)).1] := by
  have events := keeps_restoreAll (d := d) events (fun _ _ => rfl) some
  have current : (d.restoreAll restore).current =
      .some (d.restoreQueue restore, (d.enter (d.restoreQueue restore)).1) := by
    rw [keeps_restoreAll (d := d) Draft.current (fun _ _ => rfl) some]
    exact (keeps_syncAll Draft.current (fun _ _ _ _ => rfl) _ _ _).trans (current_enter d _)
  simp only [submitCurrent, current, emit, events, List.append_assoc]
  rfl

theorem Consistent.reaches_restoring (consistent : d.Consistent log) {restore : List Transition}
    {t : Transition} (restored : t ∈ restore) {e : Entry} (member : e ∈ log)
    (apart : e.pass.queue ≠ d.restoreQueue restore)
    (touches : e.pass.touches t.resource = true) :
    Reaches (d.restoring restore).events e.list e.pass.queue (d.restoreQueue restore) := by
  have tracks := keeps_enter tracks (fun _ _ _ _ => rfl) d (d.restoreQueue restore)
  have access : (t.resource, true) ∈ restore.map fun t => (t.resource, true) :=
    List.mem_map_of_mem restored
  have inside : t.resource.index < (d.enter (d.restoreQueue restore)).2.tracks.length := by
    obtain ⟨a, access, equal⟩ := List.any_eq_true.mp touches
    rw [tracks, ← eq_of_beq equal]
    exact consistent.within e member a access
  obtain ⟨j, held⟩ := List.mem_iff_getElem?.mp member
  exact (consistent.enter _).reaches_shared (consistent.tracked_enter _)
    (consistent.sequenced.mono (d.events_enter _)) access inside held apart touches (Or.inl rfl)

theorem Consistent.follows_submitCurrent (consistent : d.Consistent log) (nonempty : log ≠ []) :
    d.submitCurrent.toSchedule.Follows log := by
  apply consistent.laid.follows nonempty consistent.sequenced
  intro n list batch held
  exact Or.inl (consistent.batched.extend d.continues_submitCurrent n list batch held)

theorem Consistent.follows (consistent : d.Consistent log) (nonempty : log ≠ [])
    (restore : List Transition) :
    (d.restoreAll restore).submitCurrent.toSchedule.Follows log := by
  by_cases none : restore = []
  · rw [none]
    exact consistent.follows_submitCurrent nonempty
  have ready := (consistent.enter (d.restoreQueue restore)).syncAll
    (restore.map fun t => (t.resource, true))
  have events := keeps_restoreAll (d := d) events (fun _ _ => rfl) none
  have lists := keeps_restoreAll (d := d) lists (fun _ _ => rfl) none
  have current := keeps_restoreAll (d := d) Draft.current (fun _ _ => rfl) none
  have laid : (d.restoreAll restore).Laid log :=
    (ready.laid.emit ⟨rfl, rfl⟩).congr events lists current
  have continues : Continues d.events (d.restoring restore).events :=
    (d.continues_enter _).trans (continues_syncAll _ _ _)
  refine laid.follows nonempty ?_ ?_
  · rw [events]
    exact consistent.sequenced.mono (continues.isPrefix.trans (List.prefix_append _ _))
  obtain ⟨last, opened⟩ := ready.laid.list_of_current ready.current
  have submitted := d.events_restored none
  rw [← List.singleton_append, ← List.append_assoc] at submitted
  intro n list batch held
  rw [submitted] at held ⊢
  rcases Nat.lt_trichotomy n (d.restoring restore).events.length with low | rfl | high
  · rw [List.append_assoc, List.getElem?_append_left low] at held
    have placed := consistent.batched.extend continues n list batch held
    rw [List.append_assoc]
    exact Or.inl (placed.append _)
  · have same : (d.enter (d.restoreQueue restore)).1 = list ∧
        restore.map Barrier.transition = batch := by simpa using held
    obtain ⟨rfl, rfl⟩ := same
    refine Or.inr ⟨d.restoreQueue restore, ?_, by simp, by simp, ?_⟩
    · rw [lists]
      exact opened
    · intro t transition e member apart touches
      obtain ⟨_, restored, same⟩ := List.mem_map.mp transition
      cases same
      have reaches := consistent.reaches_restoring restored member apart touches
      have before := reaches.before (ready.laid.unsubmitted ready.current)
      exact (before.append _).append _
  · have bound := (List.getElem?_eq_some_iff.mp held).1
    have atSubmit : n = (d.restoring restore).events.length + 1 := by
      simp only [List.length_append, List.length_singleton] at bound
      omega
    subst atSubmit
    simp at held

end Draft

end RenderGraph
