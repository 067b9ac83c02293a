import RenderGraph.Proofs.DraftSyncs

/-! The syncs of a compiled graph. Each of them is needed: it orders a surviving pass before the
pass recorded next, or before the batch that restores states, and the syncs before it do not. -/

namespace RenderGraph

/-- A sync is for the batch that restores states, which transitions a resource that an earlier pass
of the source touches. By the syncs before, that pass does not reach the waiting queue yet. -/
def Schedule.SyncedForRestore (s : Schedule) (log : List Entry) (n : Nat) (source waiting : Queue) :
    Prop :=
  ∃ e ∈ log, e.pass.queue = source ∧ (∃ m < n, s.events[m]? = some (.record e.list e.id)) ∧
    (∀ l list p, n < l → s.events[l]? ≠ some (.record list p)) ∧
    (∃ k list batch t, s.RestoresAt k list batch ∧ n < k ∧ s.listQueue? list = some waiting ∧
      .transition t ∈ batch ∧ e.pass.touches t.resource = true) ∧
    ¬ Reaches (s.events.take n) e.list source waiting

structure Schedule.Spares (s : Schedule) (log : List Entry) : Prop where
  caused : ∀ n source waiting fence, s.events[n]? = some (.sync source waiting fence) →
    SyncedForPass s.events log n source waiting ∨ s.SyncedForRestore log n source waiting
  apart : SyncsApart s.events

namespace Draft

variable {d : Draft} {log : List Entry}

theorem Sparing.submitCurrent (sparing : d.Sparing log) (consistent : d.Consistent log)
    (nonempty : log ≠ []) : d.submitCurrent.toSchedule.Spares log := by
  obtain ⟨queue, list, current⟩ := consistent.laid.exists_current nonempty
  have events : d.submitCurrent.toSchedule.events = d.events ++ [.submit list] := by
    simp [Draft.submitCurrent, current, Draft.emit, toSchedule]
  have still : ∀ e ∈ [Event.submit list], e.signal? = none := by simp [Event.signal?]
  constructor
  · intro n source waiting fence sync
    rw [events] at sync ⊢
    rw [List.getElem?_append_left (lt_of_sync_append still sync)] at sync
    rw [← List.append_nil log]
    exact Or.inl ((sparing.caused n source waiting fence sync).append _ [])
  · rw [events]
    exact sparing.apart.append still

theorem Sparing.restoreAll (sparing : d.Sparing log) (consistent : d.Consistent log)
    {restore : List Transition} (some : restore ≠ []) :
    (d.restoreAll restore).submitCurrent.toSchedule.Spares log := by
  have waits : Waits d log (d.restoreQueue restore) (d.enter (d.restoreQueue restore)).1
      (restore.map fun t => (t.resource, true)) Queue.all (d.restoring restore) :=
    consistent.waits sparing.aware _ _
  generalize into : (d.enter (d.restoreQueue restore)).1 = list at waits
  have ending := d.events_restored some
  rw [into] at ending
  have still : ∀ e ∈ [Event.barriers list (restore.map .transition), .submit list],
      e.signal? = none ∧ e.placed? = none := by simp [Event.signal?, Event.placed?]
  have events : (d.restoreAll restore).submitCurrent.toSchedule.events =
      (d.restoring restore).events ++ [.barriers list (restore.map .transition), .submit list] :=
    ending
  constructor
  · intro n source waiting fence sync
    rw [events] at sync
    have inside := lt_of_sync_append (fun e member => (still e member).1) sync
    rw [List.getElem?_append_left inside] at sync
    obtain ⟨more, grown, plain, _⟩ := waits.added
    -- A sync stems from the draft, or it is made for the list that restores.
    by_cases old : n < d.events.length
    · rw [grown, List.getElem?_append_left old] at sync
      rw [events, grown, List.append_assoc, ← List.append_nil log]
      exact Or.inl ((sparing.caused n source waiting fence sync).append _ [])
    · have after := Nat.le_of_not_lt old
      obtain ⟨rfl, r, output, access, e, member, own, conflict, missed⟩ :=
        waits.overdue n source waiting fence after sync
      obtain ⟨t, restored, same⟩ := List.mem_map.mp access
      cases same
      obtain ⟨m, before, record⟩ := consistent.laid.exists_record member
      have unplaced : ∀ e ∈ more ++ [.barriers list (restore.map .transition), .submit list],
          e.placed? = none := by
        intro e member
        rcases List.mem_append.mp member with added | last
        · have plain := plain e added
          cases e <;> simp_all [Event.isPlain, Event.placed?]
        · exact (still e last).2
      refine Or.inr ⟨e, member, own, ⟨m, Nat.lt_of_lt_of_le before after, ?_⟩, ?_, ?_, ?_⟩
      · rw [events, grown, List.append_assoc]
        exact getElem?_append_of_some record _
      · intro l list p later
        rw [events, grown, List.append_assoc]
        exact not_record_of_unplaced unplaced (by omega)
      · refine ⟨(d.restoring restore).events.length, list, restore.map .transition, t, ?_, inside,
          ?_, List.mem_map_of_mem restored, ?_⟩
        · rw [Schedule.RestoresAt, events]
          simp
        · have lists := (d.restoreAll restore).lists_submitCurrent.trans
            (keeps_restoreAll (d := d) Draft.lists (fun _ _ => rfl) some)
          have opened := (waits.ready.laid.list_of_current waits.ready.current).2
          rw [Schedule.listQueue?, toSchedule, lists]
          exact opened
        · rw [Pass.touches_eq, Bool.or_eq_true]
          exact conflict.imp_right And.right
      · rwa [events, List.take_append_of_le_length (Nat.le_of_lt inside)]
  · rw [events]
    exact (waits.syncsApart sparing.apart sparing.ended).append
      fun e member => (still e member).1

end Draft

namespace Brief

variable {b : Brief} {s : Schedule}

theorem spares_of_schedule (closed : b.declaration.Closed) (made : b.schedule = .ok s) :
    ∃ log : List Entry, log.map (fun e => (e.id, e.pass)) = b.live ∧ s.Spares log := by
  obtain ⟨d, drafted, rfl⟩ := exists_draft made
  obtain ⟨log, same, consistent, nonempty, sparing⟩ := Draft.consistent_draft_of_step
    (P := Draft.Sparing) (Draft.sparing_start _)
    (fun _ consistent sparing recorded => sparing.recordPass consistent recorded) closed drafted
  refine ⟨log, same, ?_⟩
  unfold finish
  by_cases none : d.restoration b = []
  · rw [none]
    exact sparing.submitCurrent consistent nonempty
  · exact sparing.restoreAll consistent none

end Brief

namespace Session

variable {s s' : Session}

/-- Every sync of a compiled graph is for the pass recorded next, or for the batch that restores
states where none is recorded any more. The source has recorded a surviving pass that shares a
resource with it, which one of the two outputs to and which the batch counts as doing, and no chain
of earlier syncs orders that pass before. No queue signals twice for the same pass or batch. -/
theorem syncs_needed (reachable : s.Reachable) (does : s.Does Graph.compile s') :
    ∃ c, s'.graph.compilation = some c ∧
      (∀ n source waiting fence, c.schedule.events[n]? = some (.sync source waiting fence) →
        ∃ p pass list m, (p, pass) ∈ s'.graph.declaration.surviving ∧ pass.queue = source ∧
          m < n ∧ c.schedule.events[m]? = some (.record list p) ∧
          ¬ Reaches (c.schedule.events.take n) list source waiting ∧
          ((∃ q other list' r, RecordedNext c.schedule.events n list' q ∧
              (q, other) ∈ s'.graph.declaration.surviving ∧ other.queue = waiting ∧
              pass.touches r = true ∧ other.touches r = true ∧
              (pass.outputsTo r = true ∨ other.outputsTo r = true)) ∨
            (∀ l list' q, n < l → c.schedule.events[l]? ≠ some (.record list' q)) ∧
            ∃ k list' batch t, c.schedule.RestoresAt k list' batch ∧ n < k ∧
              c.schedule.listQueue? list' = some waiting ∧ .transition t ∈ batch ∧
              pass.touches t.resource = true)) ∧
      ∀ (i j : Nat) source waiting waiting' fence fence', i < j →
        c.schedule.events[i]? = some (.sync source waiting fence) →
        c.schedule.events[j]? = some (.sync source waiting' fence') →
        ∃ k list p, i < k ∧ k < j ∧ c.schedule.events[k]? = some (.record list p) := by
  obtain ⟨c, made, compiled, _, declaration, _⟩ := does.compiled
  have closed : s'.graph.declaration.Closed := declaration ▸ reachable.closed
  obtain ⟨log, same, spares⟩ := Brief.spares_of_schedule closed compiled.schedule
  have survives {e : Entry} (member : e ∈ log) :
      (e.id, e.pass) ∈ s'.graph.declaration.surviving := by
    rw [← compiled.live_eq, ← same]
    exact List.mem_map.mpr ⟨e, member, rfl⟩
  refine ⟨c, compiled.compilation, fun n source waiting fence sync => ?_, spares.apart⟩
  rcases spares.caused n source waiting fence sync with
    ⟨e, member, f, member', r, own, own', ⟨m, before, record⟩, next, touches, touches', outputs,
      missed⟩ | ⟨e, member, own, ⟨m, before, record⟩, last, restores, missed⟩
  · exact ⟨e.id, e.pass, e.list, m, survives member, own, before, record, missed,
      Or.inl ⟨f.id, f.pass, f.list, r, next, survives member', own', touches, touches', outputs⟩⟩
  · exact ⟨e.id, e.pass, e.list, m, survives member, own, before, record, missed,
      Or.inr ⟨last, restores⟩⟩

theorem blurred_sync_needed : blurred.Reachable ∧
    blurred.Does Graph.compile (blurred.act .compile) ∧
    ∃ c, (blurred.act .compile).graph.compilation = some c ∧
      ∃ list, ¬ Reaches (c.schedule.events.take 5) list .compute .graphics := by
  have reachable : blurred.Reachable := (Reachable.start {} [] {}).foldl _
  obtain ⟨c, compilation, needed, _⟩ := syncs_needed reachable blurred_compiles
  have sync : c.schedule.events[5]? = some (.sync .compute .graphics ⟨0⟩) := by
    rw [schedule_of_blurred compilation]
    rfl
  obtain ⟨_, _, list, _, _, _, _, _, missed, _⟩ := needed 5 _ _ _ sync
  exact ⟨reachable, blurred_compiles, c, compilation, list, missed⟩

end Session

end RenderGraph
