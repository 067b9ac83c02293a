import RenderGraph.Proofs.ClockReach
import RenderGraph.Proofs.QueueOrder

/-! Why a queue is made to wait. Every sync of a schedule is for the pass recorded next, or for the
batch that restores states, and orders an earlier pass before it that no chain of syncs has put
there yet. -/

namespace RenderGraph

/-- The pass is recorded into the list after the position, and no other pass before it. -/
def RecordedNext (events : List Event) (n : Nat) (list : ListId) (p : PassId) : Prop :=
  ∃ k, n < k ∧ events[k]? = some (.record list p) ∧
    ∀ l list' p', n < l → l < k → events[l]? ≠ some (.record list' p')

def SyncsApart (events : List Event) : Prop :=
  ∀ (i j : Nat) source waiting waiting' fence fence', i < j →
    events[i]? = some (.sync source waiting fence) →
    events[j]? = some (.sync source waiting' fence') →
    ∃ k list p, i < k ∧ k < j ∧ events[k]? = some (.record list p)

/-- One of the accesses, each with whether it outputs, has to come after a recorded pass of the
source that has not reached the queue by the events before the position. -/
def Overdue (events : List Event) (log : List Entry) (accesses : List (ResourceId × Bool)) (n : Nat)
    (source queue : Queue) : Prop :=
  ∃ r output, (r, output) ∈ accesses ∧ ∃ e ∈ log, e.pass.queue = source ∧
    (e.pass.outputsTo r = true ∨ output = true ∧ e.pass.readsFrom r = true) ∧
    ¬ Reaches (events.take n) e.list source queue

section

variable {events more : List Event} {log : List Entry} {accesses : List (ResourceId × Bool)}
  {n : Nat} {source queue : Queue} {list : ListId} {p : PassId}

theorem Overdue.append (overdue : Overdue events log accesses n source queue)
    (le : n ≤ events.length) (more : List Event) :
    Overdue (events ++ more) log accesses n source queue := by
  rwa [Overdue, List.take_append_of_le_length le]

theorem RecordedNext.append (next : RecordedNext events n list p) (more : List Event) :
    RecordedNext (events ++ more) n list p := by
  obtain ⟨k, later, record, none⟩ := next
  refine ⟨k, later, getElem?_append_of_some record more, fun l list' p' after before => ?_⟩
  have inside := (List.getElem?_eq_some_iff.mp record).1
  rw [List.getElem?_append_left (Nat.lt_trans before inside)]
  exact none l list' p' after before

theorem not_record_of_unplaced (unplaced : ∀ e ∈ more, e.placed? = none) {l : Nat}
    (after : events.length ≤ l) : (events ++ more)[l]? ≠ some (.record list p) := by
  intro held
  rw [List.getElem?_append_right after] at held
  cases unplaced _ (List.mem_of_getElem? held)

theorem recordedNext_of_unplaced (unplaced : ∀ e ∈ more, e.placed? = none)
    (after : events.length ≤ n) (inside : n < (events ++ more).length) :
    RecordedNext (events ++ more ++ [.record list p]) n list p := by
  refine ⟨(events ++ more).length, inside, List.getElem?_concat_length, ?_⟩
  intro l list' p' later before
  rw [List.getElem?_append_left before]
  exact not_record_of_unplaced unplaced (by omega)

theorem SyncsApart.append (apart : SyncsApart events) (still : ∀ e ∈ more, e.signal? = none) :
    SyncsApart (events ++ more) := by
  intro i j source waiting waiting' fence fence' before first second
  have inside := lt_of_sync_append still second
  rw [List.getElem?_append_left (Nat.lt_trans before inside)] at first
  rw [List.getElem?_append_left inside] at second
  obtain ⟨k, list, p, after, below, record⟩ := apart i j _ _ _ _ _ before first second
  exact ⟨k, list, p, after, below, getElem?_append_of_some record more⟩

theorem SyncsApart.extend (apart : SyncsApart events)
    (ended : ∀ e ∈ events.getLast?, ∃ list p, e = .record list p)
    (once : (more.filterMap Event.signal?).Nodup) : SyncsApart (events ++ more) := by
  intro i j source waiting waiting' fence fence' before first second
  by_cases late : j < events.length
  · rw [List.getElem?_append_left (Nat.lt_trans before late)] at first
    rw [List.getElem?_append_left late] at second
    obtain ⟨k, list, p, after, below, record⟩ := apart i j _ _ _ _ _ before first second
    exact ⟨k, list, p, after, below, getElem?_append_of_some record more⟩
  · rw [List.getElem?_append_right (Nat.le_of_not_lt late)] at second
    by_cases early : i < events.length
    · rw [List.getElem?_append_left early] at first
      have last : events[events.length - 1]? = events.getLast? :=
        List.getLast?_eq_getElem?.symm
      have inside : events.length - 1 < events.length := by omega
      obtain ⟨list, p, record⟩ := ended _ (last ▸ List.getElem?_eq_getElem inside)
      have held := (List.getElem?_eq_getElem inside).trans (congrArg some record)
      refine ⟨events.length - 1, list, p, ?_, by omega, getElem?_append_of_some held more⟩
      have other : i ≠ events.length - 1 := by
        rintro rfl
        cases first.symm.trans held
      omega
    · rw [List.getElem?_append_right (Nat.le_of_not_lt early)] at first
      have same := position_unique once first second rfl rfl
      omega

end

namespace Draft

variable {base origin d d' : Draft} {log : List Entry} {queue source : Queue} {list : ListId}
  {accesses : List (ResourceId × Bool)} {done : List Queue}

/-- A draft that has gone on from another one by entering a queue and by syncs with some of the
other queues, at most one with each and none without need. -/
structure Waits (base : Draft) (log : List Entry) (queue : Queue) (list : ListId)
    (accesses : List (ResourceId × Bool)) (done : List Queue) (d : Draft) : Prop where
  ready : d.Ready log queue list
  aware : d.Aware log
  added : ∃ more, d.events = base.events ++ more ∧ (∀ e ∈ more, e.isPlain = true) ∧
    (more.filterMap Event.signal?).Sublist done
  overdue : ∀ n source waiting fence, base.events.length ≤ n →
    d.events[n]? = some (.sync source waiting fence) →
    waiting = queue ∧ Overdue d.events log accesses n source queue

theorem Consistent.waits_enter (consistent : d.Consistent log) (aware : d.Aware log)
    (queue : Queue) (accesses : List (ResourceId × Bool)) :
    Waits d log queue (d.enter queue).1 accesses [] (d.enter queue).2 := by
  obtain ⟨more, events, still⟩ := d.exists_events_enter queue
  have none : ∀ e ∈ more, e.signal? = none := fun e member => (still e member).2
  refine ⟨consistent.enter queue, aware.enter queue,
    ⟨more, events, fun e member => (still e member).1, ?_⟩, ?_⟩
  · rw [List.filterMap_eq_nil_iff.mpr none]
  · intro n source waiting fence after sync
    rw [events] at sync
    exact absurd (lt_of_sync_append none sync) (Nat.not_lt_of_le after)

theorem Waits.skip (waits : Waits base log queue list accesses done d) (source : Queue) :
    Waits base log queue list accesses (done ++ [source]) d where
  __ := waits
  added := by
    obtain ⟨more, events, plain, once⟩ := waits.added
    exact ⟨more, events, plain, once.trans (List.sublist_append_left _ _)⟩

theorem Waits.sync (waits : Waits base log queue list accesses done d) (apart : source ≠ queue)
    (tracked : origin.Tracked log) {k : Nat} (needed : origin.needed accesses source = some k)
    (missed : ¬ d.Hears queue source k) :
    Waits base log queue list accesses (done ++ [source]) (d.sync source queue) := by
  obtain ⟨fence, events⟩ := d.events_sync source queue
  have current := keeps_sync Draft.current (fun _ _ _ _ => rfl) d source queue
  refine ⟨⟨waits.ready.laid.sync source queue,
    waits.ready.timed.sync waits.ready.laid waits.ready.current apart,
    current.trans waits.ready.current⟩, waits.aware.sync waits.ready.timed apart, ?_, ?_⟩
  · obtain ⟨more, grown, plain, once⟩ := waits.added
    refine ⟨more ++ [.sync source queue fence], by rw [events, grown, List.append_assoc], ?_, ?_⟩
    · intro e member
      rcases List.mem_append.mp member with old | new
      · exact plain e old
      · exact List.mem_singleton.mp new ▸ rfl
    · simpa [Event.signal?] using once
  · intro n signal waiting fence' after sync
    rw [events] at sync ⊢
    rcases getElem?_concat_eq_some.mp sync with old | ⟨rfl, same⟩
    · have inside := (List.getElem?_eq_some_iff.mp old).1
      obtain ⟨own, overdue⟩ := waits.overdue n signal waiting fence' after old
      exact ⟨own, overdue.append (Nat.le_of_lt inside) _⟩
    · cases same
      obtain ⟨r, output, access, ref, dependency, own, ordinal⟩ := dependency_of_needed needed
      obtain ⟨e, held, ours, conflict⟩ := tracked.conflict dependency
      rw [ordinal] at held
      refine ⟨rfl, r, output, access, e, List.mem_of_getElem? held, ours.trans own, conflict, ?_⟩
      rw [List.take_left' rfl, ← ours.trans own]
      intro reaches
      have other : e.pass.queue ≠ queue := by rwa [ours, own]
      have heard := waits.aware queue k e held other reaches
      rw [ours, own] at heard
      exact missed heard

theorem Waits.syncOne (waits : Waits base log queue list accesses done d)
    (tracked : origin.Tracked log) (source : Queue) :
    Waits base log queue list accesses (done ++ [source])
      (origin.syncOne queue accesses d source) := by
  unfold Draft.syncOne
  split
  · exact waits.skip source
  · rename_i apart
    split
    · exact waits.skip source
    · rename_i k needed
      split
      · exact waits.skip source
      · rename_i missed
        exact waits.sync apart tracked needed missed

theorem Waits.foldl_syncOne (waits : Waits base log queue list accesses done d)
    (tracked : origin.Tracked log) (sources : List Queue) :
    Waits base log queue list accesses (done ++ sources)
      (sources.foldl (origin.syncOne queue accesses) d) := by
  induction sources generalizing d done with
  | nil => rwa [List.append_nil]
  | cons source sources ih =>
    rw [← List.singleton_append, ← List.append_assoc]
    exact ih (waits.syncOne tracked source)

theorem Consistent.waits (consistent : d.Consistent log) (aware : d.Aware log) (queue : Queue)
    (accesses : List (ResourceId × Bool)) :
    Waits d log queue (d.enter queue).1 accesses Queue.all
      ((d.enter queue).2.syncAll queue accesses) :=
  (consistent.waits_enter aware queue accesses).foldl_syncOne (consistent.tracked_enter queue)
    Queue.all

theorem Waits.syncsApart (waits : Waits base log queue list accesses Queue.all d)
    (apart : SyncsApart base.events)
    (ended : ∀ e ∈ base.events.getLast?, ∃ list p, e = .record list p) :
    SyncsApart d.events := by
  obtain ⟨more, events, _, once⟩ := waits.added
  rw [events]
  exact apart.extend ended (once.nodup (by decide))

end Draft

/-- A sync is for the pass recorded next, which shares a resource that one of the two outputs to
with an earlier pass of the source. By the syncs before, that pass does not reach the waiting queue
yet. -/
def SyncedForPass (events : List Event) (log : List Entry) (n : Nat) (source waiting : Queue) :
    Prop :=
  ∃ e ∈ log, ∃ f ∈ log, ∃ r, e.pass.queue = source ∧ f.pass.queue = waiting ∧
    (∃ m < n, events[m]? = some (.record e.list e.id)) ∧ RecordedNext events n f.list f.id ∧
    e.pass.touches r = true ∧ f.pass.touches r = true ∧
    (e.pass.outputsTo r = true ∨ f.pass.outputsTo r = true) ∧
    ¬ Reaches (events.take n) e.list source waiting

theorem SyncedForPass.append {events : List Event} {log : List Entry} {n : Nat}
    {source waiting : Queue} (synced : SyncedForPass events log n source waiting)
    (more : List Event) (later : List Entry) :
    SyncedForPass (events ++ more) (log ++ later) n source waiting := by
  obtain ⟨e, member, f, member', r, own, own', ⟨m, before, record⟩, next, rest⟩ := synced
  have le : n ≤ events.length := by
    obtain ⟨k, after, held, _⟩ := next
    exact Nat.le_of_lt (Nat.lt_trans after (List.getElem?_eq_some_iff.mp held).1)
  refine ⟨e, List.mem_append_left _ member, f, List.mem_append_left _ member', r, own, own',
    ⟨m, before, getElem?_append_of_some record more⟩, next.append more, ?_⟩
  rwa [List.take_append_of_le_length le]

namespace Draft

variable {b : Brief} {d d' : Draft} {log : List Entry} {p : PassId} {pass : Pass} {r : ResourceId}

theorem outputsTo_of_footprint {output : Bool} (access : (r, output) ∈ footprint pass) :
    pass.touches r = true ∧ (output = true → pass.outputsTo r = true) := by
  rw [Pass.touches_eq, Bool.or_eq_true]
  rcases List.mem_append.mp access with reads | outputs
  · obtain ⟨a, member, same⟩ := List.mem_map.mp reads
    cases same
    exact ⟨Or.inr (List.any_eq_true.mpr ⟨a, member, beq_self_eq_true _⟩), fun none => by cases none⟩
  · obtain ⟨a, member, same⟩ := List.mem_map.mp outputs
    cases same
    have writes : pass.outputsTo a.resource = true :=
      List.any_eq_true.mpr ⟨a, member, beq_self_eq_true _⟩
    exact ⟨Or.inl writes, fun _ => writes⟩

theorem Laid.exists_record (laid : d.Laid log) {e : Entry} (member : e ∈ log) :
    ∃ m < d.events.length, d.events[m]? = some (.record e.list e.id) := by
  have placed : (e.list, e.id) ∈ d.events.filterMap Event.placed? := by
    rw [laid.placed]
    exact List.mem_map_of_mem member
  obtain ⟨event, present, records⟩ := List.mem_filterMap.mp placed
  rw [Event.placed?_eq_some.mp records] at present
  obtain ⟨m, held⟩ := List.mem_iff_getElem?.mp present
  exact ⟨m, (List.getElem?_eq_some_iff.mp held).1, held⟩

structure Sparing (d : Draft) (log : List Entry) : Prop where
  aware : d.Aware log
  caused : ∀ n source waiting fence, d.events[n]? = some (.sync source waiting fence) →
    SyncedForPass d.events log n source waiting
  apart : SyncsApart d.events
  ended : ∀ e ∈ d.events.getLast?, ∃ list p, e = .record list p

theorem sparing_start (tracks : List Track) : ({ tracks } : Draft).Sparing [] where
  aware := aware_nil _
  caused n _ _ _ held := by cases held
  apart i _ _ _ _ _ _ _ held := by cases held
  ended e member := by cases member

theorem Consistent.syncedForPass (consistent : d.Consistent log) {list : ListId}
    {arrived : Draft} (waits : Waits d log pass.queue list (footprint pass) Queue.all arrived)
    {n : Nat} {source waiting : Queue} {fence : FenceId} (after : d.events.length ≤ n)
    (sync : arrived.events[n]? = some (.sync source waiting fence)) {batches : List Event}
    (still : ∀ e ∈ batches, e.placed? = none) :
    SyncedForPass (arrived.events ++ batches ++ [.record list p]) (log ++ [⟨p, pass, list⟩]) n
      source waiting := by
  obtain ⟨rfl, r, output, access, e, member, own, conflict, missed⟩ :=
    waits.overdue n source waiting fence after sync
  have inside := (List.getElem?_eq_some_iff.mp sync).1
  obtain ⟨touches, outputs⟩ := outputsTo_of_footprint access
  obtain ⟨m, before, record⟩ := consistent.laid.exists_record member
  obtain ⟨more, events, plain, _⟩ := waits.added
  have unplaced : ∀ e ∈ more ++ batches, e.placed? = none := by
    intro e member
    rcases List.mem_append.mp member with added | batch
    · have plain := plain e added
      cases e <;> simp_all [Event.isPlain, Event.placed?]
    · exact still e batch
  refine ⟨e, List.mem_append_left _ member, ⟨p, pass, list⟩, by simp, r, own, rfl, ?_, ?_, ?_,
    touches, ?_, ?_⟩
  · refine ⟨m, Nat.lt_of_lt_of_le before after, ?_⟩
    rw [events]
    simp only [List.append_assoc]
    exact getElem?_append_of_some record _
  · rw [events] at inside ⊢
    rw [List.append_assoc d.events]
    refine recordedNext_of_unplaced unplaced after ?_
    simp only [List.length_append] at inside ⊢
    omega
  · rw [Pass.touches_eq, Bool.or_eq_true]
    exact conflict.imp_right And.right
  · exact conflict.imp_right fun reads => outputs reads.1
  · rwa [List.append_assoc, List.take_append_of_le_length (Nat.le_of_lt inside)]

theorem Sparing.recordPass (sparing : d.Sparing log) (consistent : d.Consistent log)
    (recorded : d.recordPass b log.length p pass = .ok d') :
    d'.Sparing (log ++ [d.entry p pass]) := by
  have waits : Waits d log pass.queue (d.enter pass.queue).1 (footprint pass) Queue.all
      (d.arrive pass) := consistent.waits sparing.aware pass.queue (footprint pass)
  obtain ⟨batch, _, events⟩ := events_recordPass recorded
  generalize same : (if batch.isEmpty then [] else
    [Event.barriers (d.enter pass.queue).1 batch]) = batches at events
  have unplaced : ∀ e ∈ batches, e.placed? = none ∧ e.signal? = none := by
    subst same
    split
    · simp
    · simp [Event.placed?, Event.signal?]
  have still : ∀ e ∈ batches ++ [.record (d.enter pass.queue).1 p], e.signal? = none := by
    intro e member
    rcases List.mem_append.mp member with batch | record
    · exact (unplaced e batch).2
    · exact List.mem_singleton.mp record ▸ rfl
  have grown : d'.events =
      (d.arrive pass).events ++ (batches ++ [.record (d.enter pass.queue).1 p]) := by
    rw [events, List.append_assoc]
  have clocks := keeps_recordPass Draft.clocks (fun _ _ _ _ => rfl) recorded
  have current := keeps_recordPass Draft.current (fun _ _ _ _ => rfl) recorded
  refine ⟨?_, ?_, ?_, ?_⟩
  · exact (waits.aware.extend clocks grown still).concat
      ((consistent.laid_recordPass recorded).unsubmitted (current.trans waits.ready.current))
  · intro n source waiting fence sync
    rw [grown] at sync
    have inside := lt_of_sync_append still sync
    rw [List.getElem?_append_left inside] at sync
    by_cases old : n < d.events.length
    · obtain ⟨more, longer⟩ := d.events_arrive pass
      rw [← longer, List.getElem?_append_left old] at sync
      rw [grown, ← longer, List.append_assoc]
      exact (sparing.caused n source waiting fence sync).append _ _
    · rw [events]
      exact consistent.syncedForPass waits (Nat.le_of_not_lt old) sync
        fun e member => (unplaced e member).1
  · rw [grown]
    exact (waits.syncsApart sparing.apart sparing.ended).append still
  · intro e last
    rw [events, List.getLast?_concat] at last
    cases last
    exact ⟨_, _, rfl⟩

end Draft

end RenderGraph
