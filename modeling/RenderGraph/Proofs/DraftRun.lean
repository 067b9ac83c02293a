import RenderGraph.Proofs.Declared
import RenderGraph.Proofs.DraftRecord

/-! The invariant of recording: the layout, the clocks and the tracks of a draft are right, and all
passes recorded so far are in order. One more recorded pass keeps it. -/

namespace RenderGraph

def PassBatch (events : List Event) (log : List Entry) (n : Nat) (list : ListId)
    (batch : List Barrier) : Prop :=
  ∃ e ∈ log, events[n + 1]? = some (.record list e.id) ∧
    ∀ x ∈ batch, e.pass.touches x.resource = true

def Batched (events : List Event) (log : List Entry) : Prop :=
  ∀ (n : Nat) list batch, events[n]? = some (.barriers list batch) →
    PassBatch events log n list batch

section

variable {log : List Entry} {events later : List Event} {n : Nat} {list : ListId}
  {batch : List Barrier}

theorem getElem?_of_old {k : Nat} {e f : Entry} (held : log[k]? = some f) :
    (log ++ [e])[k]? = some f :=
  getElem?_concat_eq_some.mpr (Or.inl held)

theorem PassBatch.append (placed : PassBatch events log n list batch) (more : List Event) :
    PassBatch (events ++ more) log n list batch := by
  obtain ⟨e, member, next, touches⟩ := placed
  exact ⟨e, member, getElem?_append_of_some next more, touches⟩

theorem PassBatch.concat (placed : PassBatch events log n list batch) (e : Entry) :
    PassBatch events (log ++ [e]) n list batch := by
  obtain ⟨f, member, next, touches⟩ := placed
  exact ⟨f, List.mem_append_left [e] member, next, touches⟩

theorem Batched.append (batched : Batched events log) {more : List Event}
    (none : ∀ list batch, Event.barriers list batch ∉ more) : Batched (events ++ more) log := by
  intro n list batch held
  have inside : n < events.length := by
    apply Nat.lt_of_not_le
    intro outside
    rw [List.getElem?_append_right outside] at held
    exact none list batch (List.mem_of_getElem? held)
  rw [List.getElem?_append_left inside] at held
  exact (batched n list batch held).append more

theorem Batched.extend (batched : Batched events log) (continues : Continues events later) :
    Batched later log := by
  obtain ⟨more, rfl, plain⟩ := continues
  exact batched.append fun list batch member => by cases plain _ member

theorem Batched.concat (batched : Batched events log) (e : Entry) :
    Batched events (log ++ [e]) :=
  fun n list batch held => (batched n list batch held).concat e

theorem Batched.barriers {e : Entry} (batched : Batched events log)
    (touches : ∀ x ∈ batch, e.pass.touches x.resource = true) :
    Batched (events ++ [.barriers list batch] ++ [.record list e.id]) (log ++ [e]) := by
  intro n list' batch' held
  rcases Nat.lt_trichotomy n events.length with low | rfl | high
  · have old : events[n]? = some (.barriers list' batch') := by
      rw [← held, List.append_assoc, List.getElem?_append_left low]
    rw [List.append_assoc]
    exact ((batched n list' batch' old).append _).concat e
  · have same : list = list' ∧ batch = batch' := by simpa using held
    obtain ⟨rfl, rfl⟩ := same
    exact ⟨e, by simp, by simp, touches⟩
  · have bound := (List.getElem?_eq_some_iff.mp held).1
    have last : n = events.length + 1 := by
      simp only [List.length_append, List.length_singleton] at bound
      omega
    subst last
    simp at held

end

namespace Track

variable {log : List Entry} {e : Entry} {r : ResourceId} {t t' : Track}

theorem remembers_of_outputs (outputs : e.pass.outputsTo r = true)
    (writer : t.lastWriter = some ⟨log.length, e.pass.queue⟩) (readers : t.readers = []) :
    t.Remembers (log ++ [e]) r := by
  have before {k : Nat} {f : Entry} (held : (log ++ [e])[k]? = some f) : k ≤ log.length := by
    rcases getElem?_concat_eq_some.mp held with old | ⟨same, _⟩
    · exact Nat.le_of_lt (List.getElem?_eq_some_iff.mp old).1
    · exact Nat.le_of_eq same
  constructor
  · intro k f held _
    exact ⟨_, writer, before held⟩
  · intro w last
    rw [writer] at last
    cases last
    exact ⟨e, getElem?_concat_eq_some.mpr (Or.inr ⟨rfl, rfl⟩), rfl, outputs⟩
  · intro k f held _
    exact Or.inl ⟨_, writer, before held⟩
  · intro ref member
    rw [readers] at member
    cases member

theorem Remembers.concat (remembers : t.Remembers log r) (outputs : ¬ e.pass.outputsTo r = true)
    (writer : t'.lastWriter = t.lastWriter)
    (readers : ∀ ref, ref ∈ t'.readers ↔
      ref ∈ t.readers ∨ e.pass.readsFrom r = true ∧ ref = ⟨log.length, e.pass.queue⟩) :
    t'.Remembers (log ++ [e]) r := by
  constructor
  · intro k f held writes
    rw [writer]
    rcases getElem?_concat_eq_some.mp held with old | ⟨_, rfl⟩
    · exact remembers.written k f old writes
    · exact absurd writes outputs
  · intro w last
    rw [writer] at last
    obtain ⟨f, held, rest⟩ := remembers.writer w last
    exact ⟨f, getElem?_of_old held, rest⟩
  · intro k f held reads
    rw [writer, readers]
    rcases getElem?_concat_eq_some.mp held with old | ⟨rfl, rfl⟩
    · exact (remembers.read k f old reads).imp_right Or.inl
    · exact Or.inr (Or.inr ⟨reads, rfl⟩)
  · intro ref member
    rcases (readers ref).mp member with old | ⟨reads, rfl⟩
    · obtain ⟨f, held, rest⟩ := remembers.reader ref old
      exact ⟨f, getElem?_of_old held, rest⟩
    · exact ⟨e, getElem?_concat_eq_some.mpr (Or.inr ⟨rfl, rfl⟩), rfl, reads⟩

end Track

namespace Draft

variable {b : Brief} {d d' : Draft} {log : List Entry} {p : PassId} {pass : Pass} {r : ResourceId}

def entry (d : Draft) (p : PassId) (pass : Pass) : Entry := ⟨p, pass, (d.enter pass.queue).1⟩

structure Consistent (d : Draft) (log : List Entry) : Prop where
  laid : d.Laid log
  timed : d.Timed log
  tracked : d.Tracked log
  sequenced : Sequenced d.events log
  batched : Batched d.events log
  within : ∀ e ∈ log, e.pass.Within d.tracks.length

theorem consistent_start (tracks : List Track)
    (fresh : ∀ t ∈ tracks, t.lastWriter = none ∧ t.readers = []) :
    ({ tracks } : Draft).Consistent [] := by
  have unused (r : ResourceId) :
      (({ tracks } : Draft).track r).lastWriter = none ∧
        (({ tracks } : Draft).track r).readers = [] := by
    simp only [track, List.getD_eq_getElem?_getD]
    cases held : tracks[r.index]? with
    | none => exact ⟨rfl, rfl⟩
    | some t => exact fresh t (List.mem_of_getElem? held)
  have tracked : ({ tracks } : Draft).Tracked [] :=
    fun r _ => Track.remembers_nil r (unused r).1 (unused r).2
  refine ⟨laid_start tracks, ⟨?_, ?_, ?_, ?_, ?_⟩, tracked, ?_, ?_, ?_⟩
  · intro q k covered
    simp [PerQueue.get_fill, covers] at covered
  · intro k e held
    cases held
  · intro q k hears
    simp [Hears, PerQueue.get_fill, covers] at hears
  · intro w q k hears
    simp [Hears, PerQueue.get_fill, covers] at hears
  · intro w k e held
    cases held
  · intro r j k e f before first
    cases first
  · intro n list batch held
    cases held
  · intro e member
    cases member

theorem Timed.mono (timed : d.Timed log) (clocks : d'.clocks = d.clocks)
    (lastOn : d'.lastOn = d.lastOn) (longer : d.events <+: d'.events) : d'.Timed log := by
  constructor
  · rw [lastOn]
    exact timed.recorded
  · rw [lastOn]
    exact timed.latest
  · unfold Hears
    rw [clocks]
    exact timed.own
  · unfold Hears
    rw [clocks, lastOn]
    exact timed.bounded
  · unfold Hears
    rw [clocks]
    intro w k e held hears
    exact (timed.sound w k e held hears).mono longer

theorem Consistent.enter (consistent : d.Consistent log) (queue : Queue) :
    (d.enter queue).2.Ready log queue (d.enter queue).1 where
  laid := consistent.laid.enter queue
  timed := consistent.timed.mono (keeps_enter clocks (fun _ _ _ _ => rfl) d queue)
    (keeps_enter lastOn (fun _ _ _ _ => rfl) d queue) (d.events_enter queue)
  current := current_enter d queue

theorem Consistent.tracked_enter (consistent : d.Consistent log) (queue : Queue) :
    (d.enter queue).2.Tracked log :=
  consistent.tracked.congr (fun r => keeps_enter (·.users r) (fun _ _ _ _ => rfl) d queue)
    (congrArg List.length (keeps_enter tracks (fun _ _ _ _ => rfl) d queue))

theorem Consistent.arrive (consistent : d.Consistent log) (pass : Pass) :
    (d.arrive pass).Ready log pass.queue (d.enter pass.queue).1 :=
  (consistent.enter pass.queue).syncAll (footprint pass)

theorem Timed.record (timed : d.Timed log) (e : Entry) (clocks : d'.clocks = d.clocks)
    (lastOn : d'.lastOn = d.lastOn.set e.pass.queue (some log.length))
    (longer : d.events <+: d'.events) : d'.Timed (log ++ [e]) := by
  have grows (q : Queue) (k : Nat) (covered : covers (d.lastOn.get q) k = true) :
      covers (d'.lastOn.get q) k = true := by
    rw [lastOn, PerQueue.get_set]
    split
    · exact covers_eq_true.mpr ⟨_, rfl, Nat.le_of_lt (timed.recorded q k covered)⟩
    · exact covered
  have hears (w q : Queue) (k : Nat) : d'.Hears w q k ↔ d.Hears w q k := by
    unfold Hears
    rw [clocks]
  constructor
  · intro q k covered
    rw [lastOn, PerQueue.get_set] at covered
    rw [List.length_append, List.length_singleton]
    split at covered
    · obtain ⟨n, last, le⟩ := covers_eq_true.mp covered
      cases last
      exact Nat.lt_succ_of_le le
    · exact Nat.lt_succ_of_lt (timed.recorded q k covered)
  · intro k f held
    rcases getElem?_concat_eq_some.mp held with old | ⟨rfl, rfl⟩
    · exact grows _ k (timed.latest k f old)
    · rw [lastOn, PerQueue.get_set, if_pos rfl]
      exact covers_eq_true.mpr ⟨_, rfl, Nat.le_refl _⟩
  · intro q k heard
    exact timed.own q k ((hears q q k).mp heard)
  · intro w q k heard
    exact grows q k (timed.bounded w q k ((hears w q k).mp heard))
  · intro w k f held heard
    have before := (hears w _ k).mp heard
    have old := timed.recorded _ k (timed.bounded w _ k before)
    rw [List.getElem?_append_left old] at held
    exact (timed.sound w k f held before).mono longer

theorem Tracked.remember (tracked : d.Tracked log) (e : Entry) :
    (d.remember ⟨log.length, e.pass.queue⟩ e.pass).Tracked (log ++ [e]) := by
  intro r inside
  rw [length_tracks_remember] at inside
  by_cases outputs : e.pass.outputsTo r = true
  · obtain ⟨writer, readers⟩ := Prod.mk.inj
      (users_remember_of_outputs ⟨log.length, e.pass.queue⟩ inside outputs)
    exact Track.remembers_of_outputs outputs writer readers
  · obtain ⟨writer, readers⟩ :=
      users_remember_of_not_outputs ⟨log.length, e.pass.queue⟩ inside outputs
    exact (tracked r inside).concat outputs writer readers

theorem Laid.emitBatch (laid : d.Laid log) (list : ListId) (batch : List Barrier) :
    (d.emitBatch list batch).Laid log := by
  unfold Draft.emitBatch
  split
  · exact laid
  · exact laid.emit ⟨rfl, rfl⟩

theorem Consistent.laid_recordPass {ordinal : Nat} (consistent : d.Consistent log)
    (recorded : d.recordPass b ordinal p pass = .ok d') :
    d'.Laid (log ++ [d.entry p pass]) := by
  obtain ⟨batch, _, events⟩ := events_recordPass recorded
  have ready := consistent.arrive pass
  have current : ((d.arrive pass).emitBatch (d.enter pass.queue).1 batch).current =
      some (pass.queue, (d.enter pass.queue).1) :=
    (keeps_emitBatch Draft.current (fun _ _ => rfl) _ _ batch).trans ready.current
  have laid := (ready.laid.emitBatch (d.enter pass.queue).1 batch).record current p rfl
  refine laid.congr ?_ ?_ ?_
  · rw [events]
    simp only [emit, Draft.emitBatch]
    split <;> simp
  · rw [keeps_recordPass lists (fun _ _ _ _ => rfl) recorded]
    exact (keeps_emitBatch lists (fun _ _ => rfl) _ _ batch).symm
  · rw [keeps_recordPass Draft.current (fun _ _ _ _ => rfl) recorded]
    exact (keeps_emitBatch Draft.current (fun _ _ => rfl) _ _ batch).symm

theorem Consistent.reaches_arrived (consistent : d.Consistent log)
    (within : pass.Within d.tracks.length) {j : Nat} {e : Entry} (held : log[j]? = some e)
    (apart : e.pass.queue ≠ pass.queue) (touches : e.pass.touches r = true)
    (touched : pass.touches r = true)
    (output : OutputBetween (log ++ [d.entry p pass]) r j log.length) :
    Reaches (d.arrive pass).events e.list e.pass.queue pass.queue := by
  have ready := consistent.enter pass.queue
  have tracks := keeps_enter tracks (fun _ _ _ _ => rfl) d pass.queue
  have tracked := consistent.tracked_enter pass.queue
  have sequenced := consistent.sequenced.mono (d.events_enter pass.queue)
  obtain ⟨a, access, equal⟩ := List.any_eq_true.mp touched
  have inside : r.index < (d.enter pass.queue).2.tracks.length := by
    rw [tracks, ← eq_of_beq equal]
    exact within a access
  by_cases writes : pass.outputsTo r = true
  · have member : (r, true) ∈ footprint pass := by
      obtain ⟨a, access, equal⟩ := List.any_eq_true.mp writes
      rw [← eq_of_beq equal]
      exact List.mem_append_right _ (List.mem_map.mpr ⟨a, access, rfl⟩)
    exact ready.reaches_shared tracked sequenced member inside held apart touches (Or.inl rfl)
  · have reads : pass.readsFrom r = true := by
      rw [Pass.touches_eq, Bool.or_eq_true] at touched
      exact touched.resolve_left writes
    have member : (r, false) ∈ footprint pass := by
      obtain ⟨a, access, equal⟩ := List.any_eq_true.mp reads
      rw [← eq_of_beq equal]
      exact List.mem_append_left _ (List.mem_map.mpr ⟨a, access, rfl⟩)
    obtain ⟨w, g, le, _, found, outputs⟩ := output
    have old : log[w]? = some g := by
      rcases getElem?_concat_eq_some.mp found with old | ⟨_, rfl⟩
      · exact old
      · exact absurd outputs writes
    exact ready.reaches_shared tracked sequenced member inside held apart touches
      (Or.inr ⟨w, g, le, old, outputs⟩)

theorem Consistent.sequenced_recordPass {ordinal : Nat} (consistent : d.Consistent log)
    (within : pass.Within d.tracks.length)
    (recorded : d.recordPass b ordinal p pass = .ok d') :
    Sequenced d'.events (log ++ [d.entry p pass]) := by
  have longer : (d.arrive pass).events <+: d'.events := events_le_recordPass recorded
  have extended : d.events <+: d'.events := (d.events_arrive pass).trans longer
  intro r j k e f before first second apart touches touched output
  have inside := (List.getElem?_eq_some_iff.mp second).1
  rw [List.length_append, List.length_singleton] at inside
  have old : log[j]? = some e := by
    rw [← first, List.getElem?_append_left (by omega)]
  rcases getElem?_concat_eq_some.mp second with earlier | ⟨rfl, rfl⟩
  · obtain ⟨w, g, low, high, found, outputs⟩ := output
    have inside := (List.getElem?_eq_some_iff.mp earlier).1
    have here : log[w]? = some g := by
      rw [← found, List.getElem?_append_left (by omega)]
    exact (consistent.sequenced r j k e f before old earlier apart touches touched
      ⟨w, g, low, high, here, outputs⟩).mono extended
  · have reaches := consistent.reaches_arrived within old apart touches touched output
    have ready := consistent.arrive pass
    exact (reaches.before (ready.laid.unsubmitted ready.current)).mono longer

theorem Consistent.batched_recordPass {ordinal : Nat} (consistent : d.Consistent log)
    (recorded : d.recordPass b ordinal p pass = .ok d') :
    Batched d'.events (log ++ [d.entry p pass]) := by
  obtain ⟨batch, touches, events⟩ := events_recordPass recorded
  have arrived := consistent.batched.extend (d.continues_arrive pass)
  rw [events]
  split
  · rw [List.append_nil]
    exact (arrived.concat _).append fun _ _ member => by cases List.mem_singleton.mp member
  · exact arrived.barriers (e := d.entry p pass) touches

theorem Consistent.recordPass (consistent : d.Consistent log)
    (within : pass.Within d.tracks.length)
    (recorded : d.recordPass b log.length p pass = .ok d') :
    d'.Consistent (log ++ [d.entry p pass]) where
  laid := consistent.laid_recordPass recorded
  timed := by
    refine (consistent.arrive pass).timed.record (d.entry p pass) ?_ ?_
      (events_le_recordPass recorded)
    · exact keeps_recordPass clocks (fun _ _ _ _ => rfl) recorded
    · rw [lastOn_recordPass recorded, keeps_arrive lastOn fun _ _ _ _ _ _ => rfl]
      rfl
  tracked := by
    obtain ⟨before, rfl, length, users⟩ := recordPass_eq_remember recorded
    exact (consistent.tracked.congr users length).remember (d.entry p pass)
  sequenced := consistent.sequenced_recordPass within recorded
  batched := consistent.batched_recordPass recorded
  within := by
    intro e member
    rw [length_tracks_recordPass recorded]
    rcases List.mem_append.mp member with old | new
    · exact consistent.within e old
    · rw [List.mem_singleton.mp new]
      exact within

end Draft

end RenderGraph
