import RenderGraph.Proofs.BarrierPlacement
import RenderGraph.Proofs.ResourceRoute
import RenderGraph.Proofs.SceneStaged
import RenderGraph.Proofs.StateChain
import RenderGraph.Proofs.TablesInRange

/-! The part of a schedule that belongs to one pass. The pass finds the resources in the states that
the passes before it have left, its batch takes each of them along its route, and a batch that
belongs to no pass is the one that restores states. -/

namespace RenderGraph

namespace Draft

variable {b : Brief} {d d' : Draft} {ordinal : Nat} {pass : Pass} {queue : Queue} {output : Bool}
  {accesses : List Access} {batch batch' : List Barrier} {r : ResourceId}

theorem recordAll_append (xs ys : List (PassId × Pass)) :
    recordAll b ordinal (xs ++ ys) d =
      (recordAll b ordinal xs d).bind (recordAll b (ordinal + xs.length) ys) := by
  induction xs generalizing ordinal d with
  | nil => rfl
  | cons head xs ih =>
    obtain ⟨p, pass⟩ := head
    simp only [List.cons_append, recordAll]
    split
    · rfl
    · rw [ih, List.length_cons, Nat.add_assoc, Nat.add_comm 1]

theorem events_recordAll {todo : List (PassId × Pass)}
    (recorded : recordAll b ordinal todo d = .ok d') : d.events <+: d'.events := by
  induction todo generalizing ordinal d with
  | nil =>
    cases recorded
    exact List.prefix_refl _
  | cons head todo ih =>
    obtain ⟨p, pass⟩ := head
    rw [recordAll] at recorded
    split at recorded
    · cases recorded
    · rename_i next one
      exact ((d.events_arrive pass).trans (events_le_recordPass one)).trans (ih recorded)

theorem unnamed_of_serveAll
    (serves : serveAll b ordinal queue output accesses (d, batch) = .ok (d', batch'))
    (none : d.states r = none) : ∀ a ∈ accesses, r ≠ a.resource := by
  induction accesses generalizing d batch with
  | nil => exact fun _ member => by cases member
  | cons first rest ih =>
    obtain ⟨current, state, later⟩ := serveAll_cons_ok serves
    have apart : r ≠ first.resource := by
      rintro rfl
      exact Option.some_ne_none _ (state.symm.trans none)
    intro a member
    rcases List.mem_cons.mp member with rfl | after
    · exact apart
    · refine ih later ?_ a after
      unfold states
      rw [track_modifyTrack, if_neg fun both => apart both.1]
      exact none

end Draft

def passBlock (list : ListId) (batch : List Barrier) (p : PassId) : List Event :=
  (if batch.isEmpty then [] else [.barriers list batch]) ++ [.record list p]

/-- No batch stands at the end of the events. -/
def Followed (events : List Event) : Prop :=
  ∀ list batch, events.getLast? ≠ some (.barriers list batch)

theorem Followed.of_cons {e : Event} {rest : List Event} (followed : Followed (e :: rest)) :
    Followed rest := by
  intro list batch last
  apply followed list batch
  simp [List.getLast?_cons, last]

theorem Declaration.replay_append (d : Declaration) {s : States} {events : List Event}
    (followed : Followed events) (more : List Event) :
    d.replay s (events ++ more) =
      ⟨(d.replay s events).moments ++ (d.replay (d.replay s events).last more).moments,
        (d.replay (d.replay s events).last more).last⟩ := by
  fun_induction Declaration.replay d s events with
  | case1 => rfl
  | case2 s list batch into p rest begun ready ih =>
    have step := ih followed.of_cons.of_cons
    simp only [begun, ready] at step ⊢
    simp only [List.cons_append, Declaration.replay, step, Replay.after]
  | case3 s list batch rest other ih =>
    cases rest with
    | nil => exact absurd rfl (followed list batch)
    | cons e rest =>
      have step := ih followed.of_cons
      rw [List.cons_append, List.cons_append, Declaration.replay, ← List.cons_append, step]
      · rfl
      · intro into p rest same
        cases same
        exact other _ _ _ rfl
  | case4 s into p rest begun ih =>
    have step := ih followed.of_cons
    simp only [begun] at step ⊢
    simp only [List.cons_append, Declaration.replay, step, Replay.after]
  | case5 s e rest _ notBarriers notRecord ih =>
    have step := ih followed.of_cons
    rw [List.cons_append, Declaration.replay, step]
    · rfl
    · exact fun _ _ _ _ _ same _ => notBarriers _ _ same
    · exact notBarriers
    · exact notRecord

theorem Declaration.replay_plain (d : Declaration) (s : States) {events : List Event}
    (plain : ∀ e ∈ events, e.isPlain = true) : d.replay s events = ⟨events.map (·, s), s⟩ := by
  induction events with
  | nil => rfl
  | cons e events ih =>
    have here := plain e List.mem_cons_self
    have rest := ih fun e member => plain e (List.mem_cons_of_mem _ member)
    cases e with
    | barriers | record => cases here
    | openList | submit | sync => rw [replay, rest] <;> simp [Replay.after]

theorem Declaration.replay_passBlock (d : Declaration) (s : States) (list : ListId)
    (batch : List Barrier) (p : PassId) :
    d.replay s (passBlock list batch p) =
      ⟨(if batch.isEmpty then [] else [(.barriers list batch, s.begin d p)]) ++
          [(.record list p, (s.begin d p).crossAll batch)],
        ((s.begin d p).crossAll batch).finish d p⟩ := by
  unfold passBlock
  split
  · rename_i isEmpty
    rw [List.isEmpty_iff.mp isEmpty]
    simp [replay, Replay.after, States.crossAll]
  · simp [replay, Replay.after]

namespace Brief

/-- The states that are tracked once the first `n` surviving passes are recorded. -/
def tracked (b : Brief) (n : Nat) : States :=
  match Draft.recordAll b 0 (b.live.take n) { tracks := b.startTracks } with
  | .ok d => d.states
  | .error _ => fun _ => none

/-- The states in which the `n`-th pass finds the resources, those that it creates included. -/
def found (b : Brief) (n : Nat) (pass : Pass) : States := (b.tracked n).enter pass.creates

/-- The `n`-th surviving pass in a schedule: the draft it is recorded into, and its batch. -/
structure Turn (b : Brief) (s : Schedule) (n : Nat) (p : PassId) (pass : Pass) (d : Draft)
    (list : ListId) (batch : List Barrier) : Prop where
  entry : b.live[n]? = some (p, pass)
  drafted : Draft.recordAll b 0 (b.live.take n) { tracks := b.startTracks } = .ok d
  events : (d.arrive pass).events ++ passBlock list batch p <+: s.events
  next : ∃ d', Draft.recordAll b 0 (b.live.take (n + 1)) { tracks := b.startTracks } = .ok d' ∧
    d'.events = (d.arrive pass).events ++ passBlock list batch p
  queue : s.listQueue? list = some pass.queue
  /-- On the copy queue the pass brings its resources into their states by itself. -/
  copies : pass.queue = .copy → batch = [] ∧
    b.tracked (n + 1) = (b.found n pass).enter (pass.reads ++ pass.writes)
  routes : pass.queue ≠ .copy → ∀ r state, b.found n pass r = some state →
    transitionsOf r batch = (b.route n pass r state).steps ∧
      b.tracked (n + 1) r = some (b.route n pass r state).state
  misses : ∀ r, b.found n pass r = none →
    transitionsOf r batch = [] ∧ b.tracked (n + 1) r = none ∧
      ∀ a ∈ pass.reads ++ pass.writes, r ≠ a.resource

variable {b : Brief} {s : Schedule} {d : Draft} {n : Nat} {p : PassId} {pass : Pass}
  {list : ListId} {batch : List Barrier}

theorem tracked_of_drafted
    (drafted : Draft.recordAll b 0 (b.live.take n) { tracks := b.startTracks } = .ok d) :
    b.tracked n = d.states := by
  rw [tracked, drafted]

theorem exists_drafts (entry : b.live[n]? = some (p, pass)) {last : Draft}
    (made : b.draft = .ok last) :
    ∃ d d', Draft.recordAll b 0 (b.live.take n) { tracks := b.startTracks } = .ok d ∧
      d.recordPass b n p pass = .ok d' ∧
      Draft.recordAll b 0 (b.live.take (n + 1)) { tracks := b.startTracks } = .ok d' ∧
      Draft.recordAll b (n + 1) (b.live.drop (n + 1)) d' = .ok last := by
  obtain ⟨inside, held⟩ := List.getElem?_eq_some_iff.mp entry
  have all := recordAll_of_draft made
  have upTo : b.live.take (n + 1) = b.live.take n ++ [(p, pass)] := by
    rw [List.take_succ_eq_append_getElem inside, held]
  have before : (b.live.take n).length = n := List.length_take_of_le (Nat.le_of_lt inside)
  have through : (b.live.take (n + 1)).length = n + 1 := List.length_take_of_le inside
  rw [← List.take_append_drop (n + 1) b.live, Draft.recordAll_append, through,
    Nat.zero_add] at all
  cases done : Draft.recordAll b 0 (b.live.take (n + 1)) { tracks := b.startTracks } with
  | error stop =>
    rw [done] at all
    cases all
  | ok d' =>
    rw [done] at all
    have parts := done
    rw [upTo, Draft.recordAll_append, before, Nat.zero_add] at parts
    cases first : Draft.recordAll b 0 (b.live.take n) { tracks := b.startTracks } with
    | error stop =>
      rw [first] at parts
      cases parts
    | ok d =>
      rw [first] at parts
      change Draft.recordAll b n [(p, pass)] d = .ok d' at parts
      simp only [Draft.recordAll] at parts
      split at parts
      · cases parts
      · rename_i next recorded
        cases parts
        exact ⟨d, d', rfl, recorded, rfl, all⟩

theorem Turn.followed (turn : b.Turn s n p pass d list batch) (closed : b.declaration.Closed) :
    Followed (d.arrive pass).events := by
  have within : ∀ entry ∈ b.live.take n,
      entry.2.Within ({ tracks := b.startTracks } : Draft).tracks.length := by
    intro entry member
    rw [Draft.length_startTracks]
    exact closed _ (Declaration.mem_passes_of_mem_survivors (List.mem_of_mem_take member))
  obtain ⟨log, _, consistent, _⟩ := (Draft.consistent_startTracks b).recordAll
    (P := fun _ _ => True) (fun _ _ _ _ => trivial) trivial within turn.drafted
  intro into barriers last
  rw [List.getLast?_eq_getElem?] at last
  have inside := consistent.followed pass _ into barriers last
  omega

theorem listQueue?_of_record (made : b.schedule = .ok s) (closed : b.declaration.Closed)
    (survives : (p, pass) ∈ b.live) (record : .record list p ∈ s.events) :
    s.listQueue? list = some pass.queue := by
  obtain ⟨log, same, follows⟩ := follows_of_schedule closed made
  obtain ⟨e, member, rfl, named⟩ := follows.exists_entry record
  have alive : (e.id, e.pass) ∈ b.live := same ▸ List.mem_map.mpr ⟨e, member, rfl⟩
  have held := Declaration.pass?_of_mem_survivors alive
  rw [named, Declaration.pass?_of_mem_survivors survives] at held
  cases held
  exact follows.queues e member

theorem exists_turn (closed : b.declaration.Closed) (made : b.schedule = .ok s)
    (entry : b.live[n]? = some (p, pass)) :
    ∃ d list batch, b.Turn s n p pass d list batch := by
  have queues (list : ListId) (record : .record list p ∈ s.events) :=
    listQueue?_of_record made closed (List.mem_of_getElem? entry) record
  obtain ⟨last, drafted, rfl⟩ := exists_draft made
  have survives : (p, pass) ∈ b.live := List.mem_of_getElem? entry
  obtain ⟨d, d', before, recorded, after, later⟩ := exists_drafts entry drafted
  obtain ⟨read, served, batch, reads, writes, recorded'⟩ := Draft.recordPass_ok recorded
  have within : pass.Within d.tracks.length := by
    rw [Draft.length_tracks_of_start before]
    exact closed _ (Declaration.mem_passes_of_mem_survivors survives)
  have found : (d.prepare pass).states = b.found n pass := by
    rw [Draft.states_prepare d within, found, tracked_of_drafted before]
  have leaves : b.tracked (n + 1) = served.states := by
    rw [tracked_of_drafted after, recorded', Draft.states_remember]
    exact Draft.keeps_emitBatch Draft.states (fun _ _ => rfl) served _ batch
  have here : d'.events = (d.arrive pass).events ++
      passBlock (d.enter pass.queue).1 batch p := by
    rw [recorded', Draft.events_served reads writes, passBlock, List.append_assoc]
  have events : (d.arrive pass).events ++ passBlock (d.enter pass.queue).1 batch p <+:
      (b.finish last).events := by
    rw [← here]
    exact (Draft.events_recordAll later).trans
      ((last.events_restoreAll _).trans (Draft.continues_submitCurrent _).isPrefix)
  have record : .record (d.enter pass.queue).1 p ∈ (b.finish last).events :=
    events.subset (by simp [passBlock])
  refine ⟨d, _, batch, entry, before, events, ⟨d', after, here⟩, queues _ record, ?_, ?_, ?_⟩
  · intro onCopy
    rw [onCopy] at reads writes
    -- The copy queue records no transitions; the states are taken as the pass asks for them.
    obtain ⟨afterReads, none⟩ := Draft.states_serveAll_copy reads
    obtain ⟨afterWrites, none'⟩ := Draft.states_serveAll_copy writes
    refine ⟨none'.trans none, ?_⟩
    rw [leaves, afterWrites, afterReads, found]
    simp only [States.enter, List.foldl_append]
  · intro notCopy r state held
    have records : pass.queue.recordsTransitions = true := bne_iff_ne.mpr notCopy
    obtain ⟨reached, steps⟩ := Draft.carries_served records reads writes (found ▸ held)
    exact ⟨steps, leaves ▸ reached⟩
  · intro r none
    have unread := Draft.unnamed_of_serveAll reads (found ▸ none)
    obtain ⟨kept, fresh⟩ := Draft.serveAll_other reads unread
    have none' : read.1.states r = Option.none := kept.trans (found ▸ none)
    have unwritten := Draft.unnamed_of_serveAll writes none'
    obtain ⟨kept', same'⟩ := Draft.serveAll_other writes unwritten
    refine ⟨same'.trans fresh, leaves ▸ kept'.trans none', fun a member => ?_⟩
    exact (List.mem_append.mp member).elim (unread a) (unwritten a)

theorem Turn.record (turn : b.Turn s n p pass d list batch) :
    s.events[(d.arrive pass).events.length + if batch.isEmpty then 0 else 1]? =
      some (.record list p) := by
  obtain ⟨more, events⟩ := turn.events
  rw [← events, passBlock, List.append_assoc, List.getElem?_append_right (Nat.le_add_right _ _),
    Nat.add_sub_cancel_left]
  split <;> rfl

theorem Turn.begin_eq (turn : b.Turn s n p pass d list batch) (states : States) :
    states.begin b.declaration p = states.enter pass.creates := by
  rw [States.begin, Declaration.pass?_of_mem_survivors (List.mem_of_getElem? turn.entry)]
  rfl

theorem Turn.recordedInto (turn : b.Turn s n p pass d list batch) (closed : b.declaration.Closed)
    (made : b.schedule = .ok s) : s.RecordedInto p list := by
  obtain ⟨log, same, follows⟩ := follows_of_schedule closed made
  obtain ⟨e, member, rfl, rfl⟩ := follows.exists_entry (List.mem_of_getElem? turn.record)
  exact follows.recordedInto (nodup_ids same) member

theorem Turn.batch_eq (turn : b.Turn s n p pass d list batch) (closed : b.declaration.Closed)
    {m : Nat} {into : ListId} {barriers : List Barrier}
    (held : s.events[m]? = some (.barriers into barriers))
    (next : m + 1 = (d.arrive pass).events.length + if batch.isEmpty then 0 else 1) :
    (into = list ∧ barriers = batch) ∧ m = (d.arrive pass).events.length := by
  obtain ⟨more, events⟩ := turn.events
  rw [← events, passBlock, List.append_assoc] at held
  split at next
  · rw [List.getElem?_append_left (by omega)] at held
    exfalso
    apply turn.followed closed into barriers
    have last : m = (d.arrive pass).events.length - 1 := by omega
    rw [List.getLast?_eq_getElem?, ← last]
    exact held
  · rename_i some
    obtain rfl : m = (d.arrive pass).events.length := by omega
    exact ⟨by simpa [some, eq_comm] using held, rfl⟩

theorem restoration_of_restoresAt (closed : b.declaration.Closed) {last : Draft}
    (drafted : b.draft = .ok last) {m : Nat} (restores : (b.finish last).RestoresAt m list batch) :
    batch = (last.restoration b).map .transition ∧
      (b.finish last).listQueue? list = some (last.restoreQueue (last.restoration b)) := by
  obtain ⟨held, submitted, length⟩ := restores
  obtain ⟨log, _, consistent, _⟩ := Draft.consistent_draft closed drafted
  obtain ⟨more, rest, plain, events, ends⟩ := last.events_finish (last.restoration b)
  change (b.finish last).events = _ at events
  rcases ends with ⟨_, rfl⟩ | ⟨some, into, rfl, rfl⟩
  · -- Where nothing is restored, every batch is followed by a pass.
    rw [events, List.append_nil] at held submitted
    exfalso
    by_cases inside : m < last.events.length
    · rw [List.getElem?_append_left inside] at held
      obtain ⟨e, _, next, _⟩ := consistent.batched m list batch held
      rw [getElem?_append_of_some next] at submitted
      cases submitted
    · rw [List.getElem?_append_right (Nat.le_of_not_lt inside)] at held
      cases plain _ (List.mem_of_getElem? held)
  · have place : m = (last.events ++ more).length := by
      rw [events] at length
      simp only [List.length_append, List.length_cons, List.length_nil] at length ⊢
      omega
    rw [events, ← List.append_assoc, place, List.getElem?_append_right (Nat.le_refl _),
      Nat.sub_self, List.getElem?_cons_zero] at held
    cases held
    have ready := (consistent.enter (last.restoreQueue (last.restoration b))).syncAll
      ((last.restoration b).map fun t => (t.resource, true))
    have lists : (b.finish last).lists = (last.restoring (last.restoration b)).lists :=
      (Draft.lists_submitCurrent _).trans (Draft.keeps_restoreAll Draft.lists (fun _ _ => rfl) some)
    rw [Schedule.listQueue?, lists]
    exact ⟨rfl, (ready.laid.list_of_current ready.current).2⟩

theorem turn_or_restoration (closed : b.declaration.Closed) (made : b.schedule = .ok s) {m : Nat}
    (held : s.events[m]? = some (.barriers list batch)) :
    (∃ n p pass d, b.Turn s n p pass d list batch ∧ s.events[m + 1]? = some (.record list p) ∧
      m = (d.arrive pass).events.length) ∨
      s.RestoresAt m list batch ∧ ∃ last, b.draft = .ok last ∧
        batch = (last.restoration b).map .transition ∧
        s.listQueue? list = some (last.restoreQueue (last.restoration b)) := by
  obtain ⟨log, same, follows⟩ := follows_of_schedule closed made
  rcases follows.batched m list batch held with
    ⟨e, recorded, next, _⟩ | ⟨queue, _, submitted, length, _⟩
  · have survives : (e.id, e.pass) ∈ b.live := same ▸ List.mem_map.mpr ⟨e, recorded, rfl⟩
    obtain ⟨n, entry⟩ := List.mem_iff_getElem?.mp survives
    obtain ⟨d, into, batch', turn⟩ := exists_turn closed made entry
    obtain ⟨k, once⟩ := follows.recordedInto (nodup_ids same) recorded
    have here := ((once _ _).mp turn.record).1
    have there := ((once _ _).mp next).1
    obtain ⟨⟨rfl, rfl⟩, place⟩ := turn.batch_eq closed held (there.trans here.symm)
    exact Or.inl ⟨n, e.id, e.pass, d, turn, next, place⟩
  · obtain ⟨last, drafted, rfl⟩ := exists_draft made
    have restores : (b.finish last).RestoresAt m list batch := ⟨held, submitted, length⟩
    exact Or.inr ⟨restores, last, drafted, restoration_of_restoresAt closed drafted restores⟩

end Brief

end RenderGraph
