import Mathlib
import RenderGraph.Proofs.Compiled
import RenderGraph.Proofs.DraftFinish
import RenderGraph.Proofs.DraftState
import RenderGraph.Proofs.ScheduleOrder

/-! The state chain of a schedule. Every transition starts from the state that the replay has
reached, every pass off the copy queue finds its resources in the states it requires, and the replay
ends in the final states of the schedule. -/

namespace RenderGraph

/-- The pass lists no resource twice among its reads, nor twice among its creates and writes. -/
structure Pass.Distinct (pass : Pass) : Prop where
  reads : (pass.reads.map (·.resource)).Nodup
  outputs : (pass.outputs.map (·.resource)).Nodup

theorem States.enter_apply (s : States) (accesses : List Access) (r : ResourceId) :
    s.enter accesses r =
      ((accesses.filter (·.resource == r)).getLast?.map (·.state)).or (s r) := by
  unfold States.enter
  induction accesses generalizing s with
  | nil => rfl
  | cons a rest ih =>
    rw [List.foldl_cons, ih, List.filter_cons]
    by_cases here : a.resource = r
    · rw [if_pos (beq_iff_eq.mpr here), List.getLast?_cons]
      cases (rest.filter (·.resource == r)).getLast? <;> simp [States.set, here]
    · rw [if_neg fun same => here (eq_of_beq same)]
      simp [States.set, Ne.symm here]

namespace Draft

variable {b : Brief} {d d' served : Draft} {ordinal : Nat} {p : PassId} {pass : Pass}
  {queue : Queue} {output : Bool} {accesses : List Access} {batch batch' : List Barrier}
  {read : Draft × List Barrier} {r : ResourceId}

theorem moved_serveAll (records : queue.recordsTransitions = true)
    (serves : serveAll b ordinal queue output accesses (d, batch) = .ok (d', batch'))
    (distinct : (accesses.map (·.resource)).Nodup) {a : Access} (member : a ∈ accesses)
    (fresh : transitionsOf a.resource batch = []) :
    ∃ held after, d.states a.resource = some held ∧ d'.states a.resource = some after ∧
      Moved held after a.state (transitionsOf a.resource batch') := by
  obtain ⟨current, s, held, state, same, moves, transitions⟩ :=
    serveAll_of_mem serves distinct member
  have targets := b.targets_targetState ordinal queue a output
  have asks : (Demand.mk queue a output
      (b.targetState ordinal queue a output)).queue.recordsTransitions = true := records
  obtain ⟨after, reached, moved⟩ := Demand.moved_serve asks targets state (same.trans fresh)
  refine ⟨current, after, held, moves.trans reached, ?_⟩
  rw [transitions]
  exact moved

section

variable (records : queue.recordsTransitions = true) (distinct : pass.Distinct)
  (reads : serveAll b ordinal queue false pass.reads (d, []) = .ok read)
  (writes : serveAll b ordinal queue true pass.writes read = .ok (served, batch))

include records distinct reads writes

theorem served_written {a : Access} (written : a ∈ pass.writes) :
    ∃ first last, d.states a.resource = some first ∧ served.states a.resource = some last ∧
      last.satisfies a.state = true ∧ Links first (transitionsOf a.resource batch) last := by
  have distinctWrites : (pass.writes.map (·.resource)).Nodup := by
    have outputs := distinct.outputs
    rw [Pass.outputs, List.map_append] at outputs
    exact outputs.of_append_right
  by_cases both : ∃ c ∈ pass.reads, c.resource = a.resource
  · obtain ⟨c, member, same⟩ := both
    obtain ⟨first, middle, held, between, moved⟩ :=
      moved_serveAll records reads distinct.reads member rfl
    rw [same] at held between moved
    obtain ⟨current, s, before, state, transitions, moves, transitions'⟩ :=
      serveAll_of_mem writes distinctWrites written
    have here : middle = current := Option.some.inj (between.symm.trans before)
    subst here
    rw [← transitions] at moved
    have asks : (Demand.mk queue a true
        (b.targetState ordinal queue a true)).queue.recordsTransitions = true := records
    obtain ⟨last, reached, satisfied, links⟩ :=
      Demand.links_serve asks (b.targets_targetState ordinal queue a true) state moved
    refine ⟨first, last, held, moves.trans reached, satisfied, ?_⟩
    rw [transitions']
    exact links
  · have other : ∀ c ∈ pass.reads, a.resource ≠ c.resource :=
      fun c member same => both ⟨c, member, same.symm⟩
    obtain ⟨kept, fresh⟩ := serveAll_other reads other
    obtain ⟨first, last, held, reached, moved⟩ :=
      moved_serveAll records writes distinctWrites written fresh
    exact ⟨first, last, kept.symm.trans held, reached, moved.1, moved.links⟩

theorem served_read {a : Access} (member : a ∈ pass.reads)
    (other : ∀ c ∈ pass.writes, a.resource ≠ c.resource) :
    ∃ first last, d.states a.resource = some first ∧ served.states a.resource = some last ∧
      last.satisfies a.state = true ∧ Links first (transitionsOf a.resource batch) last := by
  obtain ⟨first, last, held, reached, moved⟩ :=
    moved_serveAll records reads distinct.reads member rfl
  obtain ⟨kept, transitions⟩ := serveAll_other writes other
  refine ⟨first, last, held, kept.trans reached, moved.1, ?_⟩
  rw [transitions]
  exact moved.links

omit records distinct in
theorem served_other (unread : ∀ c ∈ pass.reads, r ≠ c.resource)
    (unwritten : ∀ c ∈ pass.writes, r ≠ c.resource) :
    served.states r = d.states r ∧ transitionsOf r batch = [] := by
  obtain ⟨kept, none⟩ := serveAll_other reads unread
  obtain ⟨kept', same⟩ := serveAll_other writes unwritten
  exact ⟨kept'.trans kept, same.trans none⟩

theorem crosses_served : d.states.Crosses batch served.states := by
  intro r
  by_cases written : ∃ a ∈ pass.writes, a.resource = r
  · obtain ⟨a, member, rfl⟩ := written
    obtain ⟨first, last, held, reached, _, links⟩ :=
      served_written records distinct reads writes member
    exact Or.inr ⟨first, last, held, reached, links⟩
  have unwritten : ∀ c ∈ pass.writes, r ≠ c.resource :=
    fun c member same => written ⟨c, member, same.symm⟩
  by_cases isRead : ∃ a ∈ pass.reads, a.resource = r
  · obtain ⟨a, member, rfl⟩ := isRead
    obtain ⟨first, last, held, reached, _, links⟩ :=
      served_read records distinct reads writes member unwritten
    exact Or.inr ⟨first, last, held, reached, links⟩
  · obtain ⟨kept, none⟩ := served_other reads writes
      (fun c member same => isRead ⟨c, member, same.symm⟩) unwritten
    exact Or.inl ⟨kept.symm, none⟩

theorem serves_served {before : States} (created : d.states = before.enter pass.creates) :
    served.states.Serves pass := by
  intro r a last
  have unnamed {accesses : List Access}
      (none : (accesses.filter (·.resource == r)).getLast? = none) :
      ∀ c ∈ accesses, r ≠ c.resource := by
    rw [List.getLast?_eq_none_iff, List.filter_eq_nil_iff] at none
    intro c member same
    exact none c member (beq_iff_eq.mpr same.symm)
  have named {accesses : List Access}
      (some : (accesses.filter (·.resource == r)).getLast? = some a) :
      a ∈ accesses ∧ a.resource = r := by
    obtain ⟨member, same⟩ := List.mem_filter.mp (List.mem_of_getLast? some)
    exact ⟨member, eq_of_beq same⟩
  rw [Pass.lastAccess, Pass.accesses, List.filter_append, List.filter_append,
    List.getLast?_append, List.getLast?_append, Option.or_eq_some_iff] at last
  rcases last with written | ⟨noWrite, last⟩
  · obtain ⟨member, rfl⟩ := named written
    obtain ⟨_, final, _, reached, satisfied, _⟩ :=
      served_written records distinct reads writes member
    exact ⟨final, reached, ResourceState.covers_iff_satisfies.mpr satisfied⟩
  rw [Option.or_eq_some_iff] at last
  rcases last with isRead | ⟨noRead, isCreated⟩
  · obtain ⟨member, rfl⟩ := named isRead
    obtain ⟨_, final, _, reached, satisfied, _⟩ :=
      served_read records distinct reads writes member (unnamed noWrite)
    exact ⟨final, reached, ResourceState.covers_iff_satisfies.mpr satisfied⟩
  · obtain ⟨kept, _⟩ := served_other reads writes (unnamed noRead) (unnamed noWrite)
    refine ⟨a.state, ?_, Or.inl rfl⟩
    rw [kept, created, States.enter_apply, isCreated]
    rfl

end

theorem states_foldl_modifyTrack {β : Type} (resource : β → ResourceId) (f : β → Track → Track)
    (same : ∀ x t, (f x t).state = t.state) (xs : List β) (d : Draft) :
    (xs.foldl (fun d x => d.modifyTrack (resource x) (f x)) d).states = d.states := by
  induction xs generalizing d with
  | nil => rfl
  | cons x xs ih =>
    rw [List.foldl_cons, ih]
    funext r
    unfold states
    rw [track_modifyTrack]
    split
    · exact same x _
    · rfl

theorem states_remember (d : Draft) (this : PassRef) (pass : Pass) :
    (d.remember this pass).states = d.states := by
  have reads := states_foldl_modifyTrack Access.resource
    (fun _ t => { t with readers := t.readers ++ [this] }) (fun _ _ => rfl) pass.reads d
  have outputs := states_foldl_modifyTrack Access.resource
    (fun _ t => { t with lastWriter := some this, readers := [] }) (fun _ _ => rfl) pass.outputs
  exact (outputs _).trans reads

theorem recordPass_parts (recorded : d.recordPass b ordinal p pass = .ok d') :
    ∃ read served batch plain,
      serveAll b ordinal pass.queue false pass.reads (d.prepare pass, []) = .ok read ∧
      serveAll b ordinal pass.queue true pass.writes read = .ok (served, batch) ∧
      (∀ e ∈ plain, e.isPlain = true) ∧
      d'.events = d.events ++ (plain ++
        ((if batch.isEmpty then [] else [.barriers (d.enter pass.queue).1 batch]) ++
          [.record (d.enter pass.queue).1 p])) ∧
      d'.states = served.states := by
  obtain ⟨read, served, batch, reads, writes, rfl⟩ := recordPass_ok recorded
  obtain ⟨plain, arrived, isPlain⟩ := d.continues_arrive pass
  have kept : served.events = d.events ++ plain := calc
    served.events = read.1.events := keeps_serveAll events (fun _ _ => rfl) writes
    _ = (d.prepare pass).events := keeps_serveAll events (fun _ _ => rfl) reads
    _ = (d.arrive pass).events := keeps_prepare events (fun _ _ => rfl) d pass
    _ = d.events ++ plain := arrived
  refine ⟨read, served, batch, plain, reads, writes, isPlain, ?_, ?_⟩
  · rw [keeps_remember events fun _ _ _ => rfl]
    simp only [emit, emitBatch]
    split <;> simp [kept]
  · rw [states_remember]
    exact keeps_emitBatch states (fun _ _ => rfl) served _ batch

theorem replays_recordPass {decl : Declaration} (found : decl.pass? p = some pass)
    (distinct : pass.Distinct) (within : pass.Within d.tracks.length)
    (recorded : d.recordPass b ordinal p pass = .ok d') :
    ∃ more, d'.events = d.events ++ more ∧ ∀ rest last,
      decl.Replays d'.states rest last → decl.Replays d.states (more ++ rest) last := by
  obtain ⟨read, served, batch, plain, reads, writes, isPlain, events, states⟩ :=
    recordPass_parts recorded
  have begun : (d.prepare pass).states = d.states.begin decl p := by
    rw [states_prepare d within, States.begin, found]
    rfl
  refine ⟨_, events, fun rest last replays => ?_⟩
  rw [List.append_assoc]
  apply Declaration.Replays.plains isPlain
  rw [states] at replays
  -- A copy pass makes no transitions, so that what it finds is never asked for.
  by_cases onCopy : pass.queue = .copy
  · rw [onCopy] at reads writes
    obtain ⟨afterReads, none⟩ := states_serveAll_copy reads
    obtain ⟨afterWrites, none'⟩ := states_serveAll_copy writes
    have empty : batch = [] := none'.trans none
    have finished : served.states = (d.states.begin decl p).finish decl p := by
      rw [afterWrites, afterReads, begun, States.finish, found]
      simp only [if_pos onCopy, States.enter, List.foldl_append]
    rw [empty]
    refine Declaration.Replays.record ?_ (finished ▸ replays)
    intro other held notCopy
    rw [found] at held
    cases held
    exact absurd onCopy notCopy
  · have records : pass.queue.recordsTransitions = true := bne_iff_ne.mpr onCopy
    have crosses := crosses_served records distinct reads writes
    have serves := serves_served records distinct reads writes (states_prepare d within)
    rw [begun] at crosses
    have finished : served.states =
        ((d.states.begin decl p).crossAll batch).finish decl p := by
      rw [crosses.crossAll, States.finish, found]
      simp only [if_neg onCopy]
    have ready : ∀ other, decl.pass? p = some other → other.queue ≠ .copy →
        ((d.states.begin decl p).crossAll batch).Serves other := by
      intro other held _
      rw [found] at held
      cases held
      rw [crosses.crossAll]
      exact serves
    split
    · rename_i isEmpty
      have empty : batch = [] := List.isEmpty_iff.mp isEmpty
      subst empty
      exact Declaration.Replays.record ready (finished ▸ replays)
    · exact Declaration.Replays.barriers crosses.chains ready (finished ▸ replays)

theorem replays_recordAll {decl : Declaration} {todo : List (PassId × Pass)}
    (each : ∀ entry ∈ todo, decl.pass? entry.1 = some entry.2 ∧ entry.2.Distinct ∧
      entry.2.Within d.tracks.length)
    (recorded : recordAll b ordinal todo d = .ok d') :
    ∃ more, d'.events = d.events ++ more ∧ ∀ rest last,
      decl.Replays d'.states rest last → decl.Replays d.states (more ++ rest) last := by
  induction todo generalizing d ordinal with
  | nil =>
    cases recorded
    exact ⟨[], (List.append_nil _).symm, fun _ _ replays => replays⟩
  | cons head todo ih =>
    obtain ⟨p, pass⟩ := head
    rw [recordAll] at recorded
    split at recorded
    · cases recorded
    · rename_i next one
      obtain ⟨found, distinct, within⟩ := each (p, pass) List.mem_cons_self
      obtain ⟨first, events, step⟩ := replays_recordPass found distinct within one
      have each' : ∀ entry ∈ todo, decl.pass? entry.1 = some entry.2 ∧ entry.2.Distinct ∧
          entry.2.Within next.tracks.length := by
        intro entry member
        rw [length_tracks_recordPass one]
        exact each entry (List.mem_cons_of_mem _ member)
      obtain ⟨more, events', run⟩ := ih each' recorded
      refine ⟨first ++ more, ?_, fun rest last replays => ?_⟩
      · rw [events', events, List.append_assoc]
      · rw [List.append_assoc]
        exact step _ _ (run rest last replays)

/-! The states that a schedule starts from and brings back. -/

theorem states_start (b : Brief) :
    ({ tracks := b.startTracks } : Draft).states = b.declaration.startStates b.survival := by
  funext r
  unfold states track Declaration.startStates Declaration.resource? Brief.startTracks
  rw [List.getD_eq_getElem?_getD, List.getElem?_map, List.getElem?_zipIdx]
  cases b.declaration.resources[r.index]? with
  | none => rfl
  | some resource =>
    simp only [Option.map_some, Option.getD_some, Option.bind_some, Nat.zero_add]
    cases resource.origin <;> rfl

theorem finalState_toSchedule (d : Draft) : d.toSchedule.finalState = d.states := by
  funext r
  unfold Schedule.finalState toSchedule states track
  rw [List.getElem?_map, List.getD_eq_getElem?_getD]
  cases d.tracks[r.index]? <;> rfl

theorem of_restores {resource : Resource} {t : Transition}
    (restores : d.restores b r resource = some t) :
    t.resource = r ∧ d.states r = some t.before ∧ t.before ≠ t.after := by
  unfold Draft.restores at restores
  split at restores
  · rename_i held
    split at restores
    · cases restores
    · rename_i apart
      cases restores
      exact ⟨rfl, held, apart⟩
  · cases restores

theorem mem_restoration {t : Transition} (member : t ∈ d.restoration b) :
    d.states t.resource = some t.before ∧ t.before ≠ t.after := by
  obtain ⟨⟨resource, i⟩, _, restores⟩ := List.mem_filterMap.mp member
  obtain ⟨here, held, changes⟩ := of_restores restores
  exact ⟨here ▸ held, changes⟩

theorem distinct_restoration (b : Brief) (d : Draft) :
    (d.restoration b).Pairwise fun t u => t.resource ≠ u.resource := by
  apply List.pairwise_filterMap.mpr
  rw [List.pairwise_iff_getElem]
  intro i j inside inside' before t first u second same
  have left := (of_restores first).1
  have right := (of_restores second).1
  rw [same, right] at left
  have equal := congrArg ResourceId.index left
  simp only [List.get_eq_getElem, List.getElem_zipIdx] at equal
  omega

theorem transitionsOf_map (r : ResourceId) (ts : List Transition) :
    transitionsOf r (ts.map .transition) = ts.filter (·.resource == r) := by
  induction ts with
  | nil => rfl
  | cons t ts ih =>
    rw [List.map_cons, transitionsOf, List.filter_cons, ih]
    simp only [beq_iff_eq]

theorem chains_of_distinct {s : States} {restore : List Transition}
    (distinct : restore.Pairwise fun t u => t.resource ≠ u.resource)
    (each : ∀ t ∈ restore, s t.resource = some t.before ∧ t.before ≠ t.after) :
    s.Chains (restore.map .transition) := by
  intro done t rest split
  obtain ⟨early, late, rfl, rfl, later⟩ := List.map_eq_append_iff.mp split
  obtain ⟨u, late, rfl, same, rfl⟩ := List.map_eq_cons_iff.mp later
  cases same
  have apart := (List.pairwise_append.mp distinct).2.2
  have none : transitionsOf t.resource (early.map .transition) = [] := by
    rw [transitionsOf_map, List.filter_eq_nil_iff]
    intro v member equal
    exact apart v member t List.mem_cons_self (eq_of_beq equal)
  obtain ⟨held, changes⟩ := each t (List.mem_append_right _ List.mem_cons_self)
  exact ⟨(States.crossAll_of_none none).trans held, changes⟩

theorem states_restoreAll {restore : List Transition}
    (inside : ∀ t ∈ restore, t.resource.index < d.tracks.length) :
    (d.restoreAll restore).states = d.states.crossAll (restore.map .transition) := by
  unfold restoreAll
  split
  · rename_i isEmpty
    rw [List.isEmpty_iff.mp isEmpty]
    rfl
  · have tracks : (d.restoring restore).tracks = d.tracks :=
      (keeps_syncAll Draft.tracks (fun _ _ _ _ => rfl) _ _ _).trans
        (keeps_enter Draft.tracks (fun _ _ _ _ => rfl) d _)
    have states : (d.restoring restore).states = d.states := by
      unfold Draft.states track
      rw [tracks]
    rw [← states, States.crossAll, List.foldl_map]
    exact states_foldl_assign Transition.resource Transition.after (fun _ _ => rfl) restore _
      (tracks ▸ inside)

theorem states_finish {restore : List Transition}
    (inside : ∀ t ∈ restore, t.resource.index < d.tracks.length) :
    (d.restoreAll restore).submitCurrent.states =
      d.states.crossAll (restore.map .transition) := by
  rw [← states_restoreAll inside]
  unfold submitCurrent
  split <;> rfl

theorem events_finish (d : Draft) (restore : List Transition) :
    ∃ more rest, (∀ e ∈ more, e.isPlain = true) ∧
      (d.restoreAll restore).submitCurrent.events = d.events ++ (more ++ rest) ∧
      (restore = [] ∧ rest = [] ∨ restore ≠ [] ∧ ∃ list,
        list = (d.enter (d.restoreQueue restore)).1 ∧
          rest = [.barriers list (restore.map .transition), .submit list]) := by
  by_cases none : restore = []
  · subst none
    obtain ⟨more, events, plain⟩ := d.continues_submitCurrent
    exact ⟨more, [], plain, events.trans (by rw [List.append_nil]), Or.inl ⟨rfl, rfl⟩⟩
  · obtain ⟨more, before, plain⟩ : Continues d.events (d.restoring restore).events :=
      (d.continues_enter _).trans (continues_syncAll _ _ _)
    refine ⟨more, _, plain, ?_, Or.inr ⟨none, _, rfl, rfl⟩⟩
    rw [d.events_restored none, before, List.append_assoc]

theorem replays_finish (decl : Declaration) {restore : List Transition}
    (distinct : restore.Pairwise fun t u => t.resource ≠ u.resource)
    (each : ∀ t ∈ restore, d.states t.resource = some t.before ∧ t.before ≠ t.after) :
    ∃ rest, (d.restoreAll restore).submitCurrent.events = d.events ++ rest ∧
      decl.Replays d.states rest (d.restoreAll restore).submitCurrent.states := by
  rw [states_finish fun t member => inside_of_state (each t member).1]
  obtain ⟨more, rest, plain, events, ⟨rfl, rfl⟩ | ⟨_, list, _, rfl⟩⟩ := d.events_finish restore
  · exact ⟨_, events, .plains plain (.nil decl d.states)⟩
  · exact ⟨_, events, .plains plain (.restore (chains_of_distinct distinct each))⟩

end Draft

theorem Declaration.pass?_of_mem_survivors {d : Declaration} {survival : Survival}
    {entry : PassId × Pass} (member : entry ∈ d.survivors survival) :
    d.pass? entry.1 = some entry.2 := by
  obtain ⟨⟨pass, i⟩, held, rfl⟩ := List.mem_map.mp (List.mem_filter.mp member).1
  obtain ⟨inside, same⟩ := List.mem_zipIdx' held
  exact List.getElem?_eq_some_iff.mpr ⟨inside, same.symm⟩

theorem Brief.replays_schedule {b : Brief} {schedule : Schedule} (closed : b.declaration.Closed)
    (distinct : ∀ pass ∈ b.declaration.passes, pass.Distinct)
    (made : b.schedule = .ok schedule) :
    b.declaration.Replays (b.declaration.startStates b.survival) schedule.events
      schedule.finalState := by
  obtain ⟨d, drafted, rfl⟩ := Brief.exists_draft made
  have each : ∀ entry ∈ b.live, b.declaration.pass? entry.1 = some entry.2 ∧
      entry.2.Distinct ∧
      entry.2.Within ({ tracks := b.startTracks } : Draft).tracks.length := by
    intro entry member
    have declared := Declaration.mem_passes_of_mem_survivors member
    exact ⟨Declaration.pass?_of_mem_survivors member, distinct _ declared,
      Brief.within_live closed _ member⟩
  obtain ⟨more, events, run⟩ :=
    Draft.replays_recordAll each (Brief.recordAll_of_draft drafted)
  obtain ⟨rest, events', ends⟩ := Draft.replays_finish b.declaration
    (Draft.distinct_restoration b d) fun t member => Draft.mem_restoration member
  have whole := run rest _ ends
  rw [Draft.states_start] at whole
  have all : (b.finish d).events = more ++ rest := by
    refine events'.trans ?_
    rw [events]
    rfl
  have last : (b.finish d).finalState =
      (d.restoreAll (d.restoration b)).submitCurrent.states := Draft.finalState_toSchedule _
  rw [all, last]
  exact whole

namespace Session

/-- The schedule of a compiled graph keeps the states of all resources in a chain, with or without
the merging of reads. -/
theorem states_chain {s s' : Session} (reachable : s.Reachable)
    (distinct : ∀ pass ∈ s.graph.declaration.passes, pass.Distinct)
    (does : s.Does Graph.compile s') :
    ∃ c, s'.graph.compilation = some c ∧
      s'.graph.declaration.Replays
        (s'.graph.declaration.startStates s'.graph.declaration.cull.survival)
        c.schedule.events c.schedule.finalState := by
  obtain ⟨c, made, compiled, _, declaration, _⟩ := does.compiled
  have closed : s'.graph.declaration.Closed := declaration ▸ reachable.closed
  have distinct' : ∀ pass ∈ s'.graph.declaration.passes, pass.Distinct := declaration ▸ distinct
  refine ⟨c, compiled.compilation, ?_⟩
  rw [← compiled.survival]
  exact Brief.replays_schedule (b := s'.graph.brief s'.graph.config.mergesReads) closed distinct'
    compiled.schedule

/-! An image that is uploaded and then read by two graphics passes, in a state that serves both. -/

def twiceRead : Session := [
  .declare "upload" .copy
    [.create { extent := .texture 8 8, format := .rgba8Unorm } "image" .copyDest []] none,
  .declare "light" .graphics
    [.read ⟨0⟩ "image" .pixelShaderRead [], .sideEffects true] none,
  .declare "cull" .graphics
    [.read ⟨0⟩ "image" .nonPixelShaderRead [], .sideEffects true] none].foldl act (start {} [] {})

theorem twiceRead_cull : twiceRead.graph.declaration.cull =
    ⟨{ passRefs := [1, 0, 0], resourceRefs := [2], live := [true] }, []⟩ := by
  unfold twiceRead
  cbv

theorem twiceRead_compiles : twiceRead.Does Graph.compile (twiceRead.act .compile) := by
  apply does_after
  rw [Graph.run_compile_of_fresh (by decide +kernel) (by decide +kernel) twiceRead_cull]
  decide +kernel

theorem twiceRead_distinct :
    ∀ pass ∈ twiceRead.graph.declaration.passes, pass.Distinct := by
  have both : ∀ pass ∈ twiceRead.graph.declaration.passes,
      (pass.reads.map (·.resource)).Nodup ∧ (pass.outputs.map (·.resource)).Nodup := by
    decide +kernel
  intro pass member
  exact ⟨(both pass member).1, (both pass member).2⟩

theorem twiceRead_states_chain : twiceRead.Reachable ∧
    (∀ pass ∈ twiceRead.graph.declaration.passes, pass.Distinct) ∧
    twiceRead.Does Graph.compile (twiceRead.act .compile) ∧
    ∃ c, (twiceRead.act .compile).graph.compilation = some c ∧
      (twiceRead.act .compile).graph.declaration.Replays
        ((twiceRead.act .compile).graph.declaration.startStates
          (twiceRead.act .compile).graph.declaration.cull.survival)
        c.schedule.events c.schedule.finalState :=
  have reachable : twiceRead.Reachable := (Reachable.start {} [] {}).foldl _
  ⟨reachable, twiceRead_distinct, twiceRead_compiles,
    states_chain reachable twiceRead_distinct twiceRead_compiles⟩

end Session

end RenderGraph
