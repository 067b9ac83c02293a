import RenderGraph.Proofs.DraftOrder

/-! Recording the passes one after another. Every recorded pass comes after all earlier passes that
it shares a resource with, unless it and they only read it. -/

namespace RenderGraph

theorem Pass.touches_of_mem {pass : Pass} {a : Access} (member : a ∈ pass.accesses) :
    pass.touches a.resource = true :=
  List.any_eq_true.mpr ⟨a, member, beq_self_eq_true _⟩

namespace Draft

variable {b : Brief} {d d' : Draft} {log : List Entry} {ordinal : Nat} {p : PassId} {pass : Pass}
  {queue : Queue} {list : ListId} {r : ResourceId} {batch : List Barrier}

/-- The draft once the pass has entered its queue and waits for what it depends on. -/
def arrive (d : Draft) (pass : Pass) : Draft :=
  (d.enter pass.queue).2.syncAll pass.queue (footprint pass)

/-- The arrived draft with the resources that the pass creates in their first state. -/
def prepare (d : Draft) (pass : Pass) : Draft :=
  pass.creates.foldl (·.create pass.queue ·) (d.arrive pass)

theorem recordPass_ok (recorded : d.recordPass b ordinal p pass = .ok d') :
    ∃ read served batch,
      serveAll b ordinal pass.queue false pass.reads (d.prepare pass, []) = .ok read ∧
      serveAll b ordinal pass.queue true pass.writes read = .ok (served, batch) ∧
      d' = ((served.emitBatch (d.enter pass.queue).1 batch).emit
        (.record (d.enter pass.queue).1 p)).remember ⟨ordinal, pass.queue⟩ pass := by
  simp only [recordPass, bind, Except.bind] at recorded
  split at recorded
  · cases recorded
  · rename_i read reads
    split at recorded
    · cases recorded
    · rename_i served writes
      exact ⟨read, served.1, served.2, reads, writes, (Except.ok.inj recorded).symm⟩

/-! What a recorded pass leaves alone. -/

theorem keeps_arrive {α : Type} (view : Draft → α)
    (same : ∀ lists current fences clocks events d,
      view { d with lists, current, fences, clocks, events } = view d) (d : Draft) (pass : Pass) :
    view (d.arrive pass) = view d :=
  (keeps_syncAll view
      (fun fences clocks events d => same d.lists d.current fences clocks events d) _ _ _).trans
    (keeps_enter view
      (fun lists current events d => same lists current d.fences d.clocks events d) d pass.queue)

theorem keeps_emitBatch {α : Type} (view : Draft → α)
    (same : ∀ events d, view { d with events } = view d) (d : Draft) (list : ListId)
    (batch : List Barrier) : view (d.emitBatch list batch) = view d := by
  unfold emitBatch
  split
  · rfl
  · exact same _ d

theorem keeps_prepare {α : Type} (view : Draft → α)
    (same : ∀ tracks d, view { d with tracks } = view d) (d : Draft) (pass : Pass) :
    view (d.prepare pass) = view (d.arrive pass) :=
  keeps_foldl_modifyTrack view same Access.resource _ pass.creates (d.arrive pass)

theorem keeps_remember {α : Type} (view : Draft → α)
    (same : ∀ tracks lastOn d, view { d with tracks, lastOn } = view d) (d : Draft)
    (this : PassRef) (pass : Pass) : view (d.remember this pass) = view d := by
  have tracks tracks (d : Draft) : view { d with tracks } = view d := same tracks d.lastOn d
  refine (same _ _ _).trans ?_
  exact (keeps_foldl_modifyTrack view tracks Access.resource _ pass.outputs _).trans
    (keeps_foldl_modifyTrack view tracks Access.resource _ pass.reads d)

theorem keeps_recordPass {α : Type} (view : Draft → α)
    (same : ∀ tracks lastOn events d, view { d with tracks, lastOn, events } = view d)
    (recorded : d.recordPass b ordinal p pass = .ok d') : view d' = view (d.arrive pass) := by
  obtain ⟨read, served, batch, reads, writes, rfl⟩ := recordPass_ok recorded
  have tracks tracks (d : Draft) : view { d with tracks } = view d :=
    same tracks d.lastOn d.events d
  have events events (d : Draft) : view { d with events } = view d :=
    same d.tracks d.lastOn events d
  calc view _ = view (served.emitBatch (d.enter pass.queue).1 batch) :=
        (keeps_remember view (fun tracks lastOn d => same tracks lastOn d.events d) _ _ _).trans
          (events _ _)
    _ = view served := keeps_emitBatch view events served _ batch
    _ = view read.1 := keeps_serveAll view tracks writes
    _ = view (d.prepare pass) := keeps_serveAll view tracks reads
    _ = view (d.arrive pass) := keeps_prepare view tracks d pass

theorem lastOn_recordPass (recorded : d.recordPass b ordinal p pass = .ok d') :
    d'.lastOn = d.lastOn.set pass.queue (some ordinal) := by
  obtain ⟨read, served, batch, reads, writes, rfl⟩ := recordPass_ok recorded
  have kept : served.lastOn = d.lastOn := calc
    served.lastOn = read.1.lastOn := keeps_serveAll lastOn (fun _ _ => rfl) writes
    _ = (d.prepare pass).lastOn := keeps_serveAll lastOn (fun _ _ => rfl) reads
    _ = (d.arrive pass).lastOn := keeps_prepare lastOn (fun _ _ => rfl) d pass
    _ = d.lastOn := keeps_arrive lastOn (fun _ _ _ _ _ _ => rfl) d pass
  simp only [remember]
  rw [keeps_foldl_modifyTrack lastOn (fun _ _ => rfl) Access.resource,
    keeps_foldl_modifyTrack lastOn (fun _ _ => rfl) Access.resource]
  exact congrArg (·.set pass.queue (some ordinal))
    ((keeps_emitBatch lastOn (fun _ _ => rfl) served _ batch).trans kept)

theorem events_served {read : Draft × List Barrier} {served : Draft}
    (reads : serveAll b ordinal pass.queue false pass.reads (d.prepare pass, []) = .ok read)
    (writes : serveAll b ordinal pass.queue true pass.writes read = .ok (served, batch)) :
    (((served.emitBatch list batch).emit (.record list p)).remember ⟨ordinal, pass.queue⟩
      pass).events =
      (d.arrive pass).events ++ (if batch.isEmpty then [] else [.barriers list batch]) ++
        [.record list p] := by
  have kept : served.events = (d.arrive pass).events := calc
    served.events = read.1.events := keeps_serveAll events (fun _ _ => rfl) writes
    _ = (d.prepare pass).events := keeps_serveAll events (fun _ _ => rfl) reads
    _ = (d.arrive pass).events := keeps_prepare events (fun _ _ => rfl) d pass
  rw [keeps_remember events fun _ _ _ => rfl, ← kept]
  simp only [emit, emitBatch]
  split <;> simp

theorem events_recordPass (recorded : d.recordPass b ordinal p pass = .ok d') :
    ∃ batch : List Barrier, (∀ x ∈ batch, pass.touches x.resource = true) ∧
      d'.events = (d.arrive pass).events ++
        (if batch.isEmpty then [] else [.barriers (d.enter pass.queue).1 batch]) ++
        [.record (d.enter pass.queue).1 p] := by
  obtain ⟨read, served, batch, reads, writes, rfl⟩ := recordPass_ok recorded
  refine ⟨batch, ?_, events_served reads writes⟩
  intro x member
  rcases resource_of_mem_serveAll writes member with read | written
  · obtain ⟨y, present, same⟩ := List.mem_map.mp read
    rcases resource_of_mem_serveAll reads present with none | reads
    · cases none
    · obtain ⟨a, access, resource⟩ := List.mem_map.mp reads
      rw [← same, ← resource]
      exact Pass.touches_of_mem (List.mem_append_left _ (List.mem_append_right _ access))
  · obtain ⟨a, access, resource⟩ := List.mem_map.mp written
    rw [← resource]
    exact Pass.touches_of_mem (List.mem_append_right _ access)

theorem continues_arrive (d : Draft) (pass : Pass) :
    Continues d.events (d.arrive pass).events :=
  (d.continues_enter pass.queue).trans (continues_syncAll _ _ _)

theorem events_arrive (d : Draft) (pass : Pass) : d.events <+: (d.arrive pass).events :=
  (d.continues_arrive pass).isPrefix

theorem events_le_recordPass (recorded : d.recordPass b ordinal p pass = .ok d') :
    (d.arrive pass).events <+: d'.events := by
  obtain ⟨batch, _, events⟩ := events_recordPass recorded
  rw [events, List.append_assoc]
  exact List.prefix_append _ _

/-! The users of a resource after a pass is recorded. -/

theorem users_prepare (d : Draft) (pass : Pass) (r : ResourceId) :
    (d.prepare pass).users r = d.users r := by
  have created (creates : List Access) (d : Draft) :
      (creates.foldl (·.create pass.queue ·) d).users r = d.users r := by
    induction creates generalizing d with
    | nil => rfl
    | cons a creates ih => exact (ih _).trans (users_create d pass.queue a r)
  exact (created pass.creates _).trans
    (keeps_arrive (·.users r) (fun _ _ _ _ _ _ => rfl) d pass)

theorem foldl_readers (this : PassRef) (xs : List Access) (t : Track) :
    xs.foldl (fun t _ => { t with readers := t.readers ++ [this] }) t =
      { t with readers := t.readers ++ List.replicate xs.length this } := by
  induction xs generalizing t with
  | nil => simp
  | cons x xs ih =>
    rw [List.foldl_cons, ih]
    simp [List.replicate_succ]

theorem foldl_writer (this : PassRef) {xs : List Access} (nonempty : xs ≠ []) (t : Track) :
    xs.foldl (fun t _ => { t with lastWriter := some this, readers := [] }) t =
      { t with lastWriter := some this, readers := [] } := by
  induction xs generalizing t with
  | nil => exact absurd rfl nonempty
  | cons x xs ih =>
    rw [List.foldl_cons]
    by_cases last : xs = []
    · rw [last]
      rfl
    · rw [ih last]

theorem filter_ne_nil {accesses : List Access} :
    accesses.filter (·.resource == r) ≠ [] ↔ accesses.any (·.resource == r) = true := by
  simp [List.filter_eq_nil_iff]

theorem length_tracks_remember (this : PassRef) (pass : Pass) (d : Draft) :
    (d.remember this pass).tracks.length = d.tracks.length := by
  simp only [remember]
  rw [length_tracks_foldl_modifyTrack Access.resource,
    length_tracks_foldl_modifyTrack Access.resource]

theorem track_remember (this : PassRef) (pass : Pass) (inside : r.index < d.tracks.length) :
    (d.remember this pass).track r =
      (pass.outputs.filter (·.resource == r)).foldl
        (fun t _ => { t with lastWriter := some this, readers := [] })
        { d.track r with
          readers := (d.track r).readers ++
            List.replicate (pass.reads.filter (·.resource == r)).length this } := by
  rw [← foldl_readers, ← track_foldl_modifyTrack Access.resource _ _ d inside,
    ← track_foldl_modifyTrack Access.resource _ pass.outputs]
  · rfl
  · rwa [length_tracks_foldl_modifyTrack Access.resource]

theorem users_remember_of_outputs (this : PassRef) (inside : r.index < d.tracks.length)
    (outputs : pass.outputsTo r = true) : (d.remember this pass).users r = (some this, []) := by
  rw [users, track_remember this pass inside, foldl_writer this (filter_ne_nil.mpr outputs)]

theorem users_remember_of_not_outputs (this : PassRef) (inside : r.index < d.tracks.length)
    (outputs : ¬ pass.outputsTo r = true) :
    ((d.remember this pass).track r).lastWriter = (d.track r).lastWriter ∧
      ∀ ref, ref ∈ ((d.remember this pass).track r).readers ↔
        ref ∈ (d.track r).readers ∨ pass.readsFrom r = true ∧ ref = this := by
  have none : pass.outputs.filter (·.resource == r) = [] :=
    not_not.mp fun some => outputs (filter_ne_nil.mp some)
  rw [track_remember this pass inside, none]
  refine ⟨rfl, fun ref => ?_⟩
  simp only [List.foldl_nil, List.mem_append, List.mem_replicate, ne_eq, List.length_eq_zero_iff]
  rw [← ne_eq, filter_ne_nil]
  rfl

theorem recordPass_eq_remember (recorded : d.recordPass b ordinal p pass = .ok d') :
    ∃ before : Draft, d' = before.remember ⟨ordinal, pass.queue⟩ pass ∧
      before.tracks.length = d.tracks.length ∧ ∀ r, before.users r = d.users r := by
  obtain ⟨read, served, batch, reads, writes, rfl⟩ := recordPass_ok recorded
  have tracks := keeps_emitBatch tracks (fun _ _ => rfl) served (d.enter pass.queue).1 batch
  refine ⟨_, rfl, ?_, ?_⟩
  · calc _ = served.tracks.length := congrArg List.length tracks
      _ = read.1.tracks.length := length_tracks_serveAll writes
      _ = (d.prepare pass).tracks.length := length_tracks_serveAll reads
      _ = (d.arrive pass).tracks.length :=
          length_tracks_foldl_modifyTrack Access.resource _ pass.creates _
      _ = d.tracks.length :=
          congrArg List.length (keeps_arrive Draft.tracks (fun _ _ _ _ _ _ => rfl) d pass)
  · intro r
    calc _ = served.users r :=
          keeps_emitBatch (·.users r) (fun _ _ => rfl) served (d.enter pass.queue).1 batch
      _ = read.1.users r := users_serveAll writes r
      _ = (d.prepare pass).users r := users_serveAll reads r
      _ = d.users r := users_prepare d pass r

theorem length_tracks_recordPass (recorded : d.recordPass b ordinal p pass = .ok d') :
    d'.tracks.length = d.tracks.length := by
  obtain ⟨before, rfl, length, _⟩ := recordPass_eq_remember recorded
  rw [length_tracks_remember, length]

end Draft

end RenderGraph
