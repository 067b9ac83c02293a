import RenderGraph.Proofs.DraftRecord

/-! What the states of the resources decide about a draft: its barriers, and nothing else. Without
states and barriers, recording passes gives the same draft whatever states it starts from and aims
at. -/

namespace RenderGraph

namespace Event

def isBarriers : Event → Bool
  | barriers .. => true
  | _ => false

end Event

def Track.bare (t : Track) : Track := { t with state := none, pendingWrite := none }

theorem Track.bare_congr {t t' : Track} (writer : t'.lastWriter = t.lastWriter)
    (readers : t'.readers = t.readers) : t'.bare = t.bare := by
  simp [bare, writer, readers]

theorem Track.dependencies_bare (t : Track) : t.bare.dependencies = t.dependencies := rfl

namespace Draft

variable {b : Brief} {d d' : Draft} {r : ResourceId} {queue source : Queue} {ordinal : Nat}
  {output : Bool} {p : PassId} {pass : Pass} {accesses : List Access} {batch : List Barrier}

def bare (d : Draft) : Draft :=
  { d with
    events := d.events.filter (!·.isBarriers)
    tracks := d.tracks.map Track.bare }

theorem bare_emit {e : Event} (other : e.isBarriers = false) :
    (d.emit e).bare = d.bare.emit e := by
  simp [emit, bare, other]

theorem bare_emit_barriers (list : ListId) (batch : List Barrier) :
    (d.emit (.barriers list batch)).bare = d.bare := by
  simp [emit, bare, Event.isBarriers]

theorem bare_emitBatch (list : ListId) : (d.emitBatch list batch).bare = d.bare := by
  unfold emitBatch
  split
  · rfl
  · exact bare_emit_barriers list batch

theorem bare_enter (d : Draft) (queue : Queue) :
    d.bare.enter queue = ((d.enter queue).1, (d.enter queue).2.bare) := by
  have current : d.bare.current = d.current := rfl
  unfold enter
  rw [current]
  dsimp only
  split
  · split
    · rfl
    · simp [emit, bare, Event.isBarriers]
  · simp [emit, bare, Event.isBarriers]

theorem bare_fenceFor (d : Draft) (queue : Queue) :
    d.bare.fenceFor queue = ((d.fenceFor queue).1, (d.fenceFor queue).2.bare) := by
  have fences : d.bare.fences = d.fences := rfl
  unfold fenceFor
  rw [fences]
  split <;> rfl

theorem bare_sync (d : Draft) (source waiting : Queue) :
    (d.sync source waiting).bare = d.bare.sync source waiting := by
  unfold sync
  rw [bare_fenceFor, bare_emit rfl]
  rfl

theorem track_bare (d : Draft) (r : ResourceId) : d.bare.track r = (d.track r).bare := by
  simp only [track, bare, List.getD_eq_getElem?_getD, List.getElem?_map]
  cases d.tracks[r.index]? <;> rfl

theorem needed_bare (d : Draft) (accesses : List (ResourceId × Bool)) (source : Queue) :
    d.bare.needed accesses source = d.needed accesses source := by
  unfold needed
  simp only [track_bare, Track.dependencies_bare]

theorem bare_syncAll (d : Draft) (queue : Queue) (accesses : List (ResourceId × Bool)) :
    (d.syncAll queue accesses).bare = d.bare.syncAll queue accesses := by
  have step (origin d : Draft) (source : Queue) : (origin.syncOne queue accesses d source).bare =
      origin.bare.syncOne queue accesses d.bare source := by
    have clocks : d.bare.clocks = d.clocks := rfl
    unfold syncOne
    rw [needed_bare, clocks]
    split
    · rfl
    · split
      · rfl
      · split
        · rfl
        · exact bare_sync d source queue
  simp only [syncAll_eq_foldl, Queue.all, List.foldl_cons, List.foldl_nil, step]

theorem bare_modifyTrack_state {f : Track → Track}
    (same : (f (d.track r)).bare = (d.track r).bare) : (d.modifyTrack r f).bare = d.bare := by
  have tracks : (d.tracks.modify r.index f).map Track.bare = d.tracks.map Track.bare := by
    apply List.ext_getElem?
    intro i
    rw [List.getElem?_map, List.getElem?_modify, List.getElem?_map]
    split
    · rename_i here
      subst here
      rw [track, List.getD_eq_getElem?_getD] at same
      cases held : d.tracks[r.index]? with
      | none => rfl
      | some t =>
        rw [held, Option.getD_some] at same
        exact congrArg some same
    · simp
  simp only [modifyTrack, bare, tracks]

theorem bare_modifyTrack {f : Track → Track} (commutes : ∀ t, (f t).bare = f t.bare) (d : Draft)
    (r : ResourceId) : (d.modifyTrack r f).bare = d.bare.modifyTrack r f := by
  have tracks : (d.tracks.modify r.index f).map Track.bare =
      (d.tracks.map Track.bare).modify r.index f := by
    apply List.ext_getElem?
    intro i
    rw [List.getElem?_map, List.getElem?_modify, List.getElem?_modify, List.getElem?_map]
    split <;> cases d.tracks[i]? <;> simp [commutes]
  simp only [modifyTrack, bare, tracks]

theorem bare_create (d : Draft) (queue : Queue) (a : Access) :
    (d.create queue a).bare = d.bare := by
  unfold create
  exact bare_modifyTrack_state rfl

theorem bare_prepare (d : Draft) (pass : Pass) : (d.prepare pass).bare = (d.arrive pass).bare := by
  unfold prepare
  generalize d.arrive pass = d
  induction pass.creates generalizing d with
  | nil => rfl
  | cons a creates ih => exact (ih _).trans (bare_create d pass.queue a)

theorem bare_serveAll {served : Draft × List Barrier}
    (serves : serveAll b ordinal queue output accesses (d, batch) = .ok served) :
    served.1.bare = d.bare := by
  induction accesses generalizing d batch with
  | nil =>
    cases serves
    rfl
  | cons a rest ih =>
    obtain ⟨current, _, later⟩ := serveAll_cons_ok serves
    refine (ih later).trans (bare_modifyTrack_state ?_)
    obtain ⟨writer, readers⟩ := Prod.mk.inj (Demand.users_serve
      ⟨queue, a, output, b.targetState ordinal queue a output⟩ current ⟨d.track a.resource, batch⟩)
    exact Track.bare_congr writer readers

theorem bare_remember (d : Draft) (this : PassRef) (pass : Pass) :
    (d.remember this pass).bare = d.bare.remember this pass := by
  have folds {f : Track → Track} (commutes : ∀ t, (f t).bare = f t.bare) (accesses : List Access)
      (d : Draft) : (accesses.foldl (fun d a => d.modifyTrack a.resource f) d).bare =
        accesses.foldl (fun d a => d.modifyTrack a.resource f) d.bare := by
    induction accesses generalizing d with
    | nil => rfl
    | cons a rest ih =>
      rw [List.foldl_cons, List.foldl_cons, ih, bare_modifyTrack commutes]
  have reads := folds (f := fun t => { t with readers := t.readers ++ [this] }) (fun _ => rfl)
    pass.reads d
  have outputs := folds (f := fun t => { t with lastWriter := some this, readers := [] })
    (fun _ => rfl) pass.outputs
  unfold remember
  dsimp only
  rw [← reads, ← outputs]
  rfl

def passOver (d : Draft) (ordinal : Nat) (p : PassId) (pass : Pass) : Draft :=
  ((d.arrive pass).emit (.record (d.enter pass.queue).1 p)).remember ⟨ordinal, pass.queue⟩ pass

theorem bare_arrive (d : Draft) (pass : Pass) : (d.arrive pass).bare = d.bare.arrive pass := by
  rw [arrive, bare_syncAll, arrive, bare_enter]

theorem bare_recordPass (recorded : d.recordPass b ordinal p pass = .ok d') :
    d'.bare = d.bare.passOver ordinal p pass := by
  obtain ⟨read, served, batch, reads, writes, rfl⟩ := recordPass_ok recorded
  have kept : served.bare = d.bare.arrive pass := calc
    served.bare = read.1.bare := bare_serveAll writes
    _ = (d.prepare pass).bare := bare_serveAll reads
    _ = (d.arrive pass).bare := bare_prepare d pass
    _ = d.bare.arrive pass := bare_arrive d pass
  rw [bare_remember, bare_emit rfl, bare_emitBatch, kept, passOver, bare_enter]

theorem bare_recordAll_eq {b' : Brief} {e e' : Draft} {todo : List (PassId × Pass)}
    (same : d.bare = e.bare) (recorded : recordAll b ordinal todo d = .ok d')
    (recorded' : recordAll b' ordinal todo e = .ok e') : d'.bare = e'.bare := by
  induction todo generalizing d e ordinal with
  | nil =>
    cases recorded
    cases recorded'
    exact same
  | cons head rest ih =>
    obtain ⟨p, pass⟩ := head
    rw [recordAll] at recorded recorded'
    split at recorded
    · cases recorded
    · rename_i next one
      split at recorded'
      · cases recorded'
      · rename_i next' one'
        refine ih ?_ recorded recorded'
        rw [bare_recordPass one, bare_recordPass one', same]

end Draft

end RenderGraph
