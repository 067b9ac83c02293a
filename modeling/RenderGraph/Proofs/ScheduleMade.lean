import RenderGraph.Proofs.DeclaredOrder
import RenderGraph.Proofs.QueueOrder
import RenderGraph.Proofs.RevivalClosure
import RenderGraph.Proofs.StateChain

/-! Making a schedule goes through. Whatever a surviving pass accesses has a state by then: it has
one from the start, or its creator survives and is recorded before. -/

namespace RenderGraph

theorem States.isSome_enter {s : States} {accesses : List Access} {r : ResourceId}
    (held : (s r).isSome = true ∨ accesses.any (·.resource == r) = true) :
    (s.enter accesses r).isSome = true := by
  induction accesses generalizing s with
  | nil => exact held.resolve_right Bool.false_ne_true
  | cons a rest ih =>
    apply ih (s := s.set a.resource a.state)
    unfold States.set
    split
    · exact Or.inl rfl
    · rename_i other
      have apart : (a.resource == r) = false := beq_eq_false_iff_ne.mpr (Ne.symm other)
      rwa [List.any_cons, apart, Bool.false_or] at held

theorem Demand.isSome_serve {demand : Demand} {current : ResourceState} {s : Serving}
    (held : s.track.state.isSome = true) :
    (demand.serve current s).track.state.isSome = true := by
  unfold serve transit
  split
  · rfl
  · dsimp only
    split
    · rfl
    · exact held

/-- Every access finds its resource in a state, which it has already or gets from a pass that
creates it on the way. -/
def Supplied (held : ResourceId → Prop) : List (PassId × Pass) → Prop
  | [] => True
  | (_, pass) :: rest =>
    (∀ a ∈ pass.accesses, held a.resource ∨ pass.isCreatorOf a.resource = true) ∧
      Supplied (fun r => held r ∨ pass.isCreatorOf r = true) rest

theorem Supplied.mono {held more : ResourceId → Prop} {entries : List (PassId × Pass)}
    (supplied : Supplied held entries) (grows : ∀ r, held r → more r) :
    Supplied more entries := by
  induction entries generalizing held more with
  | nil => trivial
  | cons e rest ih =>
    refine ⟨fun a member => (supplied.1 a member).imp_left (grows _), ih supplied.2 ?_⟩
    exact fun r => Or.imp_left (grows r)

theorem supplied_of_pairwise {held : ResourceId → Prop} {entries : List (PassId × Pass)}
    (sorted : entries.Pairwise fun e f => e.1.index < f.1.index)
    (created : ∀ e ∈ entries, ∀ a ∈ e.2.accesses, held a.resource ∨
      ∃ f ∈ entries, f.1.index ≤ e.1.index ∧ f.2.isCreatorOf a.resource = true) :
    Supplied held entries := by
  induction entries generalizing held with
  | nil => trivial
  | cons e rest ih =>
    obtain ⟨earlier, sorted'⟩ := List.pairwise_cons.mp sorted
    constructor
    · intro a access
      rcases created e List.mem_cons_self a access with old | ⟨f, member, le, creates⟩
      · exact Or.inl old
      · rcases List.mem_cons.mp member with rfl | later
        · exact Or.inr creates
        · exact absurd le (Nat.not_le_of_lt (earlier f later))
    · refine ih sorted' fun f member a access => ?_
      rcases created f (List.mem_cons_of_mem _ member) a access with old | ⟨g, found, le, creates⟩
      · exact Or.inl (Or.inl old)
      · rcases List.mem_cons.mp found with rfl | later
        · exact Or.inl (Or.inr creates)
        · exact Or.inr ⟨g, later, le, creates⟩

namespace Draft

variable {b : Brief} {d : Draft} {ordinal : Nat} {p : PassId} {pass : Pass} {queue : Queue}
  {output : Bool} {accesses : List Access} {batch : List Barrier}

def Holds (d : Draft) (r : ResourceId) : Prop := (d.states r).isSome = true

theorem exists_serveAll (held : ∀ a ∈ accesses, d.Holds a.resource) :
    ∃ d' batch', serveAll b ordinal queue output accesses (d, batch) = .ok (d', batch') ∧
      ∀ r, d.Holds r → d'.Holds r := by
  induction accesses generalizing d batch with
  | nil => exact ⟨d, batch, rfl, fun _ => id⟩
  | cons a rest ih =>
    have here := held a List.mem_cons_self
    obtain ⟨current, state⟩ := Option.isSome_iff_exists.mp here
    rw [states] at state
    have kept (t : Serving) (same : t.track = d.track a.resource) (r : ResourceId)
        (holds : d.Holds r) :
        (d.modifyTrack a.resource fun _ =>
          (Demand.serve ⟨queue, a, output, b.targetState ordinal queue a output⟩ current
            t).track).Holds r := by
      unfold Holds states
      rw [track_modifyTrack]
      split
      · exact Demand.isSome_serve (same ▸ here)
      · exact holds
    have later := fun x member => kept ⟨d.track a.resource, batch⟩ rfl _
      (held x (List.mem_cons_of_mem _ member))
    obtain ⟨d', batch', served, keeps⟩ := ih later
    refine ⟨d', batch', ?_, fun r holds => keeps r (kept _ rfl r holds)⟩
    rw [serveAll, state]
    exact served

theorem recordPass_of_served {read : Draft × List Barrier} {served : Draft}
    (reads : serveAll b ordinal pass.queue false pass.reads (d.prepare pass, []) = .ok read)
    (writes : serveAll b ordinal pass.queue true pass.writes read = .ok (served, batch)) :
    ∃ d', d.recordPass b ordinal p pass = .ok d' := by
  have reads' : serveAll b ordinal pass.queue false pass.reads
      (pass.creates.foldl (·.create pass.queue ·)
        ((d.enter pass.queue).2.syncAll pass.queue (footprint pass)), []) = .ok read := reads
  simp only [recordPass, bind, Except.bind, reads', writes]
  exact ⟨_, rfl⟩

theorem exists_recordPass (within : pass.Within d.tracks.length)
    (supplied : ∀ a ∈ pass.accesses, d.Holds a.resource ∨ pass.isCreatorOf a.resource = true) :
    ∃ d', d.recordPass b ordinal p pass = .ok d' ∧
      ∀ r, d.Holds r ∨ pass.isCreatorOf r = true → d'.Holds r := by
  have prepared (r : ResourceId) (held : d.Holds r ∨ pass.isCreatorOf r = true) :
      (d.prepare pass).Holds r := by
    unfold Holds
    rw [states_prepare d within]
    exact States.isSome_enter held
  have reading (a : Access) (member : a ∈ pass.reads) : (d.prepare pass).Holds a.resource :=
    prepared _ (supplied a (List.mem_append_left _ (List.mem_append_right _ member)))
  obtain ⟨read, batch, reads, afterReads⟩ := exists_serveAll reading
  have writing (a : Access) (member : a ∈ pass.writes) : read.Holds a.resource :=
    afterReads _ (prepared _ (supplied a (List.mem_append_right _ member)))
  obtain ⟨served, batch', writes, afterWrites⟩ := exists_serveAll writing
  obtain ⟨d', recorded⟩ := recordPass_of_served (p := p) reads writes
  refine ⟨d', recorded, fun r held => ?_⟩
  obtain ⟨read', served', _, _, reads', writes', _, _, states⟩ := recordPass_parts recorded
  cases reads.symm.trans reads'
  cases writes.symm.trans writes'
  rw [Holds, states]
  exact afterWrites r (afterReads r (prepared r held))

theorem exists_recordAll {entries : List (PassId × Pass)}
    (within : ∀ e ∈ entries, e.2.Within d.tracks.length) (supplied : Supplied d.Holds entries) :
    ∃ d', recordAll b ordinal entries d = .ok d' := by
  induction entries generalizing d ordinal with
  | nil => exact ⟨d, rfl⟩
  | cons e rest ih =>
    obtain ⟨p, pass⟩ := e
    obtain ⟨next, recorded, grows⟩ :=
      exists_recordPass (b := b) (p := p) (within _ List.mem_cons_self) supplied.1
    have within' : ∀ e ∈ rest, e.2.Within next.tracks.length := by
      intro e member
      rw [length_tracks_recordPass recorded]
      exact within e (List.mem_cons_of_mem _ member)
    rw [recordAll, recorded]
    exact ih within' (supplied.2.mono grows)

theorem holds_recordAll {entries : List (PassId × Pass)} {d' : Draft}
    (within : ∀ e ∈ entries, e.2.Within d.tracks.length) (supplied : Supplied d.Holds entries)
    (recorded : recordAll b ordinal entries d = .ok d') :
    (∀ r, d.Holds r → d'.Holds r) ∧
      ∀ e ∈ entries, ∀ r, e.2.touches r = true → d'.Holds r := by
  induction entries generalizing d ordinal with
  | nil =>
    cases recorded
    exact ⟨fun _ => id, by simp⟩
  | cons e rest ih =>
    obtain ⟨p, pass⟩ := e
    obtain ⟨next, one, grows⟩ :=
      exists_recordPass (b := b) (p := p) (within _ List.mem_cons_self) supplied.1
    have within' : ∀ e ∈ rest, e.2.Within next.tracks.length := by
      intro e member
      rw [length_tracks_recordPass one]
      exact within e (List.mem_cons_of_mem _ member)
    rw [recordAll, one] at recorded
    obtain ⟨keeps, touched⟩ := ih within' (supplied.2.mono grows) recorded
    refine ⟨fun r held => keeps r (grows r (Or.inl held)), List.forall_mem_cons.mpr ⟨?_, touched⟩⟩
    intro r touches
    obtain ⟨a, access, same⟩ := List.any_eq_true.mp touches
    have held := grows _ (supplied.1 a access)
    rw [eq_of_beq same] at held
    exact keeps r held

end Draft

namespace Declaration

variable {d : Declaration} {p : PassId} {pass : Pass} {r : ResourceId}

theorem isLive_of_touches (survives : (p, pass) ∈ d.surviving) (touches : pass.touches r = true)
    (inside : r.index < d.resources.length) : d.cull.survival.isLive r = true := by
  have listed : d.resourceIds[r.index]? = some r := by
    simp [resourceIds, List.getElem?_range inside]
  have live : d.cull.survival.live[r.index]? = some (d.surviving.any fun e => e.2.touches r) :=
    (List.getElem?_map).trans (congrArg _ listed)
  rw [Survival.isLive, List.getD_eq_getElem?_getD, live]
  exact List.any_eq_true.mpr ⟨_, survives, touches⟩

theorem creator_survives (survives : (p, pass) ∈ d.surviving) {a : Access}
    (access : a ∈ pass.accesses) (created : d.CreatedBy a.resource p.index) :
    ∃ f ∈ d.surviving, f.1.index ≤ p.index ∧ f.2.isCreatorOf a.resource = true := by
  obtain ⟨q, creator, found, creates, le⟩ := created
  have survivor (kept : ∃ other, (q, other) ∈ d.surviving) :
      ∃ f ∈ d.surviving, f.1.index ≤ p.index ∧ f.2.isCreatorOf a.resource = true := by
    obtain ⟨other, member⟩ := kept
    cases found.symm.trans (mem_survivors.mp member).1
    exact ⟨(q, creator), member, le, creates⟩
  rcases Nat.lt_or_eq_of_le le with before | same
  · simp only [Pass.accesses, List.mem_append] at access
    rcases access with (create | read) | write
    · exact ⟨(p, pass), survives, Nat.le_refl _,
        List.any_eq_true.mpr ⟨a, create, beq_self_eq_true _⟩⟩
    · have reads : pass.readsFrom a.resource = true :=
        List.any_eq_true.mpr ⟨a, read, beq_self_eq_true _⟩
      have outputs : creator.outputsTo a.resource = true := by
        rw [Pass.outputsTo_eq, creates, Bool.true_or]
      have need := mem_needs_of_readsFrom reads (mem_writers.mpr ⟨creator, found, outputs⟩)
      exact survivor (survives_of_need survives need before)
    · have writes : pass.writesTo a.resource = true :=
        List.any_eq_true.mpr ⟨a, write, beq_self_eq_true _⟩
      have need := mem_needs_of_writesTo writes found creates
      exact survivor (survives_of_need survives need before)
  · refine survivor ⟨pass, ?_⟩
    rw [show q = p from congrArg PassId.mk same]
    exact survives

theorem supplied_survivor (closed : d.Closed) (ordered : d.Ordered)
    (survives : (p, pass) ∈ d.surviving) {a : Access} (access : a ∈ pass.accesses) :
    (d.startStates d.cull.survival a.resource).isSome = true ∨
      ∃ f ∈ d.surviving, f.1.index ≤ p.index ∧ f.2.isCreatorOf a.resource = true := by
  have held := (mem_survivors.mp survives).1
  have inside := closed pass (List.mem_of_getElem? held) a access
  have found : d.resource? a.resource = some _ := List.getElem?_eq_getElem inside
  unfold startStates
  rw [found, Option.bind_some]
  split
  · exact Or.inl rfl
  · rw [isLive_of_touches survives (Pass.touches_of_mem access) inside]
    exact Or.inl rfl
  · rename_i queue origin
    have transient : d.HoldsTransient a.resource := ⟨_, found, by rw [origin]; rfl⟩
    exact Or.inr (creator_survives survives access (ordered.before p pass held a access transient))

end Declaration

namespace Brief

variable {b : Brief}

theorem supplied_live (closed : b.declaration.Closed) (ordered : b.declaration.Ordered)
    (culled : b.survival = b.declaration.cull.survival) :
    Supplied ({ tracks := b.startTracks } : Draft).Holds b.live := by
  have live : b.live = b.declaration.surviving := by
    rw [Brief.live, culled]
    rfl
  refine supplied_of_pairwise (b.declaration.pairwise_survivors b.survival) ?_
  rintro ⟨p, pass⟩ member a access
  unfold Draft.Holds
  rw [live] at member ⊢
  rw [Draft.states_start, culled]
  exact Declaration.supplied_survivor closed ordered member access

theorem schedule_of_live (closed : b.declaration.Closed) (ordered : b.declaration.Ordered)
    (culled : b.survival = b.declaration.cull.survival) (some : b.live ≠ []) :
    ∃ s, b.schedule = .ok s := by
  obtain ⟨d, recorded⟩ : ∃ d, Draft.recordAll b 0 b.live { tracks := b.startTracks } = .ok d :=
    Draft.exists_recordAll (within_live closed) (supplied_live closed ordered culled)
  have draft : b.draft = .ok d := by
    rw [Brief.draft, if_neg (by simpa using some)]
    exact recorded
  exact ⟨b.finish d, by rw [schedule, draft]; rfl⟩

theorem schedule_of_none (none : b.live = []) : b.schedule = .error .nothingLive := by
  rw [schedule, draft, none]
  rfl

theorem eq_nothingLive_of_error {reason : Unschedulable} (closed : b.declaration.Closed)
    (ordered : b.declaration.Ordered) (culled : b.survival = b.declaration.cull.survival)
    (failed : b.schedule = .error reason) : reason = .nothingLive := by
  by_cases none : b.live = []
  · cases failed.symm.trans (schedule_of_none none)
    rfl
  · obtain ⟨s, made⟩ := schedule_of_live closed ordered culled none
    cases failed.symm.trans made

end Brief

end RenderGraph
