import Mathlib.Data.List.Chain
import RenderGraph.Proofs.DraftState
import RenderGraph.Proofs.ScheduleOrder

/-! The accesses of a frame to one resource in the order in which they are made, and what each of
them asks of the one right before it. A pass makes a barrier for a resource if the states of two
accesses in a row do not go together, or if the first one leaves an unordered write pending on the
queue of the second. -/

namespace RenderGraph

inductive Role where
  | create
  | read
  | write
  deriving DecidableEq, Repr

structure Touch where
  pass : PassId
  queue : Queue
  role : Role
  access : Access
  deriving DecidableEq, Repr

namespace Touch

def writesUnordered (t : Touch) : Bool := t.role != .read && t.access.usage.isUnorderedWrite

/-- The queue of the unordered write that is pending after the access. -/
def leaves (t : Touch) : Option Queue := if t.writesUnordered then some t.queue else none

def IsServed (t : Touch) : Prop := t.role ≠ .create ∧ t.queue ≠ .copy

def Disturbs (t u : Touch) : Prop :=
  u.IsServed ∧ (t.leaves = some u.queue ∨ t.access.state ≠ u.access.state)

/-- The second access needs a barrier right after the first, whatever came before: two read-only
states may have been brought together earlier. -/
def Parts (t u : Touch) : Prop :=
  u.IsServed ∧ (t.leaves = some u.queue ∨ t.access.state ≠ u.access.state ∧
    ¬ (t.access.state.isReadOnly = true ∧ u.access.state.isReadOnly = true))

end Touch

def touchesBy (p : PassId) (queue : Queue) (role : Role) (accesses : List Access)
    (r : ResourceId) : List Touch :=
  (accesses.filter (·.resource == r)).map fun a => ⟨p, queue, role, a⟩

def Pass.touchesOf (pass : Pass) (p : PassId) (r : ResourceId) : List Touch :=
  touchesBy p pass.queue .create pass.creates r ++ touchesBy p pass.queue .read pass.reads r ++
    touchesBy p pass.queue .write pass.writes r

def touchesOf (live : List (PassId × Pass)) (r : ResourceId) : List Touch :=
  live.flatMap fun entry => entry.2.touchesOf entry.1 r

/-- The track of a resource after an access: the write that it leaves pending, and a state that
satisfies it. -/
structure Track.After (track : Track) (last : Option Touch) : Prop where
  pending : track.pendingWrite = last.bind Touch.leaves
  state : ∀ t ∈ last, ∃ held, track.state = some held ∧ held.satisfies t.access.state = true

def Names (r : ResourceId) (batch : List Barrier) : Prop := r ∈ batch.map Barrier.resource

/-- The accesses turn one batch into another: no barrier is lost, the resource has one if some
access has to have it, and none is added for it if no access may need it. -/
structure Marks (r : ResourceId) (last : Option Touch) (batch : List Barrier) (touches : List Touch)
    (batch' : List Barrier) : Prop where
  kept : Names r batch → Names r batch'
  parted : ¬ Names r batch' → (last.toList ++ touches).IsChain fun t u => ¬ t.Parts u
  calm : last.isSome = true → (last.toList ++ touches).IsChain (fun t u => ¬ t.Disturbs u) →
    Names r batch' → Names r batch

namespace Marks

variable {r : ResourceId} {last : Option Touch} {batch batch' batch'' : List Barrier}
  {touches touches' : List Touch}

theorem isChain_latest {R : Touch → Touch → Prop} (last : Option Touch) (xs ys : List Touch) :
    (last.toList ++ (xs ++ ys)).IsChain R ↔
      (last.toList ++ xs).IsChain R ∧ ((xs.getLast?.or last).toList ++ ys).IsChain R := by
  have latest : (last.toList ++ xs).getLast? = xs.getLast?.or last := by
    cases last <;> cases found : xs.getLast? <;> simp [List.getLast?_cons, found]
  have single (t : Option Touch) : t.toList.IsChain R ∧ t.toList.getLast? = t := by
    cases t <;> simp
  have split : ((last.toList ++ xs) ++ ys).IsChain R ↔ _ := List.isChain_append
  have split' : ((xs.getLast?.or last).toList ++ ys).IsChain R ↔ _ := List.isChain_append
  rw [← List.append_assoc, split, split', latest, (single _).2]
  simp only [(single _).1, true_and]

theorem trans (first : Marks r last batch touches batch')
    (second : Marks r (touches.getLast?.or last) batch' touches' batch'') :
    Marks r last batch (touches ++ touches') batch'' where
  kept names := second.kept (first.kept names)
  parted none := (isChain_latest last touches touches').mpr
    ⟨first.parted fun names => none (second.kept names), second.parted none⟩
  calm some chain names := by
    obtain ⟨before, after⟩ := (isChain_latest last touches touches').mp chain
    have some' : (touches.getLast?.or last).isSome = true := by
      cases touches.getLast? <;> simp [some]
    exact first.calm some before (second.calm some' after names)

theorem nil (same : Names r batch' ↔ Names r batch) : Marks r last batch [] batch' where
  kept := same.mpr
  parted _ := by cases last <;> simp
  calm _ _ := same.mp

theorem single {u : Touch}
    (kept : Names r batch → Names r batch')
    (parted : ∀ t ∈ last, t.Parts u → Names r batch')
    (calm : ∀ t ∈ last, ¬ t.Disturbs u → Names r batch' → Names r batch) :
    Marks r last batch [u] batch' := by
  refine ⟨kept, fun unnamed => ?_, fun some chain names => ?_⟩
  · cases last with
    | none => simp
    | some t =>
      have apart : ¬ t.Parts u := fun parts => unnamed (parted t rfl parts)
      simpa using apart
  · obtain ⟨t, rfl⟩ := Option.isSome_iff_exists.mp some
    exact calm t rfl (by simpa using chain) names

theorem unserved (batch : List Barrier) (unserved : ∀ u ∈ touches, ¬ u.IsServed) :
    Marks r last batch touches batch := by
  induction touches generalizing last with
  | nil => exact .nil Iff.rfl
  | cons u rest ih =>
    have first : Marks r last batch [u] batch :=
      .single id (fun _ _ parts => absurd parts.1 (unserved u List.mem_cons_self)) fun _ _ _ => id
    exact first.trans (ih fun v member => unserved v (List.mem_cons_of_mem _ member))

end Marks

/-! Serving one access. -/

theorem names_of_widen {r : ResourceId} {required after : ResourceState}
    {batch batch' : List Barrier} (widened : widen r required batch = some (after, batch')) :
    Names r batch ∧ after.satisfies required = true := by
  induction batch generalizing batch' with
  | nil => cases widened
  | cons barrier rest ih =>
    have later (map : (widen r required rest).map (fun found => (found.1, barrier :: found.2)) =
        some (after, batch')) :
        Names r (barrier :: rest) ∧ after.satisfies required = true := by
      obtain ⟨⟨after, wider⟩, found, same⟩ := Option.map_eq_some_iff.mp map
      cases same
      exact ⟨List.mem_cons_of_mem _ (ih found).1, (ih found).2⟩
    cases barrier with
    | unordered q => exact later widened
    | transition t =>
      rw [widen] at widened
      split at widened
      · rename_i merges
        cases widened
        refine ⟨List.mem_cons.mpr (Or.inl merges.1.symm), ?_⟩
        exact ResourceState.satisfies_of_contains
          (ResourceState.isReadOnly_union merges.2.1 merges.2.2) merges.2.2
          (ResourceState.contains_union_right _ _)
      · exact later widened

namespace Demand

variable {demand : Demand} {current : ResourceState} {s : Serving} {last : Option Touch}
  {p : PassId}

def touch (demand : Demand) (p : PassId) : Touch :=
  ⟨p, demand.queue, if demand.output then .write else .read, demand.access⟩

theorem leaves_touch : (demand.touch p).leaves = demand.leaves none := by
  unfold touch Touch.leaves Touch.writesUnordered leaves writesUnordered
  cases demand.output <;> simp

theorem isServed_touch : (demand.touch p).IsServed ↔ demand.queue.recordsTransitions = true := by
  unfold touch Touch.IsServed Queue.recordsTransitions
  cases demand.output <;> simp

theorem names_transit (current : ResourceState) :
    Names demand.access.resource (demand.transit current s).batch := by
  cases widened : widen demand.access.resource demand.required s.batch with
  | none => simp [Names, transit_of_none current widened, transition, Barrier.resource]
  | some result =>
    rw [(transit_of_some current widened).2, Names, resources_widen widened]
    exact (names_of_widen widened).1

theorem after_transit (targets : demand.target.Targets demand.required) :
    (demand.transit current s).track.After (some (demand.touch p)) where
  pending := by
    rw [Option.bind_some, leaves_touch]
    unfold transit
    cases widen demand.access.resource demand.required s.batch <;> rfl
  state := by
    rintro t ⟨⟩
    cases widened : widen demand.access.resource demand.required s.batch with
    | none => exact ⟨_, (transit_of_none current widened).1, targets.satisfies⟩
    | some result =>
      exact ⟨_, (transit_of_some current widened).1, (names_of_widen widened).2⟩

theorem batch_of_satisfied (records : demand.queue.recordsTransitions = true)
    (satisfied : current.satisfies demand.required = true) :
    (demand.serve current s).track = { s.track with pendingWrite := demand.leaves none } ∧
      (demand.serve current s).batch =
        if s.track.pendingWrite = some demand.queue then
          s.batch ++ [.unordered demand.access.resource] else s.batch := by
  unfold serve
  rw [if_neg (by simp [records])]
  dsimp only
  rw [if_neg (by simp [satisfied])]
  refine ⟨rfl, ?_⟩
  cases s.track.pendingWrite <;> simp [Option.filter, apply_ite]

theorem after_serve (held : s.track.state = some current)
    (targets : demand.target.Targets demand.required) :
    (demand.serve current s).track.After (some (demand.touch p)) := by
  by_cases records : demand.queue.recordsTransitions = true
  · by_cases satisfied : current.satisfies demand.required = true
    · constructor
      · rw [(batch_of_satisfied records satisfied).1, Option.bind_some, leaves_touch]
      · rintro t ⟨⟩
        exact ⟨current, (serve_of_satisfied records satisfied).1.trans held, satisfied⟩
    · rw [serve_of_unsatisfied records satisfied]
      exact after_transit targets
  · unfold serve
    rw [if_pos (by simp [records])]
    constructor
    · rw [Option.bind_some, leaves_touch]
    · rintro t ⟨⟩
      exact ⟨_, rfl, ResourceState.satisfies_self _⟩

theorem not_satisfies_of_ne {held before required : ResourceState}
    (satisfied : held.satisfies before = true) (apart : before ≠ required)
    (changes : ¬ (before.isReadOnly = true ∧ required.isReadOnly = true)) :
    ¬ held.satisfies required = true := by
  intro both
  rcases ResourceState.covers_iff_satisfies.mpr satisfied with rfl | ⟨readOnly, before', _⟩
  · rcases ResourceState.covers_iff_satisfies.mpr both with rfl | ⟨readOnly, required', _⟩
    · exact apart rfl
    · exact changes ⟨readOnly, required'⟩
  · rcases ResourceState.covers_iff_satisfies.mpr both with rfl | ⟨_, required', _⟩
    · exact changes ⟨before', readOnly⟩
    · exact changes ⟨before', required'⟩

theorem marks_of_satisfied (records : demand.queue.recordsTransitions = true)
    (satisfied : current.satisfies demand.required = true) (after : s.track.After last)
    (held : s.track.state = some current) :
    Marks demand.access.resource last s.batch [demand.touch p]
      (demand.serve current s).batch := by
  rw [(batch_of_satisfied records satisfied).2]
  refine .single ?_ ?_ ?_
  · intro names
    split
    · rw [Names, List.map_append]
      exact List.mem_append_left _ names
    · exact names
  · rintro t before ⟨_, pending | ⟨apart, changes⟩⟩
    · rw [if_pos (by rw [after.pending, before, Option.bind_some, pending]; rfl)]
      simp [Names, Barrier.resource]
    · obtain ⟨state, same, before⟩ := after.state t before
      cases Option.some.inj (held.symm.trans same)
      exact absurd satisfied (not_satisfies_of_ne before apart changes)
  · intro t before calm names
    have quiet : s.track.pendingWrite ≠ some demand.queue := by
      intro pending
      rw [after.pending, before, Option.bind_some] at pending
      exact calm ⟨isServed_touch.mpr records, Or.inl pending⟩
    rwa [if_neg quiet] at names

theorem marks_serve (after : s.track.After last) (held : s.track.state = some current) :
    Marks demand.access.resource last s.batch [demand.touch p]
      (demand.serve current s).batch := by
  by_cases records : demand.queue.recordsTransitions = true
  · by_cases satisfied : current.satisfies demand.required = true
    · exact marks_of_satisfied records satisfied after held
    · rw [serve_of_unsatisfied records satisfied]
      refine .single (fun _ => names_transit current) (fun _ _ _ => names_transit current) ?_
      intro t before calm
      obtain ⟨state, same, satisfied'⟩ := after.state t before
      cases Option.some.inj (held.symm.trans same)
      refine absurd ⟨isServed_touch.mpr records, Or.inr fun equal => ?_⟩ calm
      rw [equal] at satisfied'
      exact satisfied satisfied'
  · have copied : (demand.serve current s).batch = s.batch := by
      unfold serve
      rw [if_pos (by simp [records])]
    rw [copied]
    exact .single id (fun _ _ parts => absurd (isServed_touch.mp parts.1) records) fun _ _ _ => id

theorem names_serve_other {r : ResourceId} (other : r ≠ demand.access.resource) :
    Names r (demand.serve current s).batch ↔ Names r s.batch := by
  by_cases records : demand.queue.recordsTransitions = true
  · by_cases satisfied : current.satisfies demand.required = true
    · rw [(batch_of_satisfied records satisfied).2]
      split
      · simp [Names, Barrier.resource, other]
      · rfl
    · rw [serve_of_unsatisfied records satisfied]
      cases widened : widen demand.access.resource demand.required s.batch with
      | none =>
        rw [(transit_of_none current widened).2]
        simp [Names, transition, Barrier.resource, other]
      | some result =>
        rw [(transit_of_some current widened).2, Names, resources_widen widened]
        rfl
  · unfold serve
    rw [if_pos (by simp [records])]

end Demand

/-! Serving the accesses of a pass. -/

namespace Draft

variable {b : Brief} {d d' : Draft} {ordinal : Nat} {p : PassId} {pass : Pass} {queue : Queue}
  {output : Bool} {accesses : List Access} {batch batch' : List Barrier} {r : ResourceId}
  {last : Option Touch}

theorem latest_cons (t : Touch) (ts : List Touch) (last : Option Touch) :
    (t :: ts).getLast?.or last = ts.getLast?.or (some t) := by
  cases found : ts.getLast? <;> simp [List.getLast?_cons, found]

theorem touchesBy_cons_self (p : PassId) (queue : Queue) (role : Role) (a : Access)
    (rest : List Access) : touchesBy p queue role (a :: rest) a.resource =
      ⟨p, queue, role, a⟩ :: touchesBy p queue role rest a.resource := by
  simp [touchesBy]

theorem touchesBy_cons_other {role : Role} {a : Access} (other : r ≠ a.resource)
    (rest : List Access) :
    touchesBy p queue role (a :: rest) r = touchesBy p queue role rest r := by
  simp [touchesBy, Ne.symm other]

def servedAs (output : Bool) : Role := if output then .write else .read

theorem marks_serveAll
    (served : serveAll b ordinal queue output accesses (d, batch) = .ok (d', batch'))
    (after : (d.track r).After last) :
    (d'.track r).After ((touchesBy p queue (servedAs output) accesses r).getLast?.or last) ∧
      Marks r last batch (touchesBy p queue (servedAs output) accesses r) batch' := by
  induction accesses generalizing d batch last with
  | nil =>
    cases served
    exact ⟨by simpa [touchesBy] using after, .nil Iff.rfl⟩
  | cons a rest ih =>
    obtain ⟨current, held, later⟩ := serveAll_cons_ok served
    by_cases here : r = a.resource
    · subst here
      have targets := b.targets_targetState ordinal queue a output
      let demand : Demand := ⟨queue, a, output, b.targetState ordinal queue a output⟩
      let serving : Serving := ⟨d.track a.resource, batch⟩
      have first : Marks demand.access.resource last serving.batch [demand.touch p]
          (demand.serve current serving).batch := Demand.marks_serve after held
      have served : (demand.serve current serving).track.After (some (demand.touch p)) :=
        Demand.after_serve held targets
      obtain ⟨after', rest⟩ := ih later (by
        rw [track_modifyTrack, if_pos ⟨rfl, inside_of_state held⟩]
        exact served)
      rw [touchesBy_cons_self, latest_cons]
      exact ⟨after', first.trans rest⟩
    · obtain ⟨after', rest⟩ := ih later (by
        rwa [track_modifyTrack, if_neg fun both => here both.1])
      rw [touchesBy_cons_other here]
      exact ⟨after', (Marks.nil (Demand.names_serve_other here)).trans rest⟩

theorem after_creates (p : PassId) (creates : List Access) (inside : r.index < d.tracks.length)
    (after : (d.track r).After last) :
    ((creates.foldl (·.create queue ·) d).track r).After
      ((touchesBy p queue .create creates r).getLast?.or last) := by
  induction creates generalizing d last with
  | nil => simpa [touchesBy] using after
  | cons a rest ih =>
    have inside' : r.index < (d.create queue a).tracks.length := by
      rwa [create, length_tracks_modifyTrack]
    by_cases here : r = a.resource
    · subst here
      rw [touchesBy_cons_self, latest_cons]
      apply ih inside'
      rw [create, track_modifyTrack, if_pos ⟨rfl, inside⟩]
      exact ⟨rfl, fun t same => by cases same; exact ⟨_, rfl, ResourceState.satisfies_self _⟩⟩
    · rw [touchesBy_cons_other here]
      apply ih inside'
      rwa [create, track_modifyTrack, if_neg fun both => here both.1]

theorem not_isServed_of_created {u : Touch}
    (member : u ∈ touchesBy p queue .create accesses r) : ¬ u.IsServed := by
  obtain ⟨a, _, rfl⟩ := List.mem_map.mp member
  exact fun served => served.1 rfl

theorem after_remember (this : PassRef) (pass : Pass) (inside : r.index < d.tracks.length)
    (after : (d.track r).After last) : ((d.remember this pass).track r).After last := by
  rw [track_remember this pass inside]
  by_cases none : pass.outputs.filter (·.resource == r) = []
  · rw [none]
    exact ⟨after.pending, after.state⟩
  · rw [foldl_writer this none]
    exact ⟨after.pending, after.state⟩

theorem marks_recordPass (recorded : d.recordPass b ordinal p pass = .ok d') :
    ∃ batch : List Barrier, d'.events = (d.arrive pass).events ++
        (if batch.isEmpty then [] else [.barriers (d.enter pass.queue).1 batch]) ++
        [.record (d.enter pass.queue).1 p] ∧
      ∀ r last, r.index < d.tracks.length → (d.track r).After last →
        (d'.track r).After ((pass.touchesOf p r).getLast?.or last) ∧
          Marks r last [] (pass.touchesOf p r) batch := by
  obtain ⟨read, served, batch, reads, writes, rfl⟩ := recordPass_ok recorded
  refine ⟨batch, events_served reads writes, ?_⟩
  intro r last inside after
  have arrived : (d.arrive pass).track r = d.track r :=
    keeps_arrive (·.track r) (fun _ _ _ _ _ _ => rfl) d pass
  have length : (d.arrive pass).tracks.length = d.tracks.length :=
    congrArg List.length (keeps_arrive Draft.tracks (fun _ _ _ _ _ _ => rfl) d pass)
  have created : ((d.prepare pass).track r).After
      ((touchesBy p pass.queue .create pass.creates r).getLast?.or last) :=
    after_creates p pass.creates (length ▸ inside) (arrived ▸ after)
  obtain ⟨afterReads, marksReads⟩ := marks_serveAll (p := p) reads created
  obtain ⟨afterWrites, marksWrites⟩ := marks_serveAll (p := p) writes afterReads
  have creates : Marks r last [] (touchesBy p pass.queue .create pass.creates r) [] :=
    .unserved [] fun u member => not_isServed_of_created member
  have latest : (pass.touchesOf p r).getLast?.or last =
      (touchesBy p pass.queue .write pass.writes r).getLast?.or
        ((touchesBy p pass.queue .read pass.reads r).getLast?.or
          ((touchesBy p pass.queue .create pass.creates r).getLast?.or last)) := by
    simp [Pass.touchesOf, List.getLast?_append, Option.or_assoc]
  constructor
  · rw [latest]
    apply after_remember
    · calc r.index < d.tracks.length := inside
        _ = (d.arrive pass).tracks.length := length.symm
        _ = (d.prepare pass).tracks.length :=
            (length_tracks_foldl_modifyTrack Access.resource _ pass.creates _).symm
        _ = read.1.tracks.length := (length_tracks_serveAll reads).symm
        _ = served.tracks.length := (length_tracks_serveAll writes).symm
        _ = _ := (keeps_emitBatch (·.tracks.length) (fun _ _ => rfl) served _ batch).symm
    · have batched := keeps_emitBatch (·.track r) (fun _ _ => rfl) served
        (d.enter pass.queue).1 batch
      exact batched ▸ afterWrites
  · have marks := creates.trans (marksReads.trans marksWrites)
    rwa [← List.append_assoc] at marks

end Draft

end RenderGraph
