import RenderGraph.Proofs.CompileResult
import RenderGraph.Proofs.PassTurn

/-! Where the barriers for unordered writes stand. Whether a pass makes one on account of an access
is known from the access right before that one and from the state of the resource, since no access
leaves a write pending but the latest one. -/

namespace RenderGraph

def Barrier.unordered? : Barrier → Option ResourceId
  | unordered r => some r
  | transition _ => none

def unorderedIn (batch : List Barrier) : List ResourceId := batch.filterMap Barrier.unordered?

def Event.unordered : Event → List ResourceId
  | barriers _ batch => unorderedIn batch
  | _ => []

def Schedule.unordered (s : Schedule) : List ResourceId := s.events.flatMap Event.unordered

/-- The reads and writes of a pass in the order in which they are served. -/
def Pass.serves (pass : Pass) (p : PassId) : List Touch :=
  pass.reads.map (Touch.mk p pass.queue .read) ++ pass.writes.map (Touch.mk p pass.queue .write)

instance : DecidablePred Touch.IsServed := fun _ => inferInstanceAs (Decidable (_ ∧ _))

namespace Brief

variable (b : Brief) (n : Nat) (p : PassId) (pass : Pass) (k : Nat)

/-- The accesses to a resource up to where the `n`-th pass has made `k` of its reads and writes. -/
def touchesUpTo (r : ResourceId) : List Touch :=
  touchesOf (b.live.take n) r ++ (touchesBy p pass.queue .create pass.creates r ++
    ((pass.serves p).take k).filter (·.access.resource == r))

/-- The draft and the batch of the `n`-th pass when `k` of its reads and writes are served. -/
def midway : Option (Draft × List Barrier) := do
  let d ← (Draft.recordAll b 0 (b.live.take n) { tracks := b.startTracks }).toOption
  let read ← (Draft.serveAll b n pass.queue false (pass.reads.take k) (d.prepare pass, [])).toOption
  (Draft.serveAll b n pass.queue true (pass.writes.take (k - pass.reads.length)) read).toOption

def heldAt (r : ResourceId) : Option ResourceState :=
  (b.midway n pass k).bind fun served => (served.1.track r).state

/-- The access comes right after an unordered write on its queue, and needs no other state. -/
def IsHazard (u : Touch) : Prop :=
  u.IsServed ∧
    (∃ t ∈ (b.touchesUpTo n p pass k u.access.resource).getLast?,
      t.writesUnordered = true ∧ t.queue = u.queue) ∧
    ∃ held ∈ b.heldAt n pass k u.access.resource, held.satisfies u.access.state = true

instance (u : Touch) : Decidable (b.IsHazard n p pass k u) :=
  inferInstanceAs (Decidable (_ ∧ _ ∧ _))

/-- What is added to the barriers on account of an access. -/
def account (u : Touch) : List ResourceId :=
  if b.IsHazard n p pass k u then [u.access.resource] else []

def accountUpTo : List ResourceId :=
  ((pass.serves p).take k).zipIdx.flatMap fun (u, i) => b.account n p pass i u

/-- The resources of the hazards in a pass. -/
def hazards : List ResourceId := b.accountUpTo n p pass (pass.serves p).length

/-- The resources of the hazards in the first `n` surviving passes. -/
def hazardsUpTo : List ResourceId :=
  (b.live.take n).zipIdx.flatMap fun (entry, i) => b.hazards i entry.1 entry.2

/-- The `k`-th read or write of the `n`-th pass is at a hazard for which the `i`-th access to the
resource is to blame. -/
def Blames (r : ResourceId) (i : Nat) : Prop :=
  ∃ p pass u, b.live[n]? = some (p, pass) ∧ (pass.serves p)[k]? = some u ∧
    u.access.resource = r ∧ b.IsHazard n p pass k u ∧
    (b.touchesUpTo n p pass k r).length = i + 1

/-- A batch as it comes about: it begins empty, each access in its place adds a barrier without a
transition if it is at a hazard and none if it is not, and it ends as the batch of the pass. -/
structure MarksHazards (batch : List Barrier) : Prop where
  begins : ∃ d, b.midway n pass 0 = some (d, [])
  ends : ∃ d, b.midway n pass (pass.serves p).length = some (d, batch)
  order : ∀ k u, (pass.serves p)[k]? = some u → ∃ rest,
    touchesOf b.live u.access.resource =
      b.touchesUpTo n p pass k u.access.resource ++ u :: rest
  held : ∀ k u, (pass.serves p)[k]? = some u →
    (b.heldAt n pass k u.access.resource).isSome = true
  adds : ∀ k u, (pass.serves p)[k]? = some u → ∃ d done d' done',
    b.midway n pass k = some (d, done) ∧ b.midway n pass (k + 1) = some (d', done') ∧
      unorderedIn done' = unorderedIn done ++ b.account n p pass k u
  /-- A read does not have a barrier repeated. -/
  rests : ∀ k u, (pass.serves p)[k]? = some u →
    (∀ t ∈ (b.touchesUpTo n p pass k u.access.resource).getLast?, t.role = .read) →
    b.account n p pass k u = []

end Brief

/-! Serving one access. -/

theorem unorderedIn_append (first second : List Barrier) :
    unorderedIn (first ++ second) = unorderedIn first ++ unorderedIn second :=
  List.filterMap_append

theorem unorderedIn_widen {r : ResourceId} {required after : ResourceState}
    {batch batch' : List Barrier} (widened : widen r required batch = some (after, batch')) :
    unorderedIn batch' = unorderedIn batch := by
  have views := congrArg (List.filterMap id)
    (Demand.map_widen Barrier.unordered? (fun _ _ => rfl) widened)
  rwa [List.filterMap_map, List.filterMap_map] at views

namespace Demand

variable {demand : Demand} {current : ResourceState} {s : Serving}

def Meets (demand : Demand) (current : ResourceState) (s : Serving) : Prop :=
  demand.queue.recordsTransitions = true ∧ s.track.pendingWrite = some demand.queue ∧
    current.satisfies demand.required = true

theorem unorderedIn_transit (current : ResourceState) :
    unorderedIn (demand.transit current s).batch = unorderedIn s.batch := by
  cases widened : widen demand.access.resource demand.required s.batch with
  | none =>
    rw [(transit_of_none current widened).2, unorderedIn_append]
    exact List.append_nil _
  | some result =>
    rw [(transit_of_some current widened).2]
    exact unorderedIn_widen widened

theorem unorderedIn_serve_of_meets (meets : demand.Meets current s) :
    unorderedIn (demand.serve current s).batch =
      unorderedIn s.batch ++ [demand.access.resource] := by
  obtain ⟨records, pending, satisfied⟩ := meets
  rw [(batch_of_satisfied records satisfied).2, if_pos pending, unorderedIn_append]
  rfl

theorem unorderedIn_serve_of_not_meets (unmet : ¬ demand.Meets current s) :
    unorderedIn (demand.serve current s).batch = unorderedIn s.batch := by
  by_cases records : demand.queue.recordsTransitions = true
  · by_cases satisfied : current.satisfies demand.required = true
    · rw [(batch_of_satisfied records satisfied).2,
        if_neg fun pending => unmet ⟨records, pending, satisfied⟩]
    · rw [serve_of_unsatisfied records satisfied, unorderedIn_transit]
  · unfold serve
    rw [if_pos (by simp [records])]

end Demand

namespace Draft

variable {b : Brief} {ordinal : Nat} {queue : Queue} {output : Bool} {d d' : Draft}
  {batch batch' : List Barrier}

theorem serveAll_append (first second : List Access) (served : Draft × List Barrier) :
    serveAll b ordinal queue output (first ++ second) served =
      (serveAll b ordinal queue output first served).bind
        (serveAll b ordinal queue output second) := by
  induction first generalizing served with
  | nil => rfl
  | cons a rest ih =>
    obtain ⟨d, batch⟩ := served
    rw [List.cons_append, serveAll, serveAll]
    split
    · rfl
    · exact ih _

theorem exists_serveAll_take {accesses : List Access} {start last : Draft × List Barrier} (k : Nat)
    (served : serveAll b ordinal queue output accesses start = .ok last) :
    ∃ mid, serveAll b ordinal queue output (accesses.take k) start = .ok mid ∧
      serveAll b ordinal queue output (accesses.drop k) mid = .ok last := by
  rw [← List.take_append_drop k accesses, serveAll_append] at served
  cases first : serveAll b ordinal queue output (accesses.take k) start with
  | error r =>
    rw [first] at served
    cases served
  | ok mid =>
    rw [first] at served
    exact ⟨mid, rfl, served⟩

end Draft

/-! A pass served one access after another. -/

theorem Pass.touchesOf_eq (pass : Pass) (p : PassId) (r : ResourceId) :
    pass.touchesOf p r = touchesBy p pass.queue .create pass.creates r ++
      (pass.serves p).filter (·.access.resource == r) := by
  rw [touchesOf, serves, List.filter_append, List.filter_map, List.filter_map,
    List.append_assoc]
  rfl

theorem Pass.touchesBy_serves (pass : Pass) (p : PassId) (k : Nat) (r : ResourceId) :
    ((pass.serves p).take k).filter (·.access.resource == r) =
      touchesBy p pass.queue .read (pass.reads.take k) r ++
        touchesBy p pass.queue .write (pass.writes.take (k - pass.reads.length)) r := by
  rw [serves, List.take_append, List.length_map, ← List.map_take, ← List.map_take,
    List.filter_append, List.filter_map, List.filter_map]
  rfl

theorem Pass.serves_eq_some {pass : Pass} {p : PassId} {k : Nat} {u : Touch}
    (here : (pass.serves p)[k]? = some u) :
    (∃ a, u = ⟨p, pass.queue, .read, a⟩ ∧ pass.reads.take (k + 1) = pass.reads.take k ++ [a] ∧
      k + 1 - pass.reads.length = 0 ∧ k - pass.reads.length = 0) ∨
    ∃ a, u = ⟨p, pass.queue, .write, a⟩ ∧ pass.reads.take (k + 1) = pass.reads.take k ∧
      pass.writes.take (k + 1 - pass.reads.length) =
        pass.writes.take (k - pass.reads.length) ++ [a] := by
  rw [serves, List.getElem?_append, List.length_map] at here
  split at here
  · rename_i inside
    rw [List.getElem?_map] at here
    obtain ⟨a, held, rfl⟩ := Option.map_eq_some_iff.mp here
    refine Or.inl ⟨a, rfl, ?_, by omega, by omega⟩
    rw [List.take_add_one, held]
    rfl
  · rename_i outside
    rw [List.getElem?_map] at here
    obtain ⟨a, held, rfl⟩ := Option.map_eq_some_iff.mp here
    have next : k + 1 - pass.reads.length = k - pass.reads.length + 1 := by omega
    refine Or.inr ⟨a, rfl, ?_, ?_⟩
    · rw [List.take_of_length_le (by omega), List.take_of_length_le (by omega)]
    · rw [next, List.take_add_one, held]
      rfl

namespace Brief

variable {b : Brief} {s : Schedule} {d d' mid : Draft} {n k : Nat} {p : PassId} {pass : Pass}
  {list : ListId} {batch batch' done : List Barrier} {r : ResourceId} {u : Touch}

theorem midway_eq_some : b.midway n pass k = some (d', batch) ↔
    ∃ d read, Draft.recordAll b 0 (b.live.take n) { tracks := b.startTracks } = .ok d ∧
      Draft.serveAll b n pass.queue false (pass.reads.take k) (d.prepare pass, []) = .ok read ∧
      Draft.serveAll b n pass.queue true (pass.writes.take (k - pass.reads.length)) read =
        .ok (d', batch) := by
  have some_iff {ε α : Type} {x : Except ε α} {a : α} : x.toOption = some a ↔ x = .ok a := by
    cases x <;> simp [Except.toOption]
  simp only [midway, Option.bind_eq_bind, Option.bind_eq_some_iff, some_iff]
  constructor
  · rintro ⟨d, drafted, read, reads, writes⟩
    exact ⟨d, read, drafted, reads, writes⟩
  · rintro ⟨d, read, drafted, reads, writes⟩
    exact ⟨d, drafted, read, reads, writes⟩

theorem exists_midway (k : Nat) {start last : Draft}
    (drafted : Draft.recordAll b 0 (b.live.take n) { tracks := b.startTracks } = .ok start)
    (recorded : start.recordPass b n p pass = .ok last) :
    ∃ mid done, b.midway n pass k = some (mid, done) := by
  obtain ⟨read, served, batch, reads, writes, _⟩ := Draft.recordPass_ok recorded
  by_cases inside : k ≤ pass.reads.length
  · obtain ⟨mid, first, _⟩ := Draft.exists_serveAll_take k reads
    refine ⟨mid.1, mid.2, midway_eq_some.mpr ⟨start, mid, drafted, first, ?_⟩⟩
    rw [Nat.sub_eq_zero_of_le inside]
    rfl
  · obtain ⟨mid, first, _⟩ := Draft.exists_serveAll_take (k - pass.reads.length) writes
    refine ⟨mid.1, mid.2, midway_eq_some.mpr ⟨start, read, drafted, ?_, first⟩⟩
    rwa [List.take_of_length_le (by omega)]

theorem serve_of_midway (here : (pass.serves p)[k]? = some u)
    (before : b.midway n pass k = some (d, batch))
    (after : b.midway n pass (k + 1) = some (d', batch')) :
    ∃ output a current, u = (b.demand n pass.queue output a).touch p ∧
      (d.track a.resource).state = some current ∧ batch' =
        ((b.demand n pass.queue output a).serve current ⟨d.track a.resource, batch⟩).batch := by
  obtain ⟨start, read, drafted, reads, writes⟩ := midway_eq_some.mp before
  obtain ⟨start', read', drafted', reads', writes'⟩ := midway_eq_some.mp after
  cases drafted.symm.trans drafted'
  have single {output : Bool} {a : Access} {served : Draft × List Barrier}
      (one : Draft.serveAll b n pass.queue output [a] (d, batch) = .ok served) :
      ∃ current, (d.track a.resource).state = some current ∧ served.2 =
        ((b.demand n pass.queue output a).serve current ⟨d.track a.resource, batch⟩).batch := by
    obtain ⟨current, held, last⟩ := Draft.serveAll_cons_ok one
    exact ⟨current, held, (congrArg Prod.snd (Except.ok.inj last)).symm⟩
  rcases Pass.serves_eq_some here with ⟨a, rfl, next, none, none'⟩ | ⟨a, rfl, same, next⟩
  · rw [none'] at writes
    cases writes
    rw [next, Draft.serveAll_append, reads] at reads'
    rw [none] at writes'
    cases writes'
    obtain ⟨current, held, added⟩ := single reads'
    exact ⟨false, a, current, rfl, held, added⟩
  · rw [same, reads] at reads'
    cases reads'
    rw [next, Draft.serveAll_append, writes] at writes'
    obtain ⟨current, held, added⟩ := single writes'
    exact ⟨true, a, current, rfl, held, added⟩

theorem after_drafted (closed : b.declaration.Closed)
    (drafted : Draft.recordAll b 0 (b.live.take n) { tracks := b.startTracks } = .ok d)
    (inside : r.index < d.tracks.length) :
    (d.track r).After (touchesOf (b.live.take n) r).getLast? := by
  obtain ⟨log, same, _, recounted⟩ := (Draft.consistent_startTracks b).recordAll
    (P := fun d log => d.Recounted b.startTracks.length log)
    (fun _ consistent recounted recorded => recounted.recordPass consistent recorded)
    (Draft.recounted_start b)
    (fun entry member => within_live closed entry (List.mem_of_mem_take member)) drafted
  have logged : logged log = b.live.take n := same
  rw [← logged]
  exact recounted.after r (recounted.length ▸ inside)

theorem after_midway (p : PassId) (closed : b.declaration.Closed)
    (reached : b.midway n pass k = some (d, batch)) (inside : r.index < d.tracks.length) :
    (d.track r).After (b.touchesUpTo n p pass k r).getLast? := by
  obtain ⟨start, read, drafted, reads, writes⟩ := midway_eq_some.mp reached
  have length : (start.arrive pass).tracks.length = start.tracks.length :=
    congrArg List.length (Draft.keeps_arrive Draft.tracks (fun _ _ _ _ _ _ => rfl) start pass)
  have arrived : (start.arrive pass).track r = start.track r :=
    Draft.keeps_arrive (·.track r) (fun _ _ _ _ _ _ => rfl) start pass
  have inside' : r.index < start.tracks.length := calc
    r.index < d.tracks.length := inside
    _ = read.1.tracks.length := Draft.length_tracks_serveAll writes
    _ = (start.prepare pass).tracks.length := Draft.length_tracks_serveAll reads
    _ = (start.arrive pass).tracks.length :=
        Draft.length_tracks_foldl_modifyTrack Access.resource _ pass.creates _
    _ = start.tracks.length := length
  have created : ((start.prepare pass).track r).After
      ((touchesBy p pass.queue .create pass.creates r).getLast?.or
        (touchesOf (b.live.take n) r).getLast?) :=
    Draft.after_creates p pass.creates (length ▸ inside')
      (arrived ▸ after_drafted closed drafted inside')
  have served :=
    (Draft.marks_serveAll (p := p) writes (Draft.marks_serveAll (p := p) reads created).1).1
  rw [touchesUpTo, Pass.touchesBy_serves]
  simp only [List.getLast?_append, Option.or_assoc]
  exact served

theorem unorderedIn_midway (closed : b.declaration.Closed) (here : (pass.serves p)[k]? = some u)
    (before : b.midway n pass k = some (d, batch))
    (after : b.midway n pass (k + 1) = some (d', batch')) :
    unorderedIn batch' = unorderedIn batch ++ b.account n p pass k u := by
  obtain ⟨output, a, current, rfl, held, rfl⟩ := serve_of_midway here before after
  have latest := after_midway p closed before (Draft.inside_of_state held)
  have tracked : b.heldAt n pass k a.resource = some current := by
    rw [heldAt, before]
    exact held
  have pending : (d.track a.resource).pendingWrite = some pass.queue ↔
      ∃ t ∈ (b.touchesUpTo n p pass k a.resource).getLast?,
        t.writesUnordered = true ∧ t.queue = pass.queue := by
    rw [latest.pending, Option.bind_eq_some_iff]
    simp only [Touch.leaves, Option.ite_none_right_eq_some, Option.some.injEq, Option.mem_def]
  have state : (∃ state ∈ b.heldAt n pass k a.resource, state.satisfies a.state = true) ↔
      current.satisfies a.state = true := by
    simp [tracked]
  have meets : (b.demand n pass.queue output a).Meets current ⟨d.track a.resource, batch⟩ ↔
      b.IsHazard n p pass k ((b.demand n pass.queue output a).touch p) :=
    and_congr Demand.isServed_touch.symm (and_congr pending state.symm)
  by_cases hazard : b.IsHazard n p pass k ((b.demand n pass.queue output a).touch p)
  · rw [account, if_pos hazard, Demand.unorderedIn_serve_of_meets (meets.mpr hazard)]
    rfl
  · rw [account, if_neg hazard, List.append_nil,
      Demand.unorderedIn_serve_of_not_meets fun met => hazard (meets.mp met)]

theorem midway_zero
    (drafted : Draft.recordAll b 0 (b.live.take n) { tracks := b.startTracks } = .ok d) :
    b.midway n pass 0 = some (d.prepare pass, []) := by
  refine midway_eq_some.mpr ⟨d, (d.prepare pass, []), drafted, rfl, ?_⟩
  rw [Nat.zero_sub]
  rfl

theorem accountUpTo_succ (here : (pass.serves p)[k]? = some u) :
    b.accountUpTo n p pass (k + 1) = b.accountUpTo n p pass k ++ b.account n p pass k u := by
  have length : ((pass.serves p).take k).length = k :=
    List.length_take_of_le (Nat.le_of_lt (List.getElem?_eq_some_iff.mp here).1)
  rw [accountUpTo, accountUpTo, List.take_add_one, here, List.zipIdx_append, List.flatMap_append,
    length, Nat.zero_add]
  exact congrArg _ (List.append_nil _)

theorem unorderedIn_upTo (closed : b.declaration.Closed) {start last : Draft}
    (drafted : Draft.recordAll b 0 (b.live.take n) { tracks := b.startTracks } = .ok start)
    (recorded : start.recordPass b n p pass = .ok last) (within : k ≤ (pass.serves p).length)
    (reached : b.midway n pass k = some (d, batch)) :
    unorderedIn batch = b.accountUpTo n p pass k := by
  induction k generalizing d batch with
  | zero =>
    rw [midway_zero drafted] at reached
    cases reached
    rfl
  | succ k ih =>
    obtain ⟨mid, done, before⟩ := exists_midway k drafted recorded
    have here : (pass.serves p)[k]? = some (pass.serves p)[k] := List.getElem?_eq_getElem within
    rw [unorderedIn_midway closed here before reached, ih (Nat.le_of_lt within) before,
      accountUpTo_succ here]

/-! The accesses in their order. -/

theorem touchesUpTo_succ (here : (pass.serves p)[k]? = some u) (r : ResourceId) :
    b.touchesUpTo n p pass (k + 1) r =
      b.touchesUpTo n p pass k r ++ [u].filter (·.access.resource == r) := by
  rw [touchesUpTo, touchesUpTo, List.take_add_one, here, Option.toList_some, List.filter_append]
  simp only [List.append_assoc]

theorem touchesUpTo_length (entry : b.live[n]? = some (p, pass)) (r : ResourceId) :
    b.touchesUpTo n p pass (pass.serves p).length r = touchesOf (b.live.take (n + 1)) r := by
  rw [touchesUpTo, List.take_length, ← Pass.touchesOf_eq, List.take_add_one, entry, touchesOf,
    touchesOf, Option.toList_some, List.flatMap_append, List.flatMap_singleton]

theorem touchesUpTo_mono {m : Nat} (le : k ≤ m) (r : ResourceId) :
    b.touchesUpTo n p pass k r <+: b.touchesUpTo n p pass m r := by
  rw [touchesUpTo, touchesUpTo, List.prefix_append_right_inj, List.prefix_append_right_inj]
  exact (List.take_prefix_take_left le).filter _

theorem touchesOf_take_mono {m : Nat} (le : m ≤ n) (r : ResourceId) :
    touchesOf (b.live.take m) r <+: touchesOf (b.live.take n) r :=
  (List.take_prefix_take_left le).flatMap _

theorem touchesUpTo_within (entry : b.live[n]? = some (p, pass))
    (within : k ≤ (pass.serves p).length) (r : ResourceId) :
    b.touchesUpTo n p pass k r <+: touchesOf (b.live.take (n + 1)) r := by
  rw [← touchesUpTo_length entry]
  exact touchesUpTo_mono within r

theorem touchesOf_split (entry : b.live[n]? = some (p, pass))
    (here : (pass.serves p)[k]? = some u) :
    ∃ rest, touchesOf b.live u.access.resource =
      b.touchesUpTo n p pass k u.access.resource ++ u :: rest := by
  have within := (List.getElem?_eq_some_iff.mp here).1
  obtain ⟨rest, split⟩ := (touchesUpTo_within entry within u.access.resource).trans
    ((List.take_prefix (n + 1) b.live).flatMap _)
  refine ⟨rest, ?_⟩
  change _ = touchesOf b.live _ at split
  rw [← split, touchesUpTo_succ here, List.filter_singleton, beq_self_eq_true, List.append_assoc]
  rfl

end Brief

/-! The barriers of a schedule. -/

theorem batch_of_passBlock {list into : ListId} {batch barriers : List Barrier} {p q : PassId}
    (same : passBlock list batch p = passBlock into barriers q) : batch = barriers := by
  cases batch with
  | nil =>
    cases barriers with
    | nil => rfl
    | cons barrier rest => simp [passBlock] at same
  | cons first others =>
    cases barriers with
    | nil => simp [passBlock] at same
    | cons barrier rest =>
      simp only [passBlock, List.isEmpty_cons, Bool.false_eq_true, if_false, List.cons_append,
        List.cons.injEq, Event.barriers.injEq] at same
      rw [same.1.2.1, same.1.2.2]

theorem unordered_of_plain {events : List Event} (plain : ∀ e ∈ events, e.isPlain = true) :
    events.flatMap Event.unordered = [] := by
  refine List.flatMap_eq_nil_iff.mpr fun e member => ?_
  have here := plain e member
  cases e with
  | barriers | record => cases here
  | openList | submit | sync => rfl

theorem unordered_passBlock (list : ListId) (batch : List Barrier) (p : PassId) :
    (passBlock list batch p).flatMap Event.unordered = unorderedIn batch := by
  unfold passBlock
  split
  · rename_i none
    rw [List.isEmpty_iff.mp none]
    rfl
  · simp [Event.unordered]

theorem unorderedIn_transitions (ts : List Transition) :
    unorderedIn (ts.map .transition) = [] := by
  simp [unorderedIn, Barrier.unordered?]

namespace Brief

variable {b : Brief} {s : Schedule} {d : Draft} {n k : Nat} {p : PassId} {pass : Pass}
  {list : ListId} {batch : List Barrier} {r : ResourceId} {u : Touch}

theorem Turn.exists_recorded (turn : b.Turn s n p pass d list batch) (made : b.schedule = .ok s) :
    ∃ d', d.recordPass b n p pass = .ok d' ∧
      Draft.recordAll b 0 (b.live.take (n + 1)) { tracks := b.startTracks } = .ok d' := by
  obtain ⟨_, whole, _⟩ := exists_draft made
  obtain ⟨start, last, drafted, recorded, next, _⟩ := exists_drafts turn.entry whole
  cases drafted.symm.trans turn.drafted
  exact ⟨last, recorded, next⟩

theorem Turn.midway_length (turn : b.Turn s n p pass d list batch) (made : b.schedule = .ok s) :
    ∃ last, b.midway n pass (pass.serves p).length = some (last, batch) := by
  obtain ⟨_, recorded, next⟩ := turn.exists_recorded made
  obtain ⟨read, served, barriers, reads, writes, rfl⟩ := Draft.recordPass_ok recorded
  obtain ⟨_, next', events⟩ := turn.next
  cases next.symm.trans next'
  rw [Draft.events_served reads writes, List.append_assoc, List.append_cancel_left_eq] at events
  obtain rfl : barriers = batch := batch_of_passBlock events
  have length : (pass.serves p).length = pass.reads.length + pass.writes.length := by
    rw [Pass.serves, List.length_append, List.length_map, List.length_map]
  refine ⟨served, midway_eq_some.mpr ⟨d, read, turn.drafted, ?_, ?_⟩⟩
  · rwa [List.take_of_length_le (by omega)]
  · rwa [List.take_of_length_le (by omega)]

theorem Turn.unorderedIn_batch (turn : b.Turn s n p pass d list batch)
    (closed : b.declaration.Closed) (made : b.schedule = .ok s) :
    unorderedIn batch = b.hazards n p pass := by
  obtain ⟨_, recorded, _⟩ := turn.exists_recorded made
  obtain ⟨_, reached⟩ := turn.midway_length made
  exact unorderedIn_upTo closed turn.drafted recorded (Nat.le_refl _) reached

theorem hazardsUpTo_succ (entry : b.live[n]? = some (p, pass)) :
    b.hazardsUpTo (n + 1) = b.hazardsUpTo n ++ b.hazards n p pass := by
  have length : (b.live.take n).length = n :=
    List.length_take_of_le (Nat.le_of_lt (List.getElem?_eq_some_iff.mp entry).1)
  rw [hazardsUpTo, hazardsUpTo, List.take_add_one, entry, List.zipIdx_append, List.flatMap_append,
    length, Nat.zero_add]
  exact congrArg _ (List.append_nil _)

theorem unordered_drafted (closed : b.declaration.Closed) (made : b.schedule = .ok s)
    (within : n ≤ b.live.length)
    (drafted : Draft.recordAll b 0 (b.live.take n) { tracks := b.startTracks } = .ok d) :
    d.events.flatMap Event.unordered = b.hazardsUpTo n := by
  induction n generalizing d with
  | zero =>
    cases drafted
    rfl
  | succ n ih =>
    obtain ⟨⟨p, pass⟩, entry⟩ : ∃ entry, b.live[n]? = some entry :=
      ⟨_, List.getElem?_eq_getElem within⟩
    obtain ⟨start, list, batch, turn⟩ := exists_turn closed made entry
    obtain ⟨d', next, events⟩ := turn.next
    cases next.symm.trans drafted
    obtain ⟨more, arrived, plain⟩ := start.continues_arrive pass
    rw [events, arrived, List.flatMap_append, List.flatMap_append, unordered_of_plain plain,
      List.append_nil, ih (Nat.le_of_lt within) turn.drafted, unordered_passBlock,
      turn.unorderedIn_batch closed made, hazardsUpTo_succ entry]

theorem unordered_schedule (closed : b.declaration.Closed) (made : b.schedule = .ok s) :
    s.unordered = b.hazardsUpTo b.live.length := by
  obtain ⟨last, drafted, rfl⟩ := exists_draft made
  have recorded := recordAll_of_draft drafted
  rw [← b.live.take_length] at recorded
  obtain ⟨more, rest, plain, events, ends⟩ := last.events_finish (last.restoration b)
  have restored : rest.flatMap Event.unordered = [] := by
    rcases ends with ⟨_, rfl⟩ | ⟨_, list, _, rfl⟩
    · rfl
    · simp [Event.unordered, unorderedIn_transitions]
  change (last.restoreAll (last.restoration b)).submitCurrent.events.flatMap Event.unordered = _
  rw [events, List.flatMap_append, List.flatMap_append, unordered_of_plain plain, restored,
    unordered_drafted closed made (Nat.le_refl _) recorded]
  exact List.append_nil _

end Brief

/-! Every unordered write pays for one barrier at most. -/

def owed (last : Option Touch) : Nat := if last.any (·.writesUnordered) then 1 else 0

/-- So many barriers are paid for by the unordered writes among the accesses, even if the latest
one causes another barrier. -/
def Covers (touches : List Touch) (barriers : Nat) : Prop :=
  barriers + owed touches.getLast? ≤ touches.countP (·.writesUnordered)

namespace Covers

variable {touches more : List Touch} {barriers added : Nat}

theorem concat (covers : Covers touches barriers) (paid : added ≤ owed touches.getLast?)
    (u : Touch) : Covers (touches ++ [u]) (barriers + added) := by
  unfold Covers at *
  have last : owed (touches ++ [u]).getLast? = [u].countP (·.writesUnordered) := by
    simp [owed, List.countP_singleton]
  rw [last, List.countP_append]
  omega

theorem append (covers : Covers touches barriers) : Covers (touches ++ more) barriers := by
  induction more generalizing touches with
  | nil => rwa [List.append_nil]
  | cons u more ih =>
    rw [List.append_cons]
    exact ih (covers.concat (Nat.zero_le _) u)

end Covers

namespace Brief

variable {b : Brief} {n k : Nat} {p : PassId} {pass : Pass} {r : ResourceId} {u : Touch}

theorem count_account_le : (b.account n p pass k u).count u.access.resource ≤
    owed (b.touchesUpTo n p pass k u.access.resource).getLast? := by
  unfold account
  split
  · rename_i hazard
    obtain ⟨_, ⟨t, last, writes, _⟩, _⟩ := hazard
    rw [Option.mem_def.mp last]
    simp [owed, writes]
  · exact Nat.zero_le _

theorem covers_upTo
    (covers : Covers (touchesOf (b.live.take n) r) ((b.hazardsUpTo n).count r))
    (within : k ≤ (pass.serves p).length) : Covers (b.touchesUpTo n p pass k r)
      ((b.hazardsUpTo n).count r + (b.accountUpTo n p pass k).count r) := by
  induction k with
  | zero => exact covers.append
  | succ k ih =>
    have here : (pass.serves p)[k]? = some (pass.serves p)[k] := List.getElem?_eq_getElem within
    have before := ih (Nat.le_of_lt within)
    generalize (pass.serves p)[k] = u at here
    rw [touchesUpTo_succ here, accountUpTo_succ here, List.count_append, ← Nat.add_assoc]
    by_cases same : u.access.resource = r
    · subst same
      rw [List.filter_singleton, beq_self_eq_true]
      exact before.concat count_account_le u
    · have none : (b.account n p pass k u).count r = 0 := by
        unfold account
        split <;> simp [same]
      have other : (u.access.resource == r) = false := beq_eq_false_iff_ne.mpr same
      rw [none, List.filter_singleton, other, cond_false, List.append_nil]
      exact before

theorem covers_hazards (within : n ≤ b.live.length) (r : ResourceId) :
    Covers (touchesOf (b.live.take n) r) ((b.hazardsUpTo n).count r) := by
  induction n with
  | zero => exact Nat.le_refl 0
  | succ n ih =>
    obtain ⟨⟨p, pass⟩, entry⟩ : ∃ entry, b.live[n]? = some entry :=
      ⟨_, List.getElem?_eq_getElem within⟩
    have covers := covers_upTo (ih (Nat.le_of_lt within)) (Nat.le_refl (pass.serves p).length)
    rwa [touchesUpTo_length entry, ← hazards, ← List.count_append, ← hazardsUpTo_succ entry]
      at covers

theorem Blames.unique {i m j : Nat} (blames : b.Blames n k r i) (blames' : b.Blames m j r i) :
    n = m ∧ k = j := by
  have shorter {n k m j : Nat} (blames : b.Blames n k r i) (blames' : b.Blames m j r i) :
      ¬ n < m ∧ (n = m → ¬ k < j) := by
    obtain ⟨p, pass, u, entry, here, rfl, _, length⟩ := blames
    obtain ⟨q, other, v, entry', here', same, _, length'⟩ := blames'
    have next : (b.touchesUpTo n p pass (k + 1) u.access.resource).length = i + 2 := by
      rw [touchesUpTo_succ here, List.filter_singleton, beq_self_eq_true, List.length_append,
        length]
      rfl
    refine ⟨fun earlier => ?_, ?_⟩
    · have within : k + 1 ≤ (pass.serves p).length := (List.getElem?_eq_some_iff.mp here).1
      have first := touchesUpTo_within entry within u.access.resource
      have second : touchesOf (b.live.take (n + 1)) u.access.resource <+:
          b.touchesUpTo m q other j u.access.resource :=
        (touchesOf_take_mono earlier _).trans (List.prefix_append _ _)
      have most := (first.trans second).length_le
      omega
    · rintro rfl earlier
      cases entry.symm.trans entry'
      have longer : b.touchesUpTo n p pass (k + 1) u.access.resource <+:
          b.touchesUpTo n p pass j u.access.resource := touchesUpTo_mono earlier _
      have most := longer.length_le
      omega
  have first := shorter blames blames'
  have second := shorter blames' blames
  obtain rfl : n = m := by omega
  exact ⟨rfl, Nat.le_antisymm (Nat.le_of_not_lt (second.2 rfl)) (Nat.le_of_not_lt (first.2 rfl))⟩

theorem account_eq_nil
    (reads : ∀ t ∈ (b.touchesUpTo n p pass k u.access.resource).getLast?, t.role = .read) :
    b.account n p pass k u = [] := by
  refine if_neg fun hazard => ?_
  obtain ⟨_, ⟨t, last, writes, _⟩, _⟩ := hazard
  rw [Touch.writesUnordered, reads t last] at writes
  cases writes

theorem Turn.marksHazards {s : Schedule} {d : Draft} {list : ListId} {batch : List Barrier}
    (turn : b.Turn s n p pass d list batch) (closed : b.declaration.Closed)
    (made : b.schedule = .ok s) : b.MarksHazards n p pass batch := by
  obtain ⟨_, recorded, _⟩ := turn.exists_recorded made
  have point (k : Nat) := exists_midway k turn.drafted recorded
  refine ⟨⟨_, midway_zero turn.drafted⟩, turn.midway_length made,
    fun k u => touchesOf_split turn.entry, fun k u here => ?_, fun k u here => ?_,
    fun _ _ _ => account_eq_nil⟩
  · obtain ⟨mid, done, before⟩ := point k
    obtain ⟨next, more, after⟩ := point (k + 1)
    obtain ⟨output, a, current, rfl, held, _⟩ := serve_of_midway here before after
    rw [heldAt, before]
    exact Option.isSome_iff_exists.mpr ⟨current, held⟩
  · obtain ⟨mid, done, before⟩ := point k
    obtain ⟨next, more, after⟩ := point (k + 1)
    exact ⟨mid, done, next, more, before, after, unorderedIn_midway closed here before after⟩

end Brief

namespace Session

variable {s s' : Session}

/-- Barriers without a transition sit exactly at the hazards. The batch of every surviving pass has
one on account of an access exactly if the access right before it is an unordered write on the same
queue and the resource is in a state that does for it; there are no others in the schedule; and no
unordered write is to blame for more than one. -/
theorem unordered_barriers_exact (reachable : s.Reachable) (does : s.Does Graph.compile s') :
    ∃ c, s'.graph.compilation = some c ∧
      (∀ n p pass, s'.graph.declaration.surviving[n]? = some (p, pass) → ∃ d list batch,
        s'.graph.culledBrief.Turn c.schedule n p pass d list batch ∧
          s'.graph.culledBrief.MarksHazards n p pass batch) ∧
      c.schedule.unordered =
        s'.graph.culledBrief.hazardsUpTo s'.graph.declaration.surviving.length ∧
      (∀ r i n k m j, s'.graph.culledBrief.Blames n k r i →
        s'.graph.culledBrief.Blames m j r i → n = m ∧ k = j) ∧
      ∀ r, c.schedule.unordered.count r ≤
        (touchesOf s'.graph.declaration.surviving r).countP (·.writesUnordered) := by
  obtain ⟨c, _, compiled, _, declaration, _⟩ := does.compiled
  have closed : s'.graph.declaration.Closed := declaration ▸ reachable.closed
  have made : s'.graph.culledBrief.schedule = .ok c.schedule := by
    have schedule := compiled.schedule
    rwa [Graph.brief, compiled.survival] at schedule
  have unordered := Brief.unordered_schedule closed made
  refine ⟨c, compiled.compilation, fun n p pass entry => ?_, unordered,
    fun _ _ _ _ _ _ => Brief.Blames.unique, fun r => ?_⟩
  · obtain ⟨d, list, batch, turn⟩ := Brief.exists_turn closed made entry
    exact ⟨d, list, batch, turn, turn.marksHazards closed made⟩
  · have covers := Brief.covers_hazards (Nat.le_refl s'.graph.culledBrief.live.length) r
    rw [List.take_length, ← unordered] at covers
    exact Nat.le_trans (Nat.le_add_right _ _) covers

/-! Particles that are simulated, sorted by keys and tallied, on the compute queue. -/

def tallied : Session := [
  .declare "simulate" .compute
    [.create { extent := .buffer 16 64 } "particles" .unorderedWrite []] none,
  .declare "sort" .compute
    [.read ⟨0⟩ "particles" .unorderedRead [],
      .create { extent := .buffer 16 64 } "keys" .unorderedWrite []] none,
  .declare "tally" .compute
    [.read ⟨0⟩ "particles" .unorderedRead [], .read ⟨1⟩ "keys" .unorderedRead [],
      .sideEffects true] none].foldl act (start {} [] {})

def talliedCull : CullResult :=
  ⟨{ passRefs := [1, 1, 0], resourceRefs := [2, 1], live := [true, true] }, []⟩

theorem tallied_cull : tallied.graph.declaration.cull = talliedCull := by
  unfold tallied talliedCull
  cbv

def talliedBuilt : Session := tallied.built talliedCull

theorem tallied_compiles : tallied.Does Graph.compile talliedBuilt :=
  does_compile_of_fresh (by decide +kernel) (by decide +kernel) tallied_cull (by decide +kernel)

def talliedBrief : Brief :=
  ⟨tallied.graph.declaration, talliedCull.survival, tallied.graph.config.mergesReads⟩

theorem tallied_brief : talliedBuilt.graph.culledBrief = talliedBrief := by
  obtain ⟨_, _, _, _, declaration, config, _⟩ := tallied_compiles.compiled
  rw [Graph.culledBrief, declaration, config, tallied_cull, talliedBrief]

def tallyPass : Pass where
  name := "tally"
  queue := .compute
  reads := [{ name := "particles", resource := ⟨0⟩, usage := .unorderedRead },
    { name := "keys", resource := ⟨1⟩, usage := .unorderedRead }]
  sideEffects := true

theorem tallied_unordered : tallied.Reachable ∧ tallied.Does Graph.compile talliedBuilt ∧
    ∃ c, talliedBuilt.graph.compilation = some c ∧ c.schedule.unordered = [⟨0⟩, ⟨1⟩] ∧
      ∃ batch, talliedBuilt.graph.culledBrief.MarksHazards 2 ⟨2⟩ tallyPass batch ∧
        batch = [.unordered ⟨1⟩] := by
  have reachable : tallied.Reachable := (Reachable.start {} [] {}).foldl _
  obtain ⟨c, compilation, marks, unordered, _⟩ :=
    unordered_barriers_exact reachable tallied_compiles
  rw [← Graph.live_culledBrief, tallied_brief] at marks unordered
  obtain ⟨d, list, batch, _, marked⟩ := marks 2 ⟨2⟩ tallyPass (by decide +kernel)
  refine ⟨reachable, tallied_compiles, c, compilation, ?_, batch, tallied_brief ▸ marked, ?_⟩
  · rw [unordered]
    decide +kernel
  · obtain ⟨last, ends⟩ := marked.ends
    have made : (talliedBrief.midway 2 tallyPass (tallyPass.serves ⟨2⟩).length).map Prod.snd =
        some [.unordered ⟨1⟩] := by decide +kernel
    rw [ends] at made
    exact Option.some.inj made

end Session

end RenderGraph
