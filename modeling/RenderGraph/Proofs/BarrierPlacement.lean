import RenderGraph.Proofs.AccessHistory

/-! Where the barriers of a schedule stand. A pass has a barrier for a resource right before it
exactly on account of an access of the pass and of the access right before that one. -/

namespace RenderGraph

def Guards (events : List Event) (p : PassId) (r : ResourceId) : Prop :=
  ∃ (n : Nat) (list : ListId) (batch : List Barrier), events[n]? = some (.barriers list batch) ∧
    events[n + 1]? = some (.record list p) ∧ Names r batch

section

variable {events later more : List Event} {log : List Entry} {r : ResourceId} {p q : PassId}
  {list : ListId} {batch : List Barrier}

theorem Guards.mono (guards : Guards events p r) (longer : events <+: later) :
    Guards later p r := by
  obtain ⟨n, list, batch, barriers, record, names⟩ := guards
  obtain ⟨more, rfl⟩ := longer
  exact ⟨n, list, batch, getElem?_append_of_some barriers more,
    getElem?_append_of_some record more, names⟩

theorem Guards.of_append (guards : Guards (events ++ more) p r)
    (none : ∀ list, Event.record list p ∉ more) : Guards events p r := by
  obtain ⟨n, list, batch, barriers, record, names⟩ := guards
  have inside : n + 1 < events.length := by
    apply Nat.lt_of_not_le
    intro outside
    rw [List.getElem?_append_right outside] at record
    exact none list (List.mem_of_getElem? record)
  rw [List.getElem?_append_left inside] at record
  rw [List.getElem?_append_left (by omega)] at barriers
  exact ⟨n, list, batch, barriers, record, names⟩

theorem guards_concat (followed : ∀ (n : Nat) list batch,
      events[n]? = some (.barriers list batch) → n + 1 < events.length) :
    Guards (events ++ (if batch.isEmpty then [] else [.barriers list batch]) ++
      [.record list p]) q r ↔ Guards events q r ∨ q = p ∧ Names r batch := by
  constructor
  · rintro ⟨n, list', batch', barriers, record, names⟩
    rw [List.append_assoc] at barriers record
    rcases Nat.lt_or_ge (n + 1) events.length with low | high
    · rw [List.getElem?_append_left low] at record
      rw [List.getElem?_append_left (by omega)] at barriers
      exact Or.inl ⟨n, list', batch', barriers, record, names⟩
    · have outside : events.length ≤ n := by
        apply Nat.le_of_not_lt
        intro low
        rw [List.getElem?_append_left low] at barriers
        have inside := followed n list' batch' barriers
        omega
      obtain ⟨i, rfl⟩ := Nat.exists_eq_add_of_le outside
      rw [List.getElem?_append_right (by omega), Nat.add_sub_cancel_left] at barriers
      rw [List.getElem?_append_right (by omega), Nat.add_assoc, Nat.add_sub_cancel_left] at record
      split at barriers
      · rcases i with _ | i <;> simp at barriers
      · rename_i some
        rw [if_neg some] at record
        rcases i with _ | _ | i
        · simp only [List.cons_append, List.nil_append, List.getElem?_cons_zero,
            Option.some.injEq, Event.barriers.injEq] at barriers
          simp only [List.cons_append, List.nil_append, Nat.zero_add, List.getElem?_cons_succ,
            List.getElem?_cons_zero, Option.some.injEq, Event.record.injEq] at record
          exact Or.inr ⟨record.2.symm, barriers.2 ▸ names⟩
        · simp at barriers
        · simp at barriers
  · rintro (guards | ⟨rfl, names⟩)
    · rw [List.append_assoc]
      exact guards.mono (List.prefix_append _ _)
    · have some : ¬ batch.isEmpty = true := by
        rw [List.isEmpty_iff]
        rintro rfl
        cases names
      rw [if_neg some]
      exact ⟨events.length, list, batch, by simp, by simp, names⟩

end

theorem rel_of_isChain {α : Type} {R : α → α → Prop} {xs : List α} {x y : α}
    (chain : xs.IsChain R) (pair : [x, y] <:+: xs) : R x y := by
  obtain ⟨front, back, rfl⟩ := pair
  simpa using chain.left_of_append.right_of_append

theorem exists_pair_of_not_isChain {α : Type} {R : α → α → Prop} {xs : List α}
    (broken : ¬ xs.IsChain R) : ∃ front t u back, xs = front ++ t :: u :: back ∧ ¬ R t u := by
  induction xs with
  | nil => exact absurd .nil broken
  | cons x rest ih =>
    cases rest with
    | nil => exact absurd (.singleton x) broken
    | cons y rest =>
      rw [List.isChain_cons_cons, not_and_or] at broken
      rcases broken with first | later
      · exact ⟨[], x, y, rest, rfl, first⟩
      · obtain ⟨front, t, u, back, same, breaks⟩ := ih later
        exact ⟨x :: front, t, u, back, by rw [same]; rfl, breaks⟩

/-- The barriers for the resource are placed as the accesses of the recorded passes ask for them. -/
structure Recounts (events : List Event) (log : List Entry) (r : ResourceId) : Prop where
  parted : (touchesOf (logged log) r).IsChain fun t u => t.Parts u → Guards events u.pass r
  calm : ∀ p, Guards events p r → ∃ (k : Nat) (e : Entry), log[k]? = some e ∧ e.id = p ∧
    (touchesOf (logged (log.take k)) r ≠ [] →
      ∃ t u, [t, u] <:+: touchesOf (logged log) r ∧ u.pass = p ∧ t.Disturbs u)

section

variable {events later : List Event} {log : List Entry} {e : Entry} {r : ResourceId}
  {list : ListId} {batch : List Barrier}

theorem touchesOf_concat (log : List Entry) (e : Entry) (r : ResourceId) :
    touchesOf (logged (log ++ [e])) r =
      touchesOf (logged log) r ++ e.pass.touchesOf e.id r := by
  simp [touchesOf, logged]

theorem pass_of_mem_touchesOf {pass : Pass} {p : PassId} {u : Touch}
    (member : u ∈ pass.touchesOf p r) : u.pass = p := by
  simp only [Pass.touchesOf, touchesBy, List.mem_append, List.mem_map] at member
  rcases member with (⟨a, _, rfl⟩ | ⟨a, _, rfl⟩) | ⟨a, _, rfl⟩ <;> rfl

theorem Recounts.extend (recounts : Recounts events log r) (longer : events <+: later)
    (same : ∀ p, Guards later p r → Guards events p r) : Recounts later log r where
  parted := recounts.parted.imp fun _ _ guards parts => (guards parts).mono longer
  calm p guards := recounts.calm p (same p guards)

theorem exists_touch_of_not_isChain {R : Touch → Touch → Prop} {last : Option Touch}
    {touches : List Touch} (broken : ¬ (last.toList ++ touches).IsChain R) :
    ∃ t u, u ∈ touches ∧ ¬ R t u ∧ [t, u] <:+: last.toList ++ touches := by
  obtain ⟨front, t, u, back, same, breaks⟩ := exists_pair_of_not_isChain broken
  refine ⟨t, u, ?_, breaks, front, back, by simp [same]⟩
  cases last with
  | none =>
    rw [Option.toList_none, List.nil_append] at same
    simp [same]
  | some last =>
    cases front with
    | nil => simp_all
    | cons first front =>
      have rest : touches = front ++ t :: u :: back := (List.cons.inj same).2
      simp [rest]

theorem Recounts.record (recounts : Recounts events log r)
    (followed : ∀ (n : Nat) list batch, events[n]? = some (.barriers list batch) →
      n + 1 < events.length)
    (marks : Marks r (touchesOf (logged log) r).getLast? [] (e.pass.touchesOf e.id r) batch) :
    Recounts (events ++ (if batch.isEmpty then [] else [.barriers list batch]) ++
      [.record list e.id]) (log ++ [e]) r where
  parted := by
    rw [touchesOf_concat]
    refine (Marks.isChain_latest none _ _).mpr ⟨?_, ?_⟩
    · refine recounts.parted.imp fun _ _ guards parts => (guards parts).mono ?_
      rw [List.append_assoc]
      exact List.prefix_append _ _
    rw [Option.or_none]
    -- A chain can only break at an access of the new pass, and there its own batch guards it.
    by_contra broken
    obtain ⟨t, u, member, breaks, pair⟩ := exists_touch_of_not_isChain broken
    rw [pass_of_mem_touchesOf member] at breaks
    apply breaks
    intro parts
    apply (guards_concat followed).mpr
    by_cases names : Names r batch
    · exact Or.inr ⟨rfl, names⟩
    · have apart : ¬ t.Parts u := rel_of_isChain (marks.parted names) pair
      exact absurd parts apart
  calm := by
    intro p guards
    rcases (guards_concat followed).mp guards with old | ⟨rfl, names⟩
    · obtain ⟨k, f, held, same, disturbed⟩ := recounts.calm p old
      have inside := (List.getElem?_eq_some_iff.mp held).1
      refine ⟨k, f, getElem?_of_old held, same, ?_⟩
      rw [List.take_append_of_le_length (Nat.le_of_lt inside)]
      intro before
      obtain ⟨t, u, infix_, own, disturbs⟩ := disturbed before
      rw [touchesOf_concat]
      exact ⟨t, u, infix_.trans (List.prefix_append _ _).isInfix, own, disturbs⟩
    · -- The batch is the new one: without an access that disturbs, it would not name the resource.
      refine ⟨log.length, e, getElem?_concat_eq_some.mpr (Or.inr ⟨rfl, rfl⟩), rfl, ?_⟩
      rw [List.take_left]
      intro before
      obtain ⟨last, found⟩ := Option.isSome_iff_exists.mp (List.getLast?_isSome.mpr before)
      have broken : ¬ ((touchesOf (logged log) r).getLast?.toList ++
          e.pass.touchesOf e.id r).IsChain fun t u => ¬ t.Disturbs u :=
        fun chain => by cases marks.calm (by rw [found]; rfl) chain names
      obtain ⟨t, u, member, disturbs, pair⟩ := exists_touch_of_not_isChain broken
      refine ⟨t, u, ?_, pass_of_mem_touchesOf member, not_not.mp disturbs⟩
      rw [touchesOf_concat]
      refine pair.trans ?_
      obtain ⟨front, same⟩ := List.getLast?_eq_some_iff.mp found
      rw [found, same]
      exact ⟨front, [], by simp⟩

end

namespace Draft

variable {b : Brief} {d d' : Draft} {log : List Entry} {ordinal : Nat} {p : PassId} {pass : Pass}

structure Recounted (d : Draft) (tracks : Nat) (log : List Entry) : Prop where
  length : d.tracks.length = tracks
  after : ∀ r, r.index < tracks → (d.track r).After (touchesOf (logged log) r).getLast?
  recounts : ∀ r, r.index < tracks → Recounts d.events log r

theorem recounted_start (b : Brief) :
    ({ tracks := b.startTracks } : Draft).Recounted b.startTracks.length [] where
  length := rfl
  after := by
    intro r inside
    have none : ∀ t ∈ b.startTracks, t.pendingWrite = none := by
      intro t member
      obtain ⟨⟨resource, i⟩, _, rfl⟩ := List.mem_map.mp member
      dsimp only
      split <;> rfl
    refine ⟨?_, fun t absent => by cases absent⟩
    rw [track, List.getD_eq_getElem?_getD, List.getElem?_eq_getElem inside]
    exact none _ (List.getElem_mem inside)
  recounts r _ := ⟨.nil, fun p ⟨n, list, batch, barriers, _⟩ => by cases barriers⟩

theorem Consistent.followed (consistent : d.Consistent log) (pass : Pass) (n : Nat) (list : ListId)
    (batch : List Barrier) (held : (d.arrive pass).events[n]? = some (.barriers list batch)) :
    n + 1 < (d.arrive pass).events.length := by
  obtain ⟨e, _, record, _⟩ := consistent.batched.extend (d.continues_arrive pass) n list batch held
  exact (List.getElem?_eq_some_iff.mp record).1

theorem Recounted.recordPass {tracks : Nat} (recounted : d.Recounted tracks log)
    (consistent : d.Consistent log) (recorded : d.recordPass b ordinal p pass = .ok d') :
    d'.Recounted tracks (log ++ [d.entry p pass]) := by
  obtain ⟨batch, events, marks⟩ := marks_recordPass recorded
  have marked (r : ResourceId) (inside : r.index < tracks) :=
    marks r _ (recounted.length ▸ inside) (recounted.after r inside)
  refine ⟨(length_tracks_recordPass recorded).trans recounted.length, ?_, ?_⟩
  · intro r inside
    rw [touchesOf_concat, List.getLast?_append]
    exact (marked r inside).1
  · intro r inside
    rw [events]
    refine Recounts.record (e := d.entry p pass) ?_ (consistent.followed pass) (marked r inside).2
    obtain ⟨more, arrived, plain⟩ := d.continues_arrive pass
    rw [arrived]
    refine (recounted.recounts r inside).extend (List.prefix_append _ _) fun q guards => ?_
    exact guards.of_append fun list member => by cases plain _ member

theorem events_restoreAll (d : Draft) (restore : List Transition) :
    d.events <+: (d.restoreAll restore).events := by
  by_cases none : restore = []
  · exact none ▸ List.prefix_refl _
  · rw [keeps_restoreAll events (fun _ _ => rfl) none]
    exact ((d.continues_enter _).trans (continues_syncAll _ _ _)).isPrefix.trans
      (List.prefix_append _ _)

end Draft

namespace Brief

variable {b : Brief} {s : Schedule}

theorem recounts_of_schedule (closed : b.declaration.Closed) (made : b.schedule = .ok s) :
    ∃ log : List Entry, logged log = b.live ∧ s.Follows log ∧
      ∀ r, r.index < b.declaration.resources.length → Recounts s.events log r := by
  obtain ⟨d, drafted, rfl⟩ := exists_draft made
  obtain ⟨log, same, consistent, nonempty, recounted⟩ := Draft.consistent_draft_of_step
    (P := fun d log => d.Recounted b.startTracks.length log) (Draft.recounted_start b)
    (fun _ consistent recounted recorded => recounted.recordPass consistent recorded)
    closed drafted
  have follows := consistent.follows nonempty (d.restoration b)
  refine ⟨log, same, follows, fun r inside => ?_⟩
  rw [← Draft.length_startTracks] at inside
  obtain ⟨more, events⟩ : d.events <+: (b.finish d).events :=
    (d.events_restoreAll _).trans (Draft.continues_submitCurrent _).isPrefix
  have placed : (b.finish d).events.filterMap Event.placed? =
    d.events.filterMap Event.placed? := follows.placed.trans consistent.laid.placed.symm
  rw [← events, List.filterMap_append, List.append_right_eq_self] at placed
  change Recounts (b.finish d).events log r
  rw [← events]
  refine (recounted.recounts r inside).extend (List.prefix_append _ _) fun p guards => ?_
  refine guards.of_append fun list member => ?_
  have none := List.filterMap_eq_nil_iff.mp placed _ member
  simp [Event.placed?] at none

end Brief

end RenderGraph
