import RenderGraph.Proofs.DraftFinish

/-! Order between the lists of a schedule, and which surviving passes a schedule puts in order. -/

namespace RenderGraph

namespace Schedule

/-- The list is submitted at the position and nowhere else. -/
def SubmittedAt (s : Schedule) (list : ListId) (n : Nat) : Prop :=
  ∀ m : Nat, s.events[m]? = some (.submit list) ↔ m = n

/-- The pass is recorded once, into the list. -/
def RecordedInto (s : Schedule) (pass : PassId) (list : ListId) : Prop :=
  ∃ n : Nat, ∀ m list', s.events[m]? = some (.record list' pass) ↔ m = n ∧ list' = list

/-- The first list is submitted before a chain of syncs that leads from its queue to the queue of
the second list, which is submitted after the chain. -/
def Orders (s : Schedule) (first second : ListId) : Prop :=
  ∃ source waiting m i k n, s.listQueue? first = some source ∧
    s.listQueue? second = some waiting ∧ s.SubmittedAt first m ∧ m < i ∧
    SyncChain s.events source i waiting k ∧ k < n ∧ s.SubmittedAt second n

section

variable {s : Schedule} {pass : PassId} {list other : ListId}

theorem RecordedInto.mem_events (recorded : s.RecordedInto pass list) :
    .record list pass ∈ s.events := by
  obtain ⟨n, once⟩ := recorded
  exact List.mem_of_getElem? ((once n list).mpr ⟨rfl, rfl⟩)

theorem RecordedInto.list_eq {held : Nat} (recorded : s.RecordedInto pass list)
    (event : s.events[held]? = some (.record other pass)) : other = list := by
  obtain ⟨n, once⟩ := recorded
  exact ((once held other).mp event).2

end

namespace Follows

variable {s : Schedule} {log : List Entry} {e : Entry} {first second list : ListId}
  {source waiting queue : Queue}

theorem exists_entry (follows : s.Follows log) {pass : PassId}
    (member : .record list pass ∈ s.events) : ∃ e ∈ log, e.list = list ∧ e.id = pass := by
  have placed : (list, pass) ∈ s.events.filterMap Event.placed? :=
    List.mem_filterMap.mpr ⟨_, member, rfl⟩
  rw [follows.placed] at placed
  obtain ⟨e, held, same⟩ := List.mem_map.mp placed
  obtain ⟨rfl, rfl⟩ := Prod.mk.inj same
  exact ⟨e, held, rfl, rfl⟩

theorem submittedAt (follows : s.Follows log) (opened : s.listQueue? list = some queue) :
    ∃ n, s.SubmittedAt list n := by
  have inside : list.index < s.lists.length := (List.getElem?_eq_some_iff.mp opened).1
  have member : list ∈ s.events.filterMap Event.submitted? := by
    rw [follows.submits]
    exact List.mem_map.mpr ⟨list.index, List.mem_range.mpr inside, rfl⟩
  obtain ⟨event, present, submits⟩ := List.mem_filterMap.mp member
  rw [Event.submitted?_eq_some.mp submits] at present
  obtain ⟨n, held⟩ := List.mem_iff_getElem?.mp present
  have once : (s.events.filterMap Event.submitted?).Nodup := by
    rw [follows.submits]
    exact Draft.nodup_range_map_list _
  refine ⟨n, fun m => ⟨fun other => ?_, fun same => same ▸ held⟩⟩
  exact position_unique once other held rfl rfl

theorem submitted_le (follows : s.Follows log) (le : first.index ≤ second.index) {m n : Nat}
    (submit : s.events[m]? = some (.submit first))
    (submit' : s.events[n]? = some (.submit second)) : m ≤ n := by
  have rising : (s.events.filterMap Event.submitted?).Pairwise fun a b => a.index < b.index := by
    rw [follows.submits]
    exact List.pairwise_map.mpr List.pairwise_lt_range
  have apart := List.pairwise_iff_getElem.mp (List.pairwise_filterMap.mp rising)
  obtain ⟨inside, same⟩ := List.getElem?_eq_some_iff.mp submit
  obtain ⟨inside', same'⟩ := List.getElem?_eq_some_iff.mp submit'
  apply Nat.le_of_not_lt
  intro after
  have lower := apart n m inside' inside after second (by rw [same']; rfl) first (by rw [same]; rfl)
  exact Nat.not_lt_of_le le lower

theorem recordedPasses (follows : s.Follows log) : s.recordedPasses = log.map (·.id) := by
  have recorded : Event.recorded? = fun event => event.placed?.map Prod.snd := by
    funext event
    cases event <;> rfl
  rw [Schedule.recordedPasses, recorded, ← List.map_filterMap, follows.placed, List.map_map]
  rfl

theorem recordedInto (follows : s.Follows log) (distinct : (log.map (·.id)).Nodup)
    (member : e ∈ log) : s.RecordedInto e.id e.list := by
  have placed : (e.list, e.id) ∈ s.events.filterMap Event.placed? := by
    rw [follows.placed]
    exact List.mem_map_of_mem member
  obtain ⟨event, present, records⟩ := List.mem_filterMap.mp placed
  rw [Event.placed?_eq_some.mp records] at present
  obtain ⟨n, held⟩ := List.mem_iff_getElem?.mp present
  have once : (s.events.filterMap Event.recorded?).Nodup := by
    have recorded : s.events.filterMap Event.recorded? = log.map (·.id) := follows.recordedPasses
    rw [recorded]
    exact distinct
  refine ⟨n, fun m list' => ⟨fun other => ?_, ?_⟩⟩
  · have same : m = n := position_unique once other held rfl rfl
    rw [same, held] at other
    cases other
    exact ⟨same, rfl⟩
  · rintro ⟨rfl, rfl⟩
    exact held

theorem orders (follows : s.Follows log) (opened : s.listQueue? first = some source)
    (opened' : s.listQueue? second = some waiting)
    (before : ReachesBefore s.events first source second waiting) : s.Orders first second := by
  obtain ⟨m, i, k, submit, later, chain, bound⟩ := before
  obtain ⟨m', once⟩ := follows.submittedAt opened
  obtain ⟨n, once'⟩ := follows.submittedAt opened'
  have same : m = m' := (once m).mp submit
  have last : s.events[n]? = some (.submit second) := (once' n).mpr rfl
  exact ⟨source, waiting, m, i, k, n, opened, opened', same ▸ once, later, chain, bound n last,
    once'⟩

end Follows

end Schedule

namespace Declaration

variable {d : Declaration} {survival : Survival}

theorem pairwise_entries (d : Declaration) :
    d.entries.Pairwise fun e f => e.1.index < f.1.index := by
  apply List.pairwise_map.mpr
  rw [List.pairwise_iff_getElem]
  intro i j inside inside' before
  simpa using before

theorem pairwise_survivors (d : Declaration) (survival : Survival) :
    (d.survivors survival).Pairwise fun e f => e.1.index < f.1.index :=
  d.pairwise_entries.filter _

end Declaration

namespace Brief

variable {b : Brief} {s : Schedule}

theorem follows_of_schedule (closed : b.declaration.Closed) (made : b.schedule = .ok s) :
    ∃ log : List Entry, log.map (fun e => (e.id, e.pass)) = b.live ∧ s.Follows log := by
  obtain ⟨d, drafted, rfl⟩ := exists_draft made
  obtain ⟨log, same, consistent, nonempty⟩ := Draft.consistent_draft closed drafted
  exact ⟨log, same, consistent.follows nonempty _⟩

section

variable {log : List Entry}

theorem exists_entry (same : log.map (fun e => (e.id, e.pass)) = b.live) {p : PassId}
    {pass : Pass} (member : (p, pass) ∈ b.live) :
    ∃ (k : Nat) (e : Entry), log[k]? = some e ∧ e.id = p ∧ e.pass = pass := by
  rw [← same] at member
  obtain ⟨e, present, equal⟩ := List.mem_map.mp member
  obtain ⟨rfl, rfl⟩ := Prod.mk.inj equal
  obtain ⟨k, held⟩ := List.mem_iff_getElem?.mp present
  exact ⟨k, e, held, rfl, rfl⟩

theorem pairwise_log (same : log.map (fun e => (e.id, e.pass)) = b.live) :
    log.Pairwise fun e f => e.id.index < f.id.index := by
  have pairwise := b.declaration.pairwise_survivors b.survival
  have live : b.declaration.survivors b.survival = b.live := rfl
  rw [live, ← same, List.pairwise_map] at pairwise
  exact pairwise

theorem lt_of_index_lt (same : log.map (fun e => (e.id, e.pass)) = b.live) {j k : Nat}
    {e f : Entry} (first : log[j]? = some e) (second : log[k]? = some f)
    (before : e.id.index < f.id.index) : j < k := by
  have apart := List.pairwise_iff_getElem.mp (pairwise_log same)
  obtain ⟨inside, rfl⟩ := List.getElem?_eq_some_iff.mp first
  obtain ⟨inside', rfl⟩ := List.getElem?_eq_some_iff.mp second
  rcases Nat.lt_trichotomy j k with lower | rfl | higher
  · exact lower
  · exact absurd before (Nat.lt_irrefl _)
  · exact absurd (apart k j inside' inside higher) (Nat.lt_asymm before)

theorem nodup_ids (same : log.map (fun e => (e.id, e.pass)) = b.live) :
    (log.map (·.id)).Nodup := by
  apply List.pairwise_map.mpr
  apply (pairwise_log same).imp
  intro e f before equal
  rw [equal] at before
  exact Nat.lt_irrefl _ before

end

end Brief

end RenderGraph
