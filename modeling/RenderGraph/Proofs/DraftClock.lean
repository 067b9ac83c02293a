import RenderGraph.Proofs.DraftLayout

/-! What the clocks of a draft stand for. If a queue's clock covers a recorded pass, a chain of
syncs leads from the pass's list to that queue. Syncing brings every pass that the accesses depend
on under the clock. -/

namespace RenderGraph

namespace Draft

variable {d : Draft} {log : List Entry} {source waiting queue w q : Queue} {k : Nat}

theorem covers_eq_true {done : Option Nat} :
    covers done k = true ↔ ∃ n, done = some n ∧ k ≤ n := by
  cases done <;> simp [covers]

theorem covers_max (a b : Option Nat) (k : Nat) :
    covers (max a b) k = (covers a k || covers b k) := by
  rw [Bool.eq_iff_iff]
  cases a <;> cases b <;> grind [covers]

/-- The queue waits for the source up to the recorded pass, or further. -/
def Hears (d : Draft) (waiting source : Queue) (ordinal : Nat) : Prop :=
  covers ((d.clocks.get waiting).get source) ordinal = true

/-! The fields of a draft after a sync. -/

theorem keeps_fenceFor {α : Type} (view : Draft → α)
    (same : ∀ fences d, view { d with fences } = view d) (d : Draft) (queue : Queue) :
    view (d.fenceFor queue).2 = view d := by
  unfold fenceFor
  split
  · rfl
  · exact same _ d

theorem keeps_sync {α : Type} (view : Draft → α)
    (same : ∀ fences clocks events d, view { d with fences, clocks, events } = view d) (d : Draft)
    (source waiting : Queue) : view (d.sync source waiting) = view d :=
  (same _ _ _ (d.fenceFor source).2).trans
    (keeps_fenceFor view (fun fences d => same fences d.clocks d.events d) d source)

theorem events_sync (d : Draft) (source waiting : Queue) :
    ∃ fence, (d.sync source waiting).events = d.events ++ [.sync source waiting fence] :=
  ⟨(d.fenceFor source).1, congrArg (· ++ _) (keeps_fenceFor events (fun _ _ => rfl) d source)⟩

theorem clocks_sync (d : Draft) (source waiting : Queue) :
    (d.sync source waiting).clocks = d.clocks.set waiting (d.advance source waiting) := by
  have clocks := keeps_fenceFor clocks (fun _ _ => rfl) d source
  have lastOn := keeps_fenceFor lastOn (fun _ _ => rfl) d source
  simp only [sync, emit, advance, clocks, lastOn]

theorem hears_sync_other (other : w ≠ waiting) :
    (d.sync source waiting).Hears w q k ↔ d.Hears w q k := by
  simp only [Hears, clocks_sync, PerQueue.get_set, if_neg other]

theorem hears_sync_self : (d.sync source waiting).Hears waiting waiting k ↔
    d.Hears waiting waiting k := by
  simp only [Hears, clocks_sync, PerQueue.get_set, advance, PerQueue.get_tabulate, if_true]

theorem hears_sync_source (apart : source ≠ waiting) :
    (d.sync source waiting).Hears waiting source k ↔
      covers (d.lastOn.get source) k = true ∨ d.Hears source source k := by
  simp only [Hears, clocks_sync, PerQueue.get_set, advance, PerQueue.get_tabulate, if_true,
    if_neg apart, covers_max, Bool.or_eq_true]

theorem hears_sync_third (fromWaiting : q ≠ waiting) (fromSource : q ≠ source) :
    (d.sync source waiting).Hears waiting q k ↔ d.Hears waiting q k ∨ d.Hears source q k := by
  simp only [Hears, clocks_sync, PerQueue.get_set, advance, PerQueue.get_tabulate, if_true,
    if_neg fromWaiting, if_neg fromSource, covers_max, Bool.or_eq_true]

structure Timed (d : Draft) (log : List Entry) : Prop where
  recorded : ∀ q k, covers (d.lastOn.get q) k = true → k < log.length
  latest : ∀ k e, log[k]? = some e → covers (d.lastOn.get e.pass.queue) k = true
  own : ∀ q k, ¬ d.Hears q q k
  bounded : ∀ w q k, d.Hears w q k → covers (d.lastOn.get q) k = true
  sound : ∀ w k e, log[k]? = some e → d.Hears w e.pass.queue k →
    Reaches d.events e.list e.pass.queue w

theorem Timed.sync (timed : d.Timed log) (laid : d.Laid log) {list : ListId}
    (current : d.current = some (waiting, list)) (apart : source ≠ waiting) :
    (d.sync source waiting).Timed log := by
  obtain ⟨fence, events⟩ := d.events_sync source waiting
  have lastOn := keeps_sync lastOn (fun _ _ _ _ => rfl) d source waiting
  constructor
  · rw [lastOn]
    exact timed.recorded
  · rw [lastOn]
    exact timed.latest
  · intro q k hears
    by_cases same : q = waiting
    · subst same
      exact timed.own q k (hears_sync_self.mp hears)
    · exact timed.own q k ((hears_sync_other same).mp hears)
  · intro w q k hears
    rw [lastOn]
    by_cases same : w = waiting
    · subst same
      by_cases self : q = w
      · subst self
        exact timed.bounded q q k (hears_sync_self.mp hears)
      by_cases fromSource : q = source
      · subst fromSource
        exact ((hears_sync_source apart).mp hears).resolve_right (timed.own q k)
      rcases (hears_sync_third self fromSource).mp hears with before | heard
      · exact timed.bounded w q k before
      · exact timed.bounded source q k heard
    · exact timed.bounded w q k ((hears_sync_other same).mp hears)
  · intro w k e held hears
    rw [events]
    by_cases same : w = waiting
    · subst same
      by_cases self : e.pass.queue = w
      · rw [self] at hears
        exact absurd (hears_sync_self.mp hears) (timed.own w k)
      -- All of the source's own passes lie in lists that have been handed over.
      by_cases fromSource : e.pass.queue = source
      · obtain ⟨m, submit⟩ := laid.submitted current (List.mem_of_getElem? held) self
        rw [fromSource]
        exact reaches_of_submit submit fence
      rcases (hears_sync_third self fromSource).mp hears with before | heard
      · exact (timed.sound w k e held before).append _
      · exact (timed.sound source k e held heard).sync fence
    · exact (timed.sound w k e held ((hears_sync_other same).mp hears)).append _

/-! Syncing with every queue that the accesses depend on. -/

def syncOne (origin : Draft) (queue : Queue) (accesses : List (ResourceId × Bool)) (d : Draft)
    (source : Queue) : Draft :=
  if source = queue then d
  else match origin.needed accesses source with
    | none => d
    | some ordinal =>
      if covers ((d.clocks.get queue).get source) ordinal then d else d.sync source queue

theorem syncAll_eq_foldl (d : Draft) (queue : Queue) (accesses : List (ResourceId × Bool)) :
    d.syncAll queue accesses = Queue.all.foldl (d.syncOne queue accesses) d := rfl

theorem needed_of_dependency {accesses : List (ResourceId × Bool)} {r : ResourceId}
    {output : Bool} {ref : PassRef} (access : (r, output) ∈ accesses)
    (dependency : ref ∈ (d.track r).dependencies output) :
    ∃ n, d.needed accesses ref.queue = some n ∧ ref.ordinal ≤ n := by
  have member : ref.ordinal ∈ ((accesses.flatMap fun access =>
      (d.track access.1).dependencies access.2).filter (·.queue == ref.queue)).map
        (·.ordinal) := by
    refine List.mem_map.mpr ⟨ref, List.mem_filter.mpr ⟨?_, beq_self_eq_true _⟩, rfl⟩
    exact List.mem_flatMap.mpr ⟨(r, output), access, dependency⟩
  cases found : d.needed accesses ref.queue with
  | none =>
    rw [List.max?_eq_none_iff.mp found] at member
    cases member
  | some n => exact ⟨n, rfl, (List.max?_eq_some_iff.mp found).2 _ member⟩

theorem dependency_of_needed {accesses : List (ResourceId × Bool)} {n : Nat}
    (needed : d.needed accesses source = some n) :
    ∃ r output, (r, output) ∈ accesses ∧ ∃ ref ∈ (d.track r).dependencies output,
      ref.queue = source ∧ ref.ordinal = n := by
  obtain ⟨ref, kept, ordinal⟩ := List.mem_map.mp (List.max?_eq_some_iff.mp needed).1
  obtain ⟨member, queue⟩ := List.mem_filter.mp kept
  obtain ⟨⟨r, output⟩, access, dependency⟩ := List.mem_flatMap.mp member
  exact ⟨r, output, access, ref, dependency, eq_of_beq queue, ordinal⟩

theorem keeps_syncOne {α : Type} (view : Draft → α)
    (same : ∀ fences clocks events d, view { d with fences, clocks, events } = view d)
    (origin : Draft) (queue : Queue) (accesses : List (ResourceId × Bool)) (d : Draft)
    (source : Queue) : view (origin.syncOne queue accesses d source) = view d := by
  unfold syncOne
  split
  · rfl
  · split
    · rfl
    · split
      · rfl
      · exact keeps_sync view same d source queue

theorem keeps_syncAll {α : Type} (view : Draft → α)
    (same : ∀ fences clocks events d, view { d with fences, clocks, events } = view d) (d : Draft)
    (queue : Queue) (accesses : List (ResourceId × Bool)) :
    view (d.syncAll queue accesses) = view d := by
  have step := keeps_syncOne view same d queue accesses
  simp only [syncAll_eq_foldl, Queue.all, List.foldl_cons, List.foldl_nil, step]

theorem Laid.sync (laid : d.Laid log) (source waiting : Queue) :
    (d.sync source waiting).Laid log := by
  obtain ⟨fence, events⟩ := d.events_sync source waiting
  have quiet : Quiet (.sync source waiting fence) := ⟨rfl, rfl⟩
  exact (laid.emit quiet).congr events (keeps_sync lists (fun _ _ _ _ => rfl) d source waiting)
    (keeps_sync Draft.current (fun _ _ _ _ => rfl) d source waiting)

structure Ready (d : Draft) (log : List Entry) (queue : Queue) (list : ListId) : Prop where
  laid : d.Laid log
  timed : d.Timed log
  current : d.current = some (queue, list)

section Syncing

variable {origin : Draft} {list : ListId} {accesses : List (ResourceId × Bool)}

theorem Ready.syncOne (ready : d.Ready log queue list) (source : Queue) :
    (origin.syncOne queue accesses d source).Ready log queue list := by
  unfold Draft.syncOne
  split
  · exact ready
  · rename_i apart
    split
    · exact ready
    · split
      · exact ready
      · refine ⟨ready.laid.sync source queue, ready.timed.sync ready.laid ready.current apart, ?_⟩
        rw [keeps_sync Draft.current (fun _ _ _ _ => rfl) d source queue]
        exact ready.current

theorem hears_sync_of_hears (timed : d.Timed log) (apart : source ≠ waiting)
    (hears : d.Hears waiting q k) : (d.sync source waiting).Hears waiting q k := by
  by_cases self : q = waiting
  · rw [self] at hears ⊢
    exact hears_sync_self.mpr hears
  by_cases fromSource : q = source
  · rw [fromSource] at hears ⊢
    exact (hears_sync_source apart).mpr (Or.inl (timed.bounded waiting source k hears))
  · exact (hears_sync_third self fromSource).mpr (Or.inl hears)

theorem Ready.hears_syncOne (ready : d.Ready log queue list) (hears : d.Hears queue q k)
    (source : Queue) : (origin.syncOne queue accesses d source).Hears queue q k := by
  unfold Draft.syncOne
  split
  · exact hears
  · rename_i apart
    split
    · exact hears
    · split
      · exact hears
      · exact hears_sync_of_hears ready.timed apart hears

theorem hears_needed_syncOne {n : Nat} (apart : source ≠ queue)
    (needed : origin.needed accesses source = some n)
    (recorded : covers (d.lastOn.get source) n = true) :
    (origin.syncOne queue accesses d source).Hears queue source n := by
  unfold Draft.syncOne
  rw [if_neg apart, needed]
  dsimp only
  split
  · assumption
  · exact (hears_sync_source apart).mpr (Or.inl recorded)

theorem continues_syncOne (d : Draft) (source : Queue) :
    Continues d.events (origin.syncOne queue accesses d source).events := by
  unfold Draft.syncOne
  split
  · exact Continues.refl d.events
  · split
    · exact Continues.refl d.events
    · split
      · exact Continues.refl d.events
      · obtain ⟨fence, events⟩ := d.events_sync source queue
        rw [events]
        exact Continues.concat d.events rfl

theorem Ready.foldl_syncOne (sources : List Queue) (ready : d.Ready log queue list) :
    (sources.foldl (origin.syncOne queue accesses) d).Ready log queue list := by
  induction sources generalizing d with
  | nil => exact ready
  | cons source sources ih => exact ih (ready.syncOne source)

theorem Ready.hears_foldl (sources : List Queue) (ready : d.Ready log queue list)
    (hears : d.Hears queue q k) :
    (sources.foldl (origin.syncOne queue accesses) d).Hears queue q k := by
  induction sources generalizing d with
  | nil => exact hears
  | cons source sources ih => exact ih (ready.syncOne source) (ready.hears_syncOne hears source)

theorem Ready.hears_needed_foldl {sources : List Queue} {n : Nat}
    (ready : d.Ready log queue list) (member : source ∈ sources) (apart : source ≠ queue)
    (needed : origin.needed accesses source = some n)
    (recorded : covers (d.lastOn.get source) n = true) :
    (sources.foldl (origin.syncOne queue accesses) d).Hears queue source n := by
  induction sources generalizing d with
  | nil => cases member
  | cons turn sources ih =>
    rcases List.mem_cons.mp member with rfl | later
    · exact (ready.syncOne source).hears_foldl sources (hears_needed_syncOne apart needed recorded)
    · refine ih (ready.syncOne turn) later ?_
      rw [keeps_syncOne lastOn (fun _ _ _ _ => rfl) origin queue accesses d turn]
      exact recorded

theorem continues_syncAll (d : Draft) (queue : Queue) (accesses : List (ResourceId × Bool)) :
    Continues d.events (d.syncAll queue accesses).events := by
  simp only [syncAll_eq_foldl, Queue.all, List.foldl_cons, List.foldl_nil]
  exact (continues_syncOne d _).trans ((continues_syncOne _ _).trans (continues_syncOne _ _))

theorem events_syncAll (d : Draft) (queue : Queue) (accesses : List (ResourceId × Bool)) :
    d.events <+: (d.syncAll queue accesses).events :=
  (d.continues_syncAll queue accesses).isPrefix

theorem Ready.syncAll (ready : d.Ready log queue list) (accesses : List (ResourceId × Bool)) :
    (d.syncAll queue accesses).Ready log queue list :=
  ready.foldl_syncOne Queue.all

theorem Ready.hears_syncAll (ready : d.Ready log queue list) {r : ResourceId} {output : Bool}
    {ref : PassRef} (access : (r, output) ∈ accesses)
    (dependency : ref ∈ (d.track r).dependencies output)
    (recorded : ∀ n, d.needed accesses ref.queue = some n →
      covers (d.lastOn.get ref.queue) n = true)
    (other : ref.queue ≠ queue) :
    (d.syncAll queue accesses).Hears queue ref.queue ref.ordinal := by
  obtain ⟨n, needed, le⟩ := needed_of_dependency access dependency
  have hears := ready.hears_needed_foldl (Queue.mem_all ref.queue) other needed (recorded n needed)
  obtain ⟨m, clock, bound⟩ := covers_eq_true.mp hears
  exact covers_eq_true.mpr ⟨m, clock, Nat.le_trans le bound⟩

end Syncing

end Draft

end RenderGraph
