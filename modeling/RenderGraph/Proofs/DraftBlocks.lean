import Mathlib.Data.List.Chain
import RenderGraph.Proofs.DraftState
import RenderGraph.Proofs.FenceOwners

/-! The shape of a schedule. The events come in blocks, one for each list: the list is opened,
things go into it, and it is submitted before the next one is opened. -/

namespace RenderGraph

/-- What a schedule does between opening one list and submitting it. -/
structure Block where
  queue : Queue
  body : List Event
  deriving DecidableEq, Repr

namespace Block

def opened (i : Nat) (block : Block) : List Event :=
  .openList block.queue ⟨i⟩ :: block.body

def events (i : Nat) (block : Block) : List Event := block.opened i ++ [.submit ⟨i⟩]

def layout (blocks : List Block) : List Event := (blocks.mapIdx events).flatten

theorem layout_concat (blocks : List Block) (last : Block) :
    layout (blocks ++ [last]) = layout blocks ++ last.events blocks.length := by
  simp [layout]

/-- What may stand inside the block with the given number: syncs at which its queue waits for the
queue of an earlier block, barriers unless it is on the copy queue, and passes of its queue. -/
def Admits (lists fences : List Queue) (live : List (PassId × Pass)) (i : Nat) (queue : Queue) :
    Event → Prop
  | .openList .. | .submit _ => False
  | .barriers list batch => list = ⟨i⟩ ∧ batch ≠ [] ∧ queue ≠ .copy
  | .record list p => list = ⟨i⟩ ∧ ∃ pass, (p, pass) ∈ live ∧ pass.queue = queue
  | .sync signal wait fence => wait = queue ∧ signal ≠ wait ∧
    (∃ j < i, lists[j]? = some signal) ∧ fences[fence.index]? = some signal

theorem Admits.mono {lists lists' fences fences' : List Queue} {live live' : List (PassId × Pass)}
    {i : Nat} {queue : Queue} {e : Event} (admits : Admits lists fences live i queue e)
    (longer : lists <+: lists') (longer' : fences <+: fences') (more : live ⊆ live') :
    Admits lists' fences' live' i queue e := by
  have kept {xs ys : List Queue} (longer : xs <+: ys) {j : Nat} {q : Queue}
      (held : xs[j]? = some q) : ys[j]? = some q := by
    obtain ⟨rest, rfl⟩ := longer
    rw [List.getElem?_append_left (List.getElem?_eq_some_iff.mp held).1, held]
  cases e with
  | openList | submit | barriers => exact admits
  | record list p =>
    obtain ⟨here, pass, member, own⟩ := admits
    exact ⟨here, pass, more member, own⟩
  | sync signal wait fence =>
    obtain ⟨here, apart, ⟨j, earlier, held⟩, owner⟩ := admits
    exact ⟨here, apart, ⟨j, earlier, kept longer held⟩, kept longer' owner⟩

theorem forall_concat {P : Nat → Queue → Event → Prop} {done : List Block} {last : Block}
    {e : Event}
    (old : ∀ (i : Nat) block, (done ++ [last])[i]? = some block → ∀ f ∈ block.body,
      P i block.queue f)
    (new : P done.length last.queue e) (i : Nat) (block : Block)
    (held : (done ++ [⟨last.queue, last.body ++ [e]⟩])[i]? = some block) :
    ∀ f ∈ block.body, P i block.queue f := by
  intro f member
  rcases getElem?_concat_eq_some.mp held with before | ⟨rfl, rfl⟩
  · exact old i block (getElem?_concat_eq_some.mpr (Or.inl before)) f member
  · rcases List.mem_append.mp member with early | late
    · exact old done.length last (by simp) f early
    · exact List.mem_singleton.mp late ▸ new

end Block

namespace Draft

open Block

structure Blocked (d : Draft) (log : List Entry) (done : List Block) (last : Block) : Prop where
  events : d.events = layout done ++ last.opened done.length
  lists : d.lists = (done ++ [last]).map queue
  current : d.current = some (last.queue, ⟨done.length⟩)
  neighbours : d.lists.IsChain (· ≠ ·)
  admits : ∀ (i : Nat) block, (done ++ [last])[i]? = some block → ∀ e ∈ block.body,
    Admits d.lists d.fences (logged log) i block.queue e

def InBlocks (d : Draft) (log : List Entry) : Prop :=
  d.events = [] ∧ d.lists = [] ∧ d.current = none ∨ ∃ done last, d.Blocked log done last

variable {b : Brief} {d d' : Draft} {log : List Entry} {done : List Block} {last : Block}
  {queue source : Queue} {p : PassId} {pass : Pass}

theorem Blocked.congr (blocked : d.Blocked log done last) (events : d'.events = d.events)
    (lists : d'.lists = d.lists) (current : d'.current = d.current)
    (fences : d.fences <+: d'.fences) : d'.Blocked log done last where
  events := events.trans blocked.events
  lists := lists.trans blocked.lists
  current := current.trans blocked.current
  neighbours := lists ▸ blocked.neighbours
  admits i block held e member :=
    (blocked.admits i block held e member).mono (lists ▸ List.prefix_refl _) fences
      (List.Subset.refl _)

theorem Blocked.append (blocked : d.Blocked log done last) (more : List Entry) :
    d.Blocked (log ++ more) done last where
  __ := blocked
  admits i block held e member :=
    (blocked.admits i block held e member).mono (List.prefix_refl _) (List.prefix_refl _)
      (by simp [logged])

theorem Blocked.emit (blocked : d.Blocked log done last) {e : Event}
    (admitted : Admits d.lists d.fences (logged log) done.length last.queue e) :
    (d.emit e).Blocked log done ⟨last.queue, last.body ++ [e]⟩ where
  events := by simp [Draft.emit, blocked.events, opened]
  lists := by simp [Draft.emit, blocked.lists]
  current := blocked.current
  neighbours := blocked.neighbours
  admits := forall_concat blocked.admits admitted

theorem blocked_open {done : List Block} (events : d.events = layout done)
    (lists : d.lists = done.map Block.queue) (neighbours : d.lists.IsChain (· ≠ ·))
    (apart : ∀ q ∈ d.lists.getLast?, q ≠ queue)
    (admits : ∀ (i : Nat) block, done[i]? = some block → ∀ e ∈ block.body,
      Admits d.lists d.fences (logged log) i block.queue e) :
    ({ d with lists := d.lists ++ [queue], current := some (queue, ⟨d.lists.length⟩) }.emit
      (.openList queue ⟨d.lists.length⟩)).Blocked log done ⟨queue, []⟩ where
  events := by simp [Draft.emit, events, lists, opened]
  lists := by simp [Draft.emit, lists]
  current := by simp [Draft.emit, lists]
  neighbours := by
    refine List.isChain_append.mpr ⟨neighbours, List.isChain_singleton _, ?_⟩
    intro q held q' new
    cases new
    exact apart q held
  admits := by
    intro i block held e member
    rcases getElem?_concat_eq_some.mp held with old | ⟨_, rfl⟩
    · exact (admits i block old e member).mono (List.prefix_append _ _) (List.prefix_refl _)
        (List.Subset.refl _)
    · cases member

theorem InBlocks.enter (blocks : d.InBlocks log) (queue : Queue) :
    ∃ done last, (d.enter queue).2.Blocked log done last ∧ last.queue = queue := by
  unfold Draft.enter
  dsimp only
  rcases blocks with ⟨events, lists, current⟩ | ⟨done, last, blocked⟩
  · rw [current]
    refine ⟨[], ⟨queue, []⟩, blocked_open events lists ?_ ?_ ?_, rfl⟩
    · simp [lists]
    · simp [lists]
    · simp
  · rw [blocked.current]
    dsimp only
    split
    · rename_i same
      exact ⟨done, last, blocked, same⟩
    · rename_i other
      refine ⟨done ++ [last], ⟨queue, []⟩, blocked_open ?_ blocked.lists blocked.neighbours ?_
        blocked.admits, rfl⟩
      · simp [Draft.emit, blocked.events, layout_concat, Block.events]
      · simp [Draft.emit, blocked.lists, other]

theorem Blocked.earlier (blocked : d.Blocked log done last) (member : source ∈ d.lists)
    (apart : source ≠ last.queue) : ∃ j < done.length, d.lists[j]? = some source := by
  obtain ⟨j, held⟩ := List.mem_iff_getElem?.mp member
  have inside : j < done.length + 1 := by
    have bound := (List.getElem?_eq_some_iff.mp held).1
    simpa [blocked.lists] using bound
  have other : j ≠ done.length := by
    rintro rfl
    simp [blocked.lists, Ne.symm apart] at held
  exact ⟨j, by omega, held⟩

theorem Blocked.sync (blocked : d.Blocked log done last) (member : source ∈ d.lists)
    (apart : source ≠ last.queue) :
    (d.sync source last.queue).Blocked log done
      ⟨last.queue, last.body ++ [.sync source last.queue (d.fenceFor source).1]⟩ := by
  obtain ⟨longer, owner, _⟩ := d.fences_fenceFor source
  have fenced : ({ (d.fenceFor source).2 with
      clocks := (d.fenceFor source).2.clocks.set last.queue
        ((d.fenceFor source).2.advance source last.queue) } : Draft).Blocked log done last :=
    blocked.congr (keeps_fenceFor Draft.events (fun _ _ => rfl) d source)
      (keeps_fenceFor Draft.lists (fun _ _ => rfl) d source)
      (keeps_fenceFor Draft.current (fun _ _ => rfl) d source) longer
  apply fenced.emit
  refine ⟨rfl, apart, ?_, owner⟩
  rw [show (d.fenceFor source).2.lists = d.lists from
    keeps_fenceFor Draft.lists (fun _ _ => rfl) d source]
  exact blocked.earlier member apart

theorem Blocked.syncAll (blocked : d.Blocked log done last) {accesses : List (ResourceId × Bool)}
    (listed : ∀ source n, d.needed accesses source = some n → source ∈ d.lists) :
    ∃ body, (d.syncAll last.queue accesses).Blocked log done ⟨last.queue, body⟩ := by
  have step {origin d : Draft} {body : List Event}
      (blocked : d.Blocked log done ⟨last.queue, body⟩)
      (listed : ∀ source n, origin.needed accesses source = some n → source ∈ d.lists)
      (source : Queue) : ∃ body', (origin.syncOne last.queue accesses d source).Blocked log done
        ⟨last.queue, body'⟩ := by
    unfold syncOne
    split
    · exact ⟨body, blocked⟩
    · rename_i apart
      split
      · exact ⟨body, blocked⟩
      · rename_i n needed
        split
        · exact ⟨body, blocked⟩
        · exact ⟨_, blocked.sync (listed source n needed) apart⟩
  have kept {d' : Draft} (same : d'.lists = d.lists) (source : Queue) :
      (d.syncOne last.queue accesses d' source).lists = d.lists :=
    (keeps_syncOne Draft.lists (fun _ _ _ _ => rfl) d last.queue accesses d' source).trans same
  simp only [syncAll_eq_foldl, Queue.all, List.foldl_cons, List.foldl_nil]
  obtain ⟨body₁, blocked₁⟩ := step blocked listed .graphics
  have lists₁ := kept rfl .graphics
  obtain ⟨body₂, blocked₂⟩ := step blocked₁ (by rwa [lists₁]) .compute
  have lists₂ := kept lists₁ .compute
  exact step blocked₂ (by rwa [lists₂]) .copy

theorem Consistent.listed (consistent : d.Consistent log) {accesses : List (ResourceId × Bool)}
    {n : Nat} (needed : (d.enter queue).2.needed accesses source = some n) :
    source ∈ (d.enter queue).2.lists := by
  obtain ⟨r, output, _, ref, dependency, rfl, _⟩ := dependency_of_needed needed
  obtain ⟨e, held, own⟩ := (consistent.tracked_enter queue).dependency dependency
  have listed := (consistent.enter queue).laid.queues e (List.mem_of_getElem? held)
  rw [← own]
  exact List.mem_of_getElem? listed

theorem InBlocks.arrive (blocks : d.InBlocks log) (consistent : d.Consistent log) (queue : Queue)
    (accesses : List (ResourceId × Bool)) :
    ∃ done last, ((d.enter queue).2.syncAll queue accesses).Blocked log done last ∧
      last.queue = queue ∧ (d.enter queue).1 = ⟨done.length⟩ := by
  obtain ⟨done, last, blocked, rfl⟩ := blocks.enter queue
  obtain ⟨body, synced⟩ := blocked.syncAll fun source n needed => consistent.listed needed
  have current := (current_enter d last.queue).symm.trans blocked.current
  exact ⟨done, ⟨last.queue, body⟩, synced, rfl, by simpa using current⟩

theorem Blocked.emitBatch (blocked : d.Blocked log done last) {batch : List Barrier}
    (records : batch ≠ [] → last.queue ≠ .copy) :
    ∃ body, (d.emitBatch ⟨done.length⟩ batch).Blocked log done ⟨last.queue, body⟩ := by
  unfold Draft.emitBatch
  split
  · exact ⟨last.body, blocked⟩
  · rename_i some
    rw [List.isEmpty_iff] at some
    exact ⟨_, blocked.emit ⟨rfl, some, records some⟩⟩

theorem records_of_served {ordinal : Nat} {read : Draft × List Barrier} {served : Draft}
    {batch : List Barrier}
    (reads : serveAll b ordinal pass.queue false pass.reads (d.prepare pass, []) = .ok read)
    (writes : serveAll b ordinal pass.queue true pass.writes read = .ok (served, batch))
    (some : batch ≠ []) : pass.queue ≠ .copy := by
  intro copy
  rw [copy] at reads writes
  apply some
  rw [(states_serveAll_copy writes).2, (states_serveAll_copy reads).2]

theorem InBlocks.recordPass {ordinal : Nat} (blocks : d.InBlocks log)
    (consistent : d.Consistent log) (recorded : d.recordPass b ordinal p pass = .ok d') :
    d'.InBlocks (log ++ [d.entry p pass]) := by
  obtain ⟨read, served, batch, reads, writes, rfl⟩ := recordPass_ok recorded
  obtain ⟨done, last, arrived, own, list⟩ :=
    blocks.arrive consistent pass.queue (footprint pass)
  have kept {α : Type} (view : Draft → α) (same : ∀ tracks d, view { d with tracks } = view d) :
      view served = view (d.arrive pass) :=
    (keeps_serveAll view same writes).trans
      ((keeps_serveAll view same reads).trans (keeps_prepare view same d pass))
  have ready : served.Blocked log done last :=
    arrived.congr (kept Draft.events fun _ _ => rfl) (kept Draft.lists fun _ _ => rfl)
      (kept Draft.current fun _ _ => rfl) (kept Draft.fences (fun _ _ => rfl) ▸ List.prefix_refl _)
  obtain ⟨body, batched⟩ := (ready.append [d.entry p pass]).emitBatch
    (fun some => own.symm ▸ records_of_served reads writes some)
  rw [← list] at batched
  have placed := batched.emit (e := .record (d.enter pass.queue).1 p)
    ⟨list, pass, by simp [logged, entry], own.symm⟩
  refine Or.inr ⟨done, _, placed.congr ?_ ?_ ?_ ?_⟩
  · exact keeps_remember Draft.events (fun _ _ _ => rfl) _ _ _
  · exact keeps_remember Draft.lists (fun _ _ _ => rfl) _ _ _
  · exact keeps_remember Draft.current (fun _ _ _ => rfl) _ _ _
  · exact keeps_remember Draft.fences (fun _ _ _ => rfl) _ _ _ ▸ List.prefix_refl _

theorem restoreQueue_ne_copy (d : Draft) {restore : List Transition} (some : restore ≠ []) :
    d.restoreQueue restore ≠ .copy := by
  unfold restoreQueue
  split
  · rename_i queue _ _
    split
    · rename_i supported
      rintro rfl
      obtain ⟨t, member⟩ := List.exists_mem_of_ne_nil restore some
      have unsupported := List.all_eq_true.mp supported t member
      simp [Queue.supports] at unsupported
    · decide
  · decide

theorem InBlocks.restoreAll (blocks : d.InBlocks log) (consistent : d.Consistent log)
    (restore : List Transition) : (d.restoreAll restore).InBlocks log := by
  by_cases none : restore = []
  · rw [none]
    exact blocks
  obtain ⟨done, last, arrived, own, list⟩ :=
    blocks.arrive consistent (d.restoreQueue restore) (restore.map fun t => (t.resource, true))
  have records : last.queue ≠ .copy := own.symm ▸ d.restoreQueue_ne_copy none
  have restored := arrived.emit
    (e := .barriers (d.enter (d.restoreQueue restore)).1 (restore.map .transition))
    ⟨list, by simpa using none, records⟩
  have fences := keeps_restoreAll (d := d) Draft.fences (fun _ _ => rfl) none
  exact Or.inr ⟨done, _, restored.congr
    (keeps_restoreAll (d := d) Draft.events (fun _ _ => rfl) none)
    (keeps_restoreAll (d := d) Draft.lists (fun _ _ => rfl) none)
    (keeps_restoreAll (d := d) Draft.current (fun _ _ => rfl) none)
    (fences ▸ List.prefix_refl _)⟩

end Draft

end RenderGraph
