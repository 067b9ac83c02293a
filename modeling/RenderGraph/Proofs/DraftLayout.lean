import Mathlib.Data.List.Nodup
import RenderGraph.Proofs.SyncChain
import RenderGraph.Schedule.Synthesis

/-! How a draft lays out its lists. Lists are numbered in the order of opening, the last one is open
and all others are submitted, each once. A pass is recorded once, into a list of its own queue. -/

namespace RenderGraph

namespace Event

def placed? : Event → Option (ListId × PassId)
  | record list pass => some (list, pass)
  | _ => none

def submitted? : Event → Option ListId
  | submit list => some list
  | _ => none

/-- An event that leaves the states of the resources alone and records no pass. -/
def isPlain : Event → Bool
  | barriers .. | record .. => false
  | _ => true

theorem submitted?_eq_some {e : Event} {list : ListId} :
    e.submitted? = some list ↔ e = .submit list := by
  cases e <;> simp [submitted?]

theorem placed?_eq_some {e : Event} {list : ListId} {pass : PassId} :
    e.placed? = some (list, pass) ↔ e = .record list pass := by
  cases e <;> simp [placed?]

end Event

theorem position_unique {α : Type} {f : Event → Option α} {events : List Event}
    (nodup : (events.filterMap f).Nodup) {m n : Nat} {e e' : Event} {a : α}
    (first : events[m]? = some e) (second : events[n]? = some e') (left : f e = some a)
    (right : f e' = some a) : m = n := by
  have apart := List.pairwise_iff_getElem.mp (List.pairwise_filterMap.mp nodup)
  obtain ⟨inside, rfl⟩ := List.getElem?_eq_some_iff.mp first
  obtain ⟨inside', rfl⟩ := List.getElem?_eq_some_iff.mp second
  rcases Nat.lt_trichotomy m n with lower | same | higher
  · exact absurd rfl (apart m n inside inside' lower a left a right)
  · exact same
  · exact absurd rfl (apart n m inside' inside higher a right a left)

/-- The later events go on from the earlier ones with lists opened and submitted and syncs only. -/
def Continues (events later : List Event) : Prop :=
  ∃ more, later = events ++ more ∧ ∀ e ∈ more, e.isPlain = true

namespace Continues

variable {events later last : List Event}

theorem refl (events : List Event) : Continues events events :=
  ⟨[], (List.append_nil _).symm, fun _ member => by cases member⟩

theorem trans (first : Continues events later) (second : Continues later last) :
    Continues events last := by
  obtain ⟨more, rfl, plain⟩ := first
  obtain ⟨further, rfl, plain'⟩ := second
  refine ⟨more ++ further, List.append_assoc _ _ _, fun e member => ?_⟩
  exact (List.mem_append.mp member).elim (plain e) (plain' e)

theorem concat (events : List Event) {e : Event} (plain : e.isPlain = true) :
    Continues events (events ++ [e]) :=
  ⟨[e], rfl, fun _ member => by rwa [List.mem_singleton.mp member]⟩

theorem isPrefix (continues : Continues events later) : events <+: later := by
  obtain ⟨more, rfl, _⟩ := continues
  exact List.prefix_append _ _

end Continues

structure Entry where
  id : PassId
  pass : Pass
  list : ListId
  deriving DecidableEq, Repr

def logged (log : List Entry) : List (PassId × Pass) := log.map fun e => (e.id, e.pass)

structure Draft.Laid (d : Draft) (log : List Entry) : Prop where
  placed : d.events.filterMap Event.placed? = log.map fun e => (e.list, e.id)
  queues : ∀ e ∈ log, d.lists[e.list.index]? = some e.pass.queue
  rising : log.Pairwise fun e f => e.list.index ≤ f.list.index
  current : d.current = d.lists.getLast?.map fun queue => (queue, ⟨d.lists.length - 1⟩)
  submits : d.events.filterMap Event.submitted? = (List.range (d.lists.length - 1)).map ListId.mk

namespace Draft

variable {d : Draft} {log : List Entry} {queue : Queue} {list : ListId}

theorem nodup_range_map_list (n : Nat) : ((List.range n).map ListId.mk).Nodup := by
  apply List.nodup_range.map
  intro i j same
  exact ListId.mk.inj same

theorem laid_start (tracks : List Track) : ({ tracks } : Draft).Laid [] := by
  constructor <;> simp

theorem Laid.list_of_current (laid : d.Laid log) (current : d.current = some (queue, list)) :
    list.index + 1 = d.lists.length ∧ d.lists[list.index]? = some queue := by
  rw [laid.current] at current
  obtain ⟨last, held, same⟩ := Option.map_eq_some_iff.mp current
  obtain ⟨rfl, rfl⟩ := Prod.mk.inj same
  rw [List.getLast?_eq_getElem?] at held
  have inside := (List.getElem?_eq_some_iff.mp held).1
  exact ⟨by simp only; omega, held⟩

theorem Laid.unsubmitted (laid : d.Laid log) (current : d.current = some (queue, list)) (n : Nat) :
    d.events[n]? ≠ some (Event.submit list) := by
  intro held
  have member : list ∈ d.events.filterMap Event.submitted? :=
    List.mem_filterMap.mpr ⟨_, List.mem_of_getElem? held, rfl⟩
  rw [laid.submits] at member
  obtain ⟨i, small, rfl⟩ := List.mem_map.mp member
  have last := (laid.list_of_current current).1
  rw [List.mem_range] at small
  simp only at last
  omega

theorem Laid.submitted (laid : d.Laid log) {open_ : ListId}
    (current : d.current = some (queue, open_)) {e : Entry} (member : e ∈ log)
    (other : e.pass.queue ≠ queue) : ∃ n : Nat, d.events[n]? = some (.submit e.list) := by
  have held := laid.queues e member
  obtain ⟨last, atLast⟩ := laid.list_of_current current
  have inside := (List.getElem?_eq_some_iff.mp held).1
  have notLast : e.list.index ≠ open_.index := by
    intro same
    rw [same, atLast] at held
    exact other (Option.some.inj held).symm
  have small : e.list.index ∈ List.range (d.lists.length - 1) := by
    rw [List.mem_range]
    omega
  have submit : e.list ∈ d.events.filterMap Event.submitted? := by
    rw [laid.submits]
    exact List.mem_map.mpr ⟨_, small, rfl⟩
  obtain ⟨event, present, isSubmit⟩ := List.mem_filterMap.mp submit
  rw [Event.submitted?_eq_some.mp isSubmit] at present
  exact List.mem_iff_getElem?.mp present

def Quiet (e : Event) : Prop := e.placed? = none ∧ e.submitted? = none

theorem Laid.emit (laid : d.Laid log) {e : Event} (quiet : Quiet e) : (d.emit e).Laid log where
  placed := by simp [Draft.emit, quiet.1, laid.placed]
  queues := laid.queues
  rising := laid.rising
  current := laid.current
  submits := by simp [Draft.emit, quiet.2, laid.submits]

theorem Laid.record (laid : d.Laid log) (current : d.current = some (queue, list)) (id : PassId)
    {pass : Pass} (own : pass.queue = queue) :
    (d.emit (.record list id)).Laid (log ++ [⟨id, pass, list⟩]) where
  placed := by simp [Draft.emit, laid.placed, Event.placed?]
  queues := by
    intro e member
    rcases List.mem_append.mp member with old | new
    · exact laid.queues e old
    · rw [List.mem_singleton.mp new, own]
      exact (laid.list_of_current current).2
  rising := by
    refine List.pairwise_append.mpr ⟨laid.rising, List.pairwise_singleton _ _, ?_⟩
    intro e member f new
    rw [List.mem_singleton.mp new]
    have inside := (List.getElem?_eq_some_iff.mp (laid.queues e member)).1
    have last := (laid.list_of_current current).1
    dsimp only
    omega
  current := laid.current
  submits := by simp [Draft.emit, laid.submits, Event.submitted?]

theorem Laid.congr (laid : d.Laid log) {d' : Draft} (events : d'.events = d.events)
    (lists : d'.lists = d.lists) (current : d'.current = d.current) : d'.Laid log where
  placed := events ▸ laid.placed
  queues := lists ▸ laid.queues
  rising := laid.rising
  current := by rw [current, lists, laid.current]
  submits := by rw [events, lists, laid.submits]

theorem laid_open (placed : d.events.filterMap Event.placed? = log.map fun e => (e.list, e.id))
    (queues : ∀ e ∈ log, d.lists[e.list.index]? = some e.pass.queue)
    (rising : log.Pairwise fun e f => e.list.index ≤ f.list.index)
    (submits : d.events.filterMap Event.submitted? = (List.range d.lists.length).map ListId.mk)
    (queue : Queue) :
    ({ d with lists := d.lists ++ [queue], current := some (queue, ⟨d.lists.length⟩) }.emit
      (.openList queue ⟨d.lists.length⟩)).Laid log where
  placed := by simp [Draft.emit, placed, Event.placed?]
  queues := by
    intro e member
    have held := queues e member
    simp only [Draft.emit]
    rw [List.getElem?_append_left (List.getElem?_eq_some_iff.mp held).1]
    exact held
  rising := rising
  current := by simp [Draft.emit]
  submits := by simp [Draft.emit, submits, Event.submitted?]

theorem Laid.enter (laid : d.Laid log) (queue : Queue) : (d.enter queue).2.Laid log := by
  unfold Draft.enter
  dsimp only
  split
  · rename_i entered list current
    split
    · exact laid
    · have last := (laid.list_of_current current).1
      refine laid_open (d := d.emit (.submit list)) ?_ laid.queues laid.rising ?_ queue
      · simp [Draft.emit, laid.placed, Event.placed?]
      · have before : d.lists.length - 1 = list.index := by omega
        have lists : (d.emit (.submit list)).lists = d.lists := rfl
        rw [lists, ← last, List.range_succ, List.map_append]
        simp [Draft.emit, laid.submits, before, Event.submitted?]
  · rename_i current
    rw [laid.current, Option.map_eq_none_iff, List.getLast?_eq_none_iff] at current
    refine laid_open laid.placed laid.queues laid.rising ?_ queue
    rw [laid.submits, current]
    rfl

theorem current_enter (d : Draft) (queue : Queue) :
    (d.enter queue).2.current = some (queue, (d.enter queue).1) := by
  unfold Draft.enter
  dsimp only
  split
  · rename_i entered list current
    split
    · rename_i same
      rw [current, same]
    · rfl
  · rfl

theorem continues_enter (d : Draft) (queue : Queue) :
    Continues d.events (d.enter queue).2.events := by
  unfold Draft.enter
  dsimp only
  split
  · split
    · exact Continues.refl d.events
    · exact (Continues.concat d.events rfl).trans
        (Continues.concat _ rfl)
  · exact Continues.concat d.events rfl

theorem events_enter (d : Draft) (queue : Queue) : d.events <+: (d.enter queue).2.events :=
  (d.continues_enter queue).isPrefix

theorem keeps_enter {α : Type} (view : Draft → α)
    (same : ∀ lists current events d, view { d with lists, current, events } = view d)
    (d : Draft) (queue : Queue) : view (d.enter queue).2 = view d := by
  unfold Draft.enter
  dsimp only
  split
  · split
    · rfl
    · exact same _ _ _ d
  · exact same _ _ _ d

end Draft

end RenderGraph
