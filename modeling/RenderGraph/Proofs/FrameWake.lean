import RenderGraph.Proofs.FenceOwners
import RenderGraph.Proofs.FrameRun
import RenderGraph.Proofs.WorkOrder

/-! What the traffic of frames brings after a piece of work. Within a frame, the queues that come
after it are those that hear of its queue. From frame to frame, the processor has waited for it once
it has waited for a frame fence that was signalled after it. -/

namespace RenderGraph

/-- What is known to come after a piece of work, in terms of the player that replays: the known
queues, the values of the frame fence signalled after the work, and whether the processor waited. -/
structure Wake.Tracks (w : Wake) (start : Player) (known : List Queue) (ends : List Nat)
    (seen : Bool) : Prop where
  queues : w.queues = known
  heard : ∀ slot ∈ start.fences, ∀ value, (slot.fence, value) ∈ w.signals → slot.queue ∈ known
  ends : ∀ value, (start.frameFence.fence, value) ∈ w.signals ↔ value ∈ ends
  seen : w.seen = seen

def Event.OwnedIn (s : Schedule) (e : Event) : Prop :=
  ∀ signal wait fence, e = .sync signal wait fence → s.fences[fence.index]? = some signal

namespace Wake

variable {w : Wake} {start p after : Player} {s : Schedule} {f : Player.Frame} {e : Event}
  {events : List Event} {known : List Queue} {ends : List Nat} {seen : Bool}
  {traffic : List Traffic}

theorem tracks_start (start : Player) (source : Queue) :
    ({ queues := [source] } : Wake).Tracks start [source] [] false where
  queues := rfl
  heard _ _ _ member := by cases member
  ends value := by simp
  seen := rfl

theorem reaches_iff {fence : FenceKey} {value : Nat} :
    w.reaches fence value = true ↔ ∃ given, (fence, given) ∈ w.signals ∧ given ≤ value := by
  unfold reaches
  rw [List.any_eq_true]
  constructor
  · rintro ⟨⟨signalled, given⟩, member, holds⟩
    simp only [Bool.and_eq_true, beq_iff_eq, decide_eq_true_eq] at holds
    exact ⟨given, holds.1 ▸ member, holds.2⟩
  · rintro ⟨given, member, bound⟩
    exact ⟨(fence, given), member, by simp [bound]⟩

theorem exists_slot (same : p.rewound = start.rewound) {i : Nat} {slot : FenceSlot}
    (held : p.fences[i]? = some slot) :
    ∃ first, start.fences[i]? = some first ∧ first.fence = slot.fence ∧
      first.queue = slot.queue := by
  have fences := congrArg (fun p : Player => p.fences[i]?) same
  simp only [Player.rewound, List.getElem?_map, held] at fences
  obtain ⟨first, found, equal⟩ := Option.map_eq_some_iff.mp fences.symm
  exact ⟨first, found, (congrArg FenceSlot.fence equal :), (congrArg FenceSlot.queue equal :)⟩

theorem slot_eq (fits : start.Fits s) {first second : FenceSlot} (member : first ∈ start.fences)
    (member' : second ∈ start.fences) (same : first.fence = second.fence) : first = second := by
  have apart := fits.apart
  rw [Player.slots, List.map_append] at apart
  exact List.inj_on_of_nodup_map (List.nodup_append.mp apart).1 member member' same

theorem frameFence_ne (fits : start.Fits s) {slot : FenceSlot} (member : slot ∈ start.fences) :
    slot.fence ≠ start.frameFence.fence := by
  have apart := fits.apart
  rw [Player.slots, List.map_append] at apart
  exact (List.nodup_append.mp apart).2.2 _ (List.mem_map_of_mem member) _
    (List.mem_singleton_self _)

theorem Tracks.handOver (tracks : w.Tracks start known ends seen) (fits : start.Fits s)
    {slot : FenceSlot} (member : slot ∈ start.fences) (waiting : Queue) (value : Nat) :
    (w.observeAll [.command (.signal slot.queue slot.fence value),
      .command (.wait waiting slot.fence value)]).Tracks start
        (if slot.queue ∈ known then waiting :: known else known) ends seen := by
  change ((w.observe (.signal slot.queue slot.fence value)).observe
    (.wait waiting slot.fence value)).Tracks start _ ends seen
  by_cases signalled : slot.queue ∈ known
  · have now : slot.queue ∈ w.queues := by
      rw [tracks.queues]
      exact signalled
    have reached : ({ w with signals := (slot.fence, value) :: w.signals } : Wake).reaches
        slot.fence value = true :=
      reaches_iff.mpr ⟨value, List.mem_cons_self, Nat.le_refl value⟩
    simp only [observe, if_pos now, if_pos reached, if_pos signalled]
    constructor
    · exact congrArg (waiting :: ·) tracks.queues
    · intro other present given covered
      rcases List.mem_cons.mp covered with new | old
      · have same := slot_eq fits present member (congrArg Prod.fst new)
        rw [same]
        exact List.mem_cons_of_mem _ signalled
      · exact List.mem_cons_of_mem _ (tracks.heard other present given old)
    · intro given
      rw [← tracks.ends]
      have other : (start.frameFence.fence, given) ≠ (slot.fence, value) := by
        intro equal
        exact frameFence_ne fits member (congrArg Prod.fst equal).symm
      simp [other]
    · exact tracks.seen
  · have silent : slot.queue ∉ w.queues := by
      rw [tracks.queues]
      exact signalled
    have unreached : ¬ w.reaches slot.fence value = true := by
      intro reached
      obtain ⟨given, covered, _⟩ := reaches_iff.mp reached
      exact signalled (tracks.heard slot member given covered)
    simp only [observe, if_neg silent, if_neg unreached, if_neg signalled]
    exact tracks

theorem Tracks.carries {mid : Player} {e : Event} (tracks : w.Tracks start known ends seen)
    (fits : start.Fits s) (same : p.rewound = start.rewound) (owned : e.OwnedIn s)
    (carries : f.Carries p e traffic mid) :
    (w.observeAll traffic).Tracks start (hear known e) ends seen := by
  cases carries with
  | openList | barriers | silent | record | submit => exact tracks
  | @sync signal wait fence slot held =>
    obtain ⟨first, found, key, queue⟩ := exists_slot same held
    have owner : first.queue = signal := by
      have listed := owned signal wait fence rfl
      rw [← fits.queues, List.getElem?_map, found] at listed
      exact Option.some.inj listed
    rw [← key, ← owner]
    exact tracks.handOver fits (List.mem_of_getElem? found) wait slot.raised.value

theorem Tracks.replays (tracks : w.Tracks start known ends seen) (fits : start.Fits s)
    (same : p.rewound = start.rewound) (owned : ∀ e ∈ events, e.OwnedIn s)
    (replays : f.Replays p events traffic after) :
    (w.observeAll traffic).Tracks start (hearAll known events) ends seen := by
  induction replays generalizing w known with
  | nil => exact tracks
  | cons one rest ih =>
    have step := tracks.carries fits same (owned _ List.mem_cons_self) one
    have kept := (Player.Frame.Replays.cons one (.nil _)).kept.1
    rw [observeAll_append]
    exact ih step (kept.trans same) fun e member => owned e (List.mem_cons_of_mem _ member)

theorem Tracks.closes (tracks : w.Tracks start known ends seen) (fits : start.Fits s)
    (same : p.rewound = start.rewound) :
    (w.observeAll [p.closes]).Tracks start known
      (if .graphics ∈ known then p.frameFence.raised.value :: ends else ends) seen := by
  have key : p.frameFence.fence = start.frameFence.fence :=
    (congrArg (fun p : Player => p.frameFence.fence) same :)
  have queue : p.frameFence.queue = .graphics := (fits.of_rewound same).graphics
  change (w.observe (.signal p.frameFence.queue p.frameFence.fence _)).Tracks start known _ seen
  rw [queue, key]
  by_cases heard : .graphics ∈ known
  · have now : .graphics ∈ w.queues := by
      rw [tracks.queues]
      exact heard
    simp only [observe, if_pos now, if_pos heard]
    constructor
    · exact tracks.queues
    · intro slot member value covered
      rcases List.mem_cons.mp covered with new | old
      · exact absurd (congrArg Prod.fst new) (frameFence_ne fits member)
      · exact tracks.heard slot member value old
    · intro value
      rw [List.mem_cons, List.mem_cons, tracks.ends]
      simp
    · exact tracks.seen
  · have silent : .graphics ∉ w.queues := by
      rw [tracks.queues]
      exact heard
    simp only [observe, if_neg silent, if_neg heard]
    exact tracks

theorem Tracks.reclaims (tracks : w.Tracks start known ends seen)
    (same : p.rewound = start.rewound) (positive : ∀ value ∈ ends, 0 < value) :
    ∃ waited, (w.observeAll p.reclaims).Tracks start known ends waited ∧
      (waited = true ↔
        seen = true ∨ ∃ value ∈ ends, value ≤ p.setValues.getD p.nextSet 0) := by
  have key : p.frameFence.fence = start.frameFence.fence :=
    (congrArg (fun p : Player => p.frameFence.fence) same :)
  unfold Player.reclaims
  generalize p.setValues.getD p.nextSet 0 = given
  by_cases used : 0 < given
  · rw [if_pos used, key]
    change ∃ waited, (w.observe (.waitCpu start.frameFence.fence given)).Tracks start known ends
      waited ∧ _
    by_cases reached : w.reaches start.frameFence.fence given = true
    · simp only [observe, if_pos reached]
      refine ⟨true, ⟨tracks.queues, tracks.heard, tracks.ends, rfl⟩, ?_⟩
      obtain ⟨value, covered, bound⟩ := reaches_iff.mp reached
      have member : value ∈ ends := (tracks.ends value).mp covered
      exact iff_of_true rfl (Or.inr ⟨value, member, bound⟩)
    · simp only [observe, if_neg reached]
      refine ⟨seen, tracks, ?_⟩
      have early : ¬ ∃ value ∈ ends, value ≤ given := by
        rintro ⟨value, member, bound⟩
        exact reached (reaches_iff.mpr ⟨value, (tracks.ends value).mpr member, bound⟩)
      rw [or_iff_left early]
  · rw [if_neg used]
    refine ⟨seen, tracks, ?_⟩
    have early : ¬ ∃ value ∈ ends, value ≤ given := by
      rintro ⟨value, member, bound⟩
      have := positive value member
      omega
    rw [or_iff_left early]

/-- After so many frames, the processor has waited for work of the frame at the position exactly if
the frame fence followed it and the frame's set of lists was used once more. -/
def Follows (w : Wake) (start : Player) (i : Nat) (gathered : Prop) (count : Nat)
    (known : List Queue) : Prop :=
  ∃ ends seen, w.Tracks start known ends seen ∧
    (∀ value ∈ ends, gathered ∧ start.frameFence.value + i < value) ∧
    (gathered → start.frameFence.value + i + 1 ∈ ends) ∧
    (seen = true ↔ gathered ∧ i + start.sets.length < count)

section

variable {i count : Nat} {gathered : Prop}

theorem Tracks.follows (tracks : w.Tracks start known [] false) (fits : start.Fits s)
    (same : p.rewound = start.rewound) (value : p.frameFence.value = start.frameFence.value + i)
    (gathers : gathered ↔ .graphics ∈ known) :
    (w.observeAll [p.closes]).Follows start i gathered (i + 1) known := by
  refine ⟨_, _, tracks.closes fits same, ?_, ?_, ?_⟩
  · intro end_ member
    split at member
    · rename_i heard
      rw [List.mem_singleton.mp member, FenceSlot.raised, value]
      exact ⟨gathers.mpr heard, Nat.lt_succ_self _⟩
    · cases member
  · intro holds
    rw [if_pos (gathers.mp holds), FenceSlot.raised, value]
    exact List.mem_singleton_self _
  · have some := fits.some
    constructor
    · intro absurd
      cases absurd
    · rintro ⟨_, _⟩
      omega

theorem Follows.reclaims (follows : w.Follows start i gathered count known)
    (turned : start.Turned count p) (some : 0 < start.sets.length) :
    (w.observeAll p.reclaims).Follows start i gathered (count + 1) known := by
  obtain ⟨ends, seen, tracks, after, first, waited⟩ := follows
  obtain ⟨waits, tracks', either⟩ := tracks.reclaims turned.rewound fun value member =>
    Nat.zero_lt_of_lt (after value member).2
  refine ⟨ends, waits, tracks', after, first, ?_⟩
  rw [either, waited]
  by_cases used : start.sets.length ≤ count
  · rw [turned.value_of_used some used]
    constructor
    · rintro (⟨holds, before⟩ | ⟨value, member, bound⟩)
      · exact ⟨holds, by omega⟩
      · have given := after value member
        exact ⟨given.1, by omega⟩
    · rintro ⟨holds, before⟩
      exact Or.inr ⟨_, first holds, by omega⟩
  · have bound := turned.value_of_unused (Nat.lt_of_not_le used)
    constructor
    · rintro (⟨holds, before⟩ | ⟨value, member, reached⟩)
      · exact ⟨holds, by omega⟩
      · have given := after value member
        omega
    · rintro ⟨holds, before⟩
      omega

theorem Follows.replays (follows : w.Follows start i gathered count known) (fits : start.Fits s)
    (same : p.rewound = start.rewound) (owned : ∀ e ∈ events, e.OwnedIn s)
    (replays : f.Replays p events traffic after) :
    (w.observeAll traffic).Follows start i gathered count (hearAll known events) := by
  obtain ⟨ends, seen, tracks, rest⟩ := follows
  exact ⟨ends, seen, tracks.replays fits same owned replays, rest⟩

theorem Follows.closes (follows : w.Follows start i gathered count known) (fits : start.Fits s)
    (same : p.rewound = start.rewound) (later : start.frameFence.value + i ≤ p.frameFence.value)
    (gathers : .graphics ∈ known → gathered) :
    (w.observeAll [p.closes]).Follows start i gathered count known := by
  obtain ⟨ends, seen, tracks, after, first, waited⟩ := follows
  refine ⟨_, seen, tracks.closes fits same, ?_, ?_, waited⟩
  · intro end_ member
    split at member
    · rename_i heard
      rcases List.mem_cons.mp member with rfl | old
      · exact ⟨gathers heard, Nat.lt_succ_of_le later⟩
      · exact after end_ old
    · exact after end_ member
  · intro holds
    split
    · exact List.mem_cons_of_mem _ (first holds)
    · exact first holds

end

end Wake

end RenderGraph
