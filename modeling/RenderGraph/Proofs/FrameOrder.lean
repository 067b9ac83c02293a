import RenderGraph.Proofs.FrameWake

/-! Where a list is submitted in the frames of a player, and what comes after it. -/

namespace RenderGraph

namespace Schedule

variable {s : Schedule} {queue : Queue} {events : List Event}

theorem SubmittedAt.lt_length {list : ListId} {n : Nat} (submitted : s.SubmittedAt list n) :
    n < s.events.length :=
  (List.getElem?_eq_some_iff.mp ((submitted n).mpr rfl)).1

/-- The events from after a position to the end of the frame, and those of some frames more. -/
def rest (s : Schedule) (position frames : Nat) : List Event :=
  s.cycle.drop (position + 1) ++ (List.replicate frames s.cycle).flatten

/-- The events from after a position of a frame up to a position of a later one, with some whole
frames between the two. -/
def span (s : Schedule) (position frames upTo : Nat) : List Event :=
  s.rest position frames ++ s.events.take upTo

theorem rest_succ (s : Schedule) (position frames : Nat) :
    s.rest position (frames + 1) = s.rest position frames ++ s.cycle := by
  simp [rest, List.replicate_succ']

theorem mem_closing {signal wait : Queue} {fence : FenceId} :
    .sync signal wait fence ∈ s.closing ↔
      s.fences[fence.index]? = some signal ∧ wait = .graphics := by
  unfold closing
  rw [List.mem_map]
  constructor
  · rintro ⟨⟨queue, i⟩, member, same⟩
    cases same
    exact ⟨List.mk_mem_zipIdx_iff_getElem?.mp member, rfl⟩
  · rintro ⟨owner, rfl⟩
    exact ⟨(signal, fence.index), List.mk_mem_zipIdx_iff_getElem?.mpr owner, rfl⟩

theorem Signed.owned (signed : s.Signed) : ∀ e ∈ s.cycle, e.OwnedIn s := by
  rintro e member signal wait fence rfl
  rcases List.mem_append.mp member with event | gather
  · exact signed.owner event
  · exact (mem_closing.mp gather).1

theorem Signed.owned_rest (signed : s.Signed) (position frames : Nat) :
    ∀ e ∈ s.rest position frames, e.OwnedIn s := by
  intro e member
  rcases List.mem_append.mp member with first | later
  · exact signed.owned e (List.mem_of_mem_drop first)
  · obtain ⟨frame, copied, present⟩ := List.mem_flatten.mp later
    rw [List.eq_of_mem_replicate copied] at present
    exact signed.owned e present

theorem hearAll_of_unfenced (owned : ∀ e ∈ events, e.OwnedIn s) (unfenced : queue ∉ s.fences) :
    hearAll [queue] events = [queue] := by
  induction events with
  | nil => rfl
  | cons e events ih =>
    have silent : hear [queue] e = [queue] := by
      cases e with
      | sync signal wait fence =>
        have owner := owned _ List.mem_cons_self signal wait fence rfl
        have other : signal ∉ [queue] := by
          intro same
          rw [List.mem_singleton.mp same] at owner
          exact unfenced (List.mem_of_getElem? owner)
        exact if_neg other
      | openList | barriers | record | submit => rfl
    have rest := ih fun e member => owned e (List.mem_cons_of_mem _ member)
    rw [hearAll, List.foldl_cons, silent]
    exact rest

theorem graphics_mem_hearAll_closing (owned : ∀ e ∈ events, e.OwnedIn s)
    (signed : s.Signed) : .graphics ∈ hearAll [queue] (events ++ s.closing) ↔
      queue = .graphics ∨ queue ∈ s.fences := by
  constructor
  · intro heard
    by_cases fenced : queue ∈ s.fences
    · exact Or.inr fenced
    · have all : ∀ e ∈ events ++ s.closing, e.OwnedIn s := by
        intro e member
        rcases List.mem_append.mp member with event | gather
        · exact owned e event
        · exact signed.owned e (List.mem_append_right _ gather)
      rw [hearAll_of_unfenced all fenced] at heard
      exact Or.inl (List.mem_singleton.mp heard).symm
  · rintro (rfl | fenced)
    · exact mem_hearAll_of_mem (List.mem_singleton_self _) _
    · obtain ⟨i, owner⟩ := List.mem_iff_getElem?.mp fenced
      have gather : .sync queue .graphics ⟨i⟩ ∈ s.closing := mem_closing.mpr ⟨owner, rfl⟩
      exact mem_hearAll_of_sync (List.mem_singleton_self queue) (List.mem_append_right _ gather)

end Schedule

namespace Player

variable {s : Schedule} {start p after : Player} {scene : Scene} {frameIndex : Nat}
  {list : ListId} {key : ListKey} {queue : Queue} {traffic : List Traffic} {n : Nat}
  {events : List Event}

theorem Frame.Replays.submit_notMem {f : Frame} (replays : f.Replays p events traffic after)
    (distinct : f.lists.Nodup) (own : f.lists[list.index]? = some key)
    (other : .submit list ∉ events) (queue : Queue) :
    .command (.submit queue key) ∉ traffic := by
  induction replays with
  | nil => exact List.not_mem_nil
  | cons one _ ih =>
    intro member
    rcases List.mem_append.mp member with here | later
    · cases one with
      | openList | barriers | silent | record | sync => simp at here
      | @submit list' _ _ _ own' =>
        cases List.mem_singleton.mp here
        have inside := (List.getElem?_eq_some_iff.mp own).1
        have same : list.index = list'.index :=
          (List.getElem?_inj inside distinct).mp (own.trans own'.symm)
        have equal : list = list' := congrArg ListId.mk same
        exact other (equal ▸ List.mem_cons_self)
    · exact ih (fun present => other (List.mem_cons_of_mem _ present)) later

theorem Frame.Replays.recording {f : Frame} (replays : f.Replays p events traffic after)
    {r : Recording} (member : .recording r ∈ traffic) :
    ∃ list, .record list r.pass ∈ events ∧ f.lists[list.index]? = some r.list := by
  induction replays with
  | nil => cases member
  | cons one _ ih =>
    rcases List.mem_append.mp member with here | later
    · cases one with
      | openList | barriers | silent | submit | sync => simp at here
      | record own =>
        cases List.mem_singleton.mp here
        exact ⟨_, List.mem_cons_self, own⟩
    · obtain ⟨list, record, own⟩ := ih later
      exact ⟨list, List.mem_cons_of_mem _ record, own⟩

theorem list?_nextSet (p : Player) (list : ListId) :
    p.list? p.nextSet list = p.nextLists[list.index]? := by
  unfold list? nextLists
  rw [List.getD_eq_getElem?_getD]
  cases p.sets[p.nextSet]? with
  | none => simp
  | some set => rfl

theorem Fits.nextLists_mem (fits : p.Fits s) : p.nextLists ∈ p.sets := by
  have inside : p.nextSet < p.sets.length := Nat.mod_lt _ fits.some
  unfold Player.nextLists
  rw [List.getD_eq_getElem?_getD, List.getElem?_eq_getElem inside]
  exact List.getElem_mem inside

theorem Fits.nextLists (fits : p.Fits s) :
    p.nextLists.length = s.lists.length ∧ p.nextLists.Nodup :=
  fits.full _ fits.nextLists_mem

structure Around (s : Schedule) (scene : Scene) (frameIndex : Nat) (p : Player) (n : Nat)
    (submission : Traffic) (traffic first second : List Traffic) (mid last : Player) : Prop where
  before : Frame.Replays ⟨s, scene, frameIndex, p.nextLists⟩ p (s.events.take n) first mid
  later : Frame.Replays ⟨s, scene, frameIndex, p.nextLists⟩ mid (s.cycle.drop (n + 1)) second last
  traffic_eq : traffic = p.reclaims ++ first ++ submission :: (second ++ [last.closes])
  fresh : submission ∉ p.reclaims ++ first
  once : submission ∉ second ++ [last.closes]

theorem submit_notMem_take (submitted : s.SubmittedAt list n) :
    .submit list ∉ s.events.take n := by
  intro member
  obtain ⟨m, held⟩ := List.mem_iff_getElem?.mp member
  rw [List.getElem?_take] at held
  split at held
  · rename_i before
    exact Nat.ne_of_lt before ((submitted m).mp held)
  · cases held

theorem drop_cycle (submitted : s.SubmittedAt list n) :
    s.cycle.drop (n + 1) = s.events.drop (n + 1) ++ s.closing := by
  rw [Schedule.cycle, List.drop_append_of_le_length submitted.lt_length]

theorem submit_notMem_drop (submitted : s.SubmittedAt list n) :
    .submit list ∉ s.cycle.drop (n + 1) := by
  rw [drop_cycle submitted]
  intro member
  rcases List.mem_append.mp member with event | gather
  · obtain ⟨m, held⟩ := List.mem_iff_getElem?.mp event
    rw [List.getElem?_drop] at held
    have same : n + 1 + m = n := (submitted _).mp held
    omega
  · obtain ⟨⟨queue, i⟩, _, sync⟩ := List.mem_map.mp gather
    cases sync

theorem cycle_eq (submitted : s.SubmittedAt list n) :
    s.cycle = s.events.take n ++ .submit list :: s.cycle.drop (n + 1) := by
  have inside := submitted.lt_length
  have here : s.events[n] = .submit list := by
    have held := (submitted n).mpr rfl
    rwa [List.getElem?_eq_getElem inside, Option.some.injEq] at held
  calc s.cycle = (s.events.take n ++ s.events.drop n) ++ s.closing := by
        rw [List.take_append_drop, Schedule.cycle]
    _ = s.events.take n ++ .submit list :: (s.events.drop (n + 1) ++ s.closing) := by
        rw [← List.getElem_cons_drop inside, here, List.append_assoc, List.cons_append]
    _ = _ := by rw [drop_cycle submitted]

theorem Turn.around (turn : p.Turn s scene frameIndex traffic after) (fits : p.Fits s)
    (submitted : s.SubmittedAt list n) (opened : s.listQueue? list = some queue) :
    ∃ key first second mid last, p.list? p.nextSet list = some key ∧
      after = last.closed p.nextSet ∧
      Around s scene frameIndex p n (.command (.submit queue key)) traffic first second mid
        last := by
  cases turn with
  | @mk body last replays =>
    rw [cycle_eq submitted] at replays
    obtain ⟨mid, first, rest, before, later, rfl⟩ := replays.split
    cases later with
    | @cons _ _ _ _ _ here second one later =>
      cases one with
      | @submit _ owner key opened' own =>
        have same : owner = queue := Option.some.inj (opened'.symm.trans opened)
        subst same
        have distinct := fits.nextLists.2
        refine ⟨key, first, second, mid, last, ?_, rfl, before, later, ?_, ?_, ?_⟩
        · rw [list?_nextSet]
          exact own
        · simp only [List.append_assoc, List.cons_append, List.nil_append]
        · intro member
          rcases List.mem_append.mp member with wait | early
          · simp only [reclaims] at wait
            split at wait <;> simp at wait
          · exact before.submit_notMem distinct own (submit_notMem_take submitted) owner early
        · intro member
          rcases List.mem_append.mp member with late | close
          · exact later.submit_notMem distinct own (submit_notMem_drop submitted) owner late
          · simp [closes] at close

theorem Around.unique {submission : Traffic} {first second before late : List Traffic}
    {mid last : Player}
    (around : Around s scene frameIndex p n submission traffic first second mid last)
    (cut : traffic = before ++ submission :: late) :
    before = p.reclaims ++ first ∧ late = second ++ [last.closes] := by
  have equal := cut.symm.trans around.traffic_eq
  rcases (List.append_cons_inj_of_notMem around.fresh around.once).mp equal.symm with
    ⟨early, _, rest⟩
  exact ⟨early.symm, rest.symm⟩

theorem Turned.list?_eq {count : Nat} (turned : start.Turned count p) (list : ListId) :
    p.list? p.nextSet list = start.list? ((start.frames + count) % start.sets.length) list := by
  rw [turned.nextSet, list?, list?, turned.sets]

section

variable {i count : Nat} {source : Queue} {before late : List Traffic}

theorem Turn.follows (turn : p.Turn s scene frameIndex traffic after) (fits : start.Fits s)
    (signed : s.Signed) (turned : start.Turned i p) (submitted : s.SubmittedAt list n)
    (opened : s.listQueue? list = some source)
    (own : start.list? ((start.frames + i) % start.sets.length) list = some key)
    (cut : traffic = before ++ .command (.submit source key) :: late) :
    (Wake.observeAll { queues := [source] } late).Follows start i
      (source = .graphics ∨ source ∈ s.fences) (i + 1)
      (hearAll [source] (s.cycle.drop (n + 1))) := by
  obtain ⟨key', first, second, mid, last, own', _, around⟩ :=
    turn.around (fits.of_rewound turned.rewound) submitted opened
  have same : key = key' := by
    rw [turned.list?_eq, own] at own'
    exact Option.some.inj own'
  subst same
  rcases around.unique cut with ⟨rfl, rfl⟩
  have owned : ∀ e ∈ s.cycle.drop (n + 1), e.OwnedIn s := fun e member =>
    signed.owned e (List.mem_of_mem_drop member)
  obtain ⟨rewoundMid, fencesMid, rfl⟩ := around.before.kept
  obtain ⟨rewound, fences, rfl⟩ := around.later.kept
  have kept := rewound.trans (rewoundMid.trans turned.rewound)
  have tracks := (Wake.tracks_start start source).replays fits
    (rewoundMid.trans turned.rewound) owned around.later
  rw [Wake.observeAll_append]
  apply tracks.follows fits kept turned.value
  rw [drop_cycle submitted] at owned ⊢
  exact (Schedule.graphics_mem_hearAll_closing
    (fun e member => owned e (List.mem_append_left _ member)) signed).symm

theorem Turn.follows_later {w : Wake} {frames : Nat}
    (turn : p.Turn s scene frameIndex traffic after) (fits : start.Fits s) (signed : s.Signed)
    (turned : start.Turned count p) (later : i < count)
    (follows : w.Follows start i (source = .graphics ∨ source ∈ s.fences) count
      (hearAll [source] (s.rest n frames))) :
    (w.observeAll traffic).Follows start i (source = .graphics ∨ source ∈ s.fences) (count + 1)
      (hearAll [source] (s.rest n (frames + 1))) := by
  cases turn with
  | @mk body last replays =>
    obtain ⟨rewound, fences, rfl⟩ := replays.kept
    have kept := rewound.trans turned.rewound
    have replayed := (follows.reclaims turned fits.some).replays fits turned.rewound signed.owned
      replays
    rw [← hearAll_append] at replayed
    rw [Wake.observeAll_append, Wake.observeAll_append, Schedule.rest_succ]
    apply replayed.closes fits kept
    · have value := turned.value
      simp only
      omega
    · rw [Schedule.cycle, ← List.append_assoc]
      have owned : ∀ e ∈ s.rest n frames ++ s.events, e.OwnedIn s := by
        intro e member
        rcases List.mem_append.mp member with old | event
        · exact signed.owned_rest n frames e old
        · exact signed.owned e (List.mem_append_left _ event)
      exact (Schedule.graphics_mem_hearAll_closing owned signed).mp

theorem Turns.follows {frames : List (List Traffic)} (turns : start.Turns s frames p)
    (fits : start.Fits s) (counted : start.Counted) (signed : s.Signed)
    (submitted : s.SubmittedAt list n) (opened : s.listQueue? list = some source)
    (own : start.list? ((start.frames + i) % start.sets.length) list = some key)
    (held : frames[i]? = some traffic)
    (cut : traffic = before ++ .command (.submit source key) :: late) :
    (Wake.observeAll { queues := [source] } (late ++ (frames.drop (i + 1)).flatten)).Follows start
      i (source = .graphics ∨ source ∈ s.fences) frames.length
      (hearAll [source] (s.rest n (frames.length - (i + 1)))) := by
  induction turns with
  | nil => cases held
  | @snoc frames last mid after scene frameIndex turns turn ih =>
    have turned := turns.turned counted fits.some
    rw [List.length_append, List.length_singleton]
    rcases Nat.lt_trichotomy i frames.length with inside | rfl | beyond
    · rw [List.getElem?_append_left inside] at held
      have follows := turn.follows_later fits signed turned inside (ih held)
      have more : frames.length + 1 - (i + 1) = frames.length - (i + 1) + 1 := by omega
      rw [more, List.drop_append_of_le_length inside, List.flatten_append, List.flatten_singleton,
        ← List.append_assoc, Wake.observeAll_append]
      exact follows
    · rw [List.getElem?_concat_length] at held
      have same : last = traffic := Option.some.inj held
      rw [same] at turn ⊢
      have follows := turn.follows fits signed turned submitted opened own cut
      have none : (frames ++ [traffic]).drop (frames.length + 1) = [] := by simp
      rw [none, Nat.sub_self]
      simpa [Schedule.rest] using follows
    · have bound := (List.getElem?_eq_some_iff.mp held).1
      rw [List.length_append, List.length_singleton] at bound
      omega

theorem Turns.ordered_iff {frames : List (List Traffic)} {j m : Nat} {target : Queue}
    {list' : ListId} {key' : ListKey} {traffic' early rest : List Traffic}
    (turns : start.Turns s frames p) (fits : start.Fits s) (counted : start.Counted)
    (signed : s.Signed) (submitted : s.SubmittedAt list n) (submitted' : s.SubmittedAt list' m)
    (opened : s.listQueue? list = some source) (opened' : s.listQueue? list' = some target)
    (own : start.list? ((start.frames + i) % start.sets.length) list = some key)
    (own' : start.list? ((start.frames + j) % start.sets.length) list' = some key')
    (precedes : i < j) (held : frames[i]? = some traffic) (held' : frames[j]? = some traffic')
    (cut : traffic = before ++ .command (.submit source key) :: late)
    (cut' : traffic' = early ++ .command (.submit target key') :: rest) :
    WorkOrdered (late ++ ((frames.take j).drop (i + 1)).flatten ++ early) source target ↔
      target ∈ hearAll [source] (s.span n (j - (i + 1)) m) ∨
        (source = .graphics ∨ source ∈ s.fences) ∧ i + start.sets.length ≤ j := by
  obtain ⟨mid, scene, frameIndex, after, first, turn⟩ := turns.split held'
  have inside : j < frames.length := (List.getElem?_eq_some_iff.mp held').1
  have length : (frames.take j).length = j := List.length_take_of_le (Nat.le_of_lt inside)
  have turned := first.turned counted fits.some
  rw [length] at turned
  have present : (frames.take j)[i]? = some traffic := by
    rw [List.getElem?_take_of_lt precedes]
    exact held
  have follows := first.follows fits counted signed submitted opened own present cut
  rw [length] at follows
  obtain ⟨key₂, upTo, second, reached, last, found, _, around⟩ :=
    turn.around (fits.of_rewound turned.rewound) submitted' opened'
  have same : key' = key₂ := by
    rw [turned.list?_eq, own'] at found
    exact Option.some.inj found
  subst same
  rcases around.unique cut' with ⟨rfl, _⟩
  have owned : ∀ e ∈ s.events.take m, e.OwnedIn s := fun e member =>
    signed.owned e (List.mem_append_left _ (List.mem_of_mem_take member))
  obtain ⟨ends, seen, tracks, _, _, waited⟩ :=
    (follows.reclaims turned fits.some).replays fits turned.rewound owned around.before
  rw [← hearAll_append] at tracks
  unfold WorkOrdered
  rw [Wake.observeAll_append, Wake.observeAll_append]
  dsimp only
  rw [tracks.queues, tracks.seen, waited, Nat.lt_succ_iff]
  rfl

end

end Player

end RenderGraph
