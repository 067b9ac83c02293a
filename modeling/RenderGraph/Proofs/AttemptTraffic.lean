import RenderGraph.Proofs.DrainFinishes
import RenderGraph.Proofs.ListLife
import RenderGraph.Proofs.TriedFrames

/-! The traffic of a frame that may fail on the way. The processor waits at its start only, and the
frame fence is signalled at its end only. A list is reset and submitted in the set that is up, and
not reset again once it is submitted. -/

namespace RenderGraph

theorem apart_cycle {s : Schedule} (apart : s.events.Pairwise Event.Apart) :
    s.cycle.Pairwise Event.Apart := by
  have opens {e : Event} (member : e ∈ s.closing) : e.opened? = none := by
    obtain ⟨⟨queue, i⟩, _, rfl⟩ := List.mem_map.mp member
    rfl
  refine List.pairwise_append.mpr ⟨apart, ?_, ?_⟩
  · exact List.pairwise_of_forall_mem_list fun _ _ _ member =>
      Event.apart_of_opens_none (opens member)
  · exact fun _ _ _ member => Event.apart_of_opens_none (opens member)

def Command.IsListUse : Command → Prop
  | resetList _ | submit .. => True
  | _ => False

namespace Player

variable {s : Schedule} {f : Frame} {start p mid after : Player} {events : List Event} {e : Event}
  {traffic before late : List Traffic} {x : Traffic} {sent : Command} {queue : Queue}
  {key : ListKey} {scene : Scene} {frameIndex : Nat} {completed : Bool}

theorem Frame.Replays.exists_carries (replays : f.Replays p events traffic after)
    (member : x ∈ traffic) : ∃ e ∈ events, ∃ mid sent next, f.Carries mid e sent next ∧ x ∈ sent ∧
      mid.rewound = p.rewound := by
  induction replays with
  | nil => cases member
  | cons one _ ih =>
    rcases List.mem_append.mp member with here | later
    · exact ⟨_, List.mem_cons_self, _, _, _, one, here, rfl⟩
    · obtain ⟨e, present, mid, sent, next, carries, inside, same⟩ := ih later
      have kept := (Frame.Replays.cons one (.nil _)).kept.1
      exact ⟨e, List.mem_cons_of_mem _ present, mid, sent, next, carries, inside, same.trans kept⟩

theorem Frame.Replays.cut
    (alone : ∀ {p e sent after}, f.Carries p e sent after → x ∈ sent → sent = [x])
    (replays : f.Replays p events traffic after) (cut : traffic = before ++ x :: late) :
    ∃ xs e ys mid next, events = xs ++ e :: ys ∧ f.Replays p xs before mid ∧
      f.Carries mid e [x] next ∧ f.Replays next ys late after := by
  induction replays generalizing before with
  | nil => simp at cut
  | @cons p mid after e events sent more one rest ih =>
    have behind {before' : List Traffic} (same : before = sent ++ before')
        (cut' : more = before' ++ x :: late) :
        ∃ xs e' ys mid next, e :: events = xs ++ e' :: ys ∧ f.Replays p xs before mid ∧
          f.Carries mid e' [x] next ∧ f.Replays next ys late after := by
      obtain ⟨xs, e', ys, mid, next, rfl, first, here, last⟩ := ih cut'
      exact ⟨e :: xs, e', ys, mid, next, rfl, same ▸ .cons one first, here, last⟩
    rcases List.append_eq_append_iff.mp cut with ⟨rest', same, cut'⟩ | ⟨rest', same, cut'⟩
    · exact behind same cut'
    · cases rest' with
      | nil =>
        have whole : before = sent ++ [] := by simp [same]
        have nowhere : more = [] ++ x :: late := cut'.symm
        exact behind whole nowhere
      | cons y rest' =>
        obtain ⟨rfl, rfl⟩ := List.cons.inj cut'
        have single := alone one (same ▸ List.mem_append_right _ List.mem_cons_self)
        have only : before = [] ∧ rest' = [] := by
          rw [single] at same
          cases before with
          | nil => exact ⟨rfl, (List.cons.inj same).2.symm⟩
          | cons z before => simp at same
        obtain ⟨rfl, rfl⟩ := only
        subst single
        exact ⟨[], e, events, p, mid, rfl, .nil p, one, rest⟩

/-- The traffic of a frame, as far as it came: the wait for its lists, what it replayed, and signals
at its end. The frame fence is among these only if the frame went through. -/
structure Frame.Came (f : Frame) (p : Player) (completed : Bool) (traffic : List Traffic)
    (done : List Event) (body tail : List Traffic) (mid : Player) : Prop where
  part : done <+: f.schedule.cycle
  replays : f.Replays p done body mid
  traffic_eq : traffic = p.reclaims ++ body ++ tail
  signals : ∀ sent, .command sent ∈ tail → ∃ queue fence value, sent = .signal queue fence value ∧
    (queue = .graphics ∨ queue ∈ f.schedule.fences) ∧
    (fence = p.frameFence.fence → completed = true)

theorem slot_fence_ne (fits : p.Fits s) (same : mid.rewound = p.rewound) {slot : FenceSlot}
    (member : slot ∈ mid.fences) : slot.fence ≠ p.frameFence.fence := by
  obtain ⟨i, held⟩ := List.mem_iff_getElem?.mp member
  obtain ⟨first, found, key, _⟩ := Wake.exists_slot same held
  rw [← key]
  exact Wake.frameFence_ne fits (List.mem_of_getElem? found)

theorem Attempt.came (attempt : p.Attempt s scene frameIndex completed traffic after)
    (fits : p.Fits s) : (∀ sent, .command sent ∉ traffic) ∨
      ∃ done body tail mid, Frame.Came ⟨s, scene, frameIndex, p.nextLists⟩ p completed traffic done
        body tail mid := by
  cases attempt with
  | refused silent => exact Or.inl silent
  | @stopped done body tail mid _ part replays signals =>
    refine Or.inr ⟨done, body, tail, mid, part, replays, rfl, fun sent member => ?_⟩
    obtain ⟨queue, fenced, slot, present, value, same⟩ := signals sent member
    exact ⟨queue, slot.fence, value, same, Or.inr fenced, fun equal =>
      absurd equal (slot_fence_ne fits replays.kept.1 present)⟩
  | whole turn =>
    cases turn with
    | @mk body last replays =>
      refine Or.inr ⟨s.cycle, body, [last.closes], last, List.prefix_refl _, replays, rfl,
        fun sent member => ?_⟩
      cases Traffic.command.inj (List.mem_singleton.mp member)
      exact ⟨_, _, _, rfl, Or.inl (fits.of_rewound replays.kept.1).graphics, fun _ => rfl⟩

theorem wait_of_mem_reclaims (member : .command sent ∈ p.reclaims) :
    ∃ value, sent = .waitCpu p.frameFence.fence value := by
  simp only [reclaims] at member
  split at member
  · exact ⟨_, Traffic.command.inj (List.mem_singleton.mp member)⟩
  · cases member

theorem Frame.Replays.no_wait (replays : f.Replays p events traffic after) (fence : FenceKey)
    (value : Nat) : .command (.waitCpu fence value) ∉ traffic := by
  intro member
  obtain ⟨_, _, _, _, _, carries, inside, _⟩ := replays.exists_carries member
  cases carries <;> simp at inside

theorem Frame.Replays.signal_ne (replays : f.Replays p events traffic after) (fits : p.Fits s)
    (queue : Queue) (value : Nat) :
    .command (.signal queue p.frameFence.fence value) ∉ traffic := by
  intro member
  obtain ⟨_, _, _, _, _, carries, inside, same⟩ := replays.exists_carries member
  cases carries with
  | openList | barriers | silent | record | submit => simp at inside
  | @sync signal wait fence slot owned =>
    have other := slot_fence_ne fits same (List.mem_of_getElem? owned)
    simp [other.symm] at inside

section

variable (attempt : p.Attempt s scene frameIndex completed traffic after) (fits : p.Fits s)

include attempt fits

theorem Attempt.of_command (member : .command sent ∈ traffic) :
    (∃ value, sent = .waitCpu p.frameFence.fence value) ∨
    (∃ done body mid, done <+: s.cycle ∧
      Frame.Replays ⟨s, scene, frameIndex, p.nextLists⟩ p done body mid ∧ .command sent ∈ body) ∨
    ∃ queue fence value, sent = .signal queue fence value ∧
      (queue = .graphics ∨ queue ∈ s.fences) ∧
      (fence = p.frameFence.fence → completed = true) := by
  rcases attempt.came fits with silent | ⟨done, body, tail, mid, came⟩
  · exact absurd member (silent _)
  · rw [came.traffic_eq] at member
    rcases List.mem_append.mp member with early | last
    · rcases List.mem_append.mp early with wait | replayed
      · exact Or.inl (wait_of_mem_reclaims wait)
      · exact Or.inr (Or.inl ⟨done, body, mid, came.part, came.replays, replayed⟩)
    · exact Or.inr (Or.inr (came.signals _ last))

theorem Attempt.signals (signed : s.Signed) (signals : Signals queue traffic) :
    queue = .graphics ∨ queue ∈ s.fences := by
  obtain ⟨fence, value, member⟩ := signals
  rcases attempt.of_command fits member with
    ⟨_, same⟩ | ⟨done, body, mid, part, replays, replayed⟩ | ⟨_, _, _, same, gathered, _⟩
  · cases same
  · obtain ⟨wait, fence, sync⟩ := replays.signals.mp ⟨fence, value, replayed⟩
    have owner := signed.owned _ (part.subset sync) queue wait fence rfl
    exact Or.inr (List.mem_of_getElem? owner)
  · cases same
    exact gathered

theorem Attempt.completed_of_signal {value : Nat}
    (member : .command (.signal queue p.frameFence.fence value) ∈ traffic) : completed = true := by
  rcases attempt.of_command fits member with
    ⟨_, same⟩ | ⟨done, body, mid, _, replays, replayed⟩ | ⟨_, _, _, same, _, through⟩
  · cases same
  · exact absurd replayed (replays.signal_ne fits queue value)
  · cases same
    exact through rfl

theorem Attempt.fence_of_wait {fence : FenceKey} {value : Nat}
    (member : .command (.waitCpu fence value) ∈ traffic) : fence = p.frameFence.fence := by
  rcases attempt.of_command fits member with
    ⟨_, same⟩ | ⟨done, body, mid, _, replays, replayed⟩ | ⟨_, _, _, same, _⟩
  · exact (Command.waitCpu.inj same).1
  · exact absurd replayed (replays.no_wait fence value)
  · cases same

end

theorem Frame.Carries.alone (carries : f.Carries p e traffic after)
    (member : .command sent ∈ traffic) (own : sent.IsListUse) : traffic = [.command sent] := by
  cases carries with
  | openList | barriers | submit => rw [List.mem_singleton.mp member]
  | silent => cases member
  | record => cases List.mem_singleton.mp member
  | sync =>
    rcases List.mem_cons.mp member with same | same
    · cases same
      cases own
    · cases List.mem_singleton.mp same
      cases own

theorem Frame.Came.cut {done : List Event} {body tail : List Traffic}
    (came : f.Came p completed traffic done body tail mid)
    (cut : traffic = before ++ .command sent :: late) (own : sent.IsListUse) :
    ∃ xs e ys reached next first second, done = xs ++ e :: ys ∧ f.Replays p xs first reached ∧
      f.Carries reached e [.command sent] next ∧ f.Replays next ys second mid ∧
      before = p.reclaims ++ first ∧ late = second ++ tail := by
  have last : .command sent ∉ tail := by
    intro member
    obtain ⟨_, _, _, same, _⟩ := came.signals _ member
    rw [same] at own
    cases own
  have first : .command sent ∉ p.reclaims := by
    intro member
    obtain ⟨_, same⟩ := wait_of_mem_reclaims member
    rw [same] at own
    cases own
  obtain ⟨rest, halves, rfl⟩ := cut_append (came.traffic_eq.symm.trans cut) last
  obtain ⟨front, rfl, replayed⟩ := cut_append_right halves first
  obtain ⟨xs, e, ys, reached, next, events, before, here, later⟩ :=
    came.replays.cut (fun carries member => carries.alone member own) replayed
  exact ⟨xs, e, ys, reached, next, front, rest, events, before, here, later, rfl, rfl⟩

theorem Frame.Carries.key_of_reset
    (carries : f.Carries p e [.command (.resetList key)] after) :
    ∃ list, e.opened? = some list ∧ f.lists[list.index]? = some key := by
  cases carries with
  | openList own => exact ⟨_, rfl, own⟩

theorem Frame.Carries.key_of_submit
    (carries : f.Carries p e [.command (.submit queue key)] after) :
    ∃ list, e = .submit list ∧ f.lists[list.index]? = some key := by
  cases carries with
  | submit _ own => exact ⟨_, rfl, own⟩

section

variable (attempt : p.Attempt s scene frameIndex completed traffic after) (fits : p.Fits s)

include attempt fits

theorem Attempt.mem_nextLists_of_submit
    (cut : traffic = before ++ .command (.submit queue key) :: late) : key ∈ p.nextLists := by
  rcases attempt.came fits with silent | ⟨done, body, tail, mid, came⟩
  · exact absurd (cut ▸ List.mem_append_right _ List.mem_cons_self) (silent _)
  · obtain ⟨_, _, _, _, _, _, _, _, _, here, _⟩ := came.cut cut trivial
    obtain ⟨list, _, own⟩ := here.key_of_submit
    exact List.mem_of_getElem? own

theorem Attempt.of_reset (cut : traffic = before ++ .command (.resetList key) :: late) :
    key ∈ p.nextLists ∧ (∃ more, before = p.reclaims ++ more) ∧
      ∀ queue value, .command (.signal queue p.frameFence.fence value) ∉ before := by
  rcases attempt.came fits with silent | ⟨done, body, tail, mid, came⟩
  · exact absurd (cut ▸ List.mem_append_right _ List.mem_cons_self) (silent _)
  · obtain ⟨xs, e, ys, reached, next, first, second, _, replays, here, _, rfl, rfl⟩ :=
      came.cut cut trivial
    obtain ⟨list, _, own⟩ := here.key_of_reset
    refine ⟨List.mem_of_getElem? own, ⟨first, rfl⟩, fun queue value member => ?_⟩
    rcases List.mem_append.mp member with wait | replayed
    · obtain ⟨_, same⟩ := wait_of_mem_reclaims wait
      cases same
    · exact replays.signal_ne fits queue value replayed

theorem Attempt.reset_notMem (apart : s.events.Pairwise Event.Apart)
    (cut : traffic = before ++ .command (.submit queue key) :: late) :
    .command (.resetList key) ∉ late := by
  intro member
  rcases attempt.came fits with silent | ⟨done, body, tail, mid, came⟩
  · exact absurd (cut ▸ List.mem_append_right _ List.mem_cons_self) (silent _)
  · obtain ⟨xs, e, ys, reached, next, first, second, rfl, _, here, later, rfl, rfl⟩ :=
      came.cut cut trivial
    obtain ⟨list, rfl, own⟩ := here.key_of_submit
    rcases List.mem_append.mp member with replayed | last
    · obtain ⟨e, present, _, sent, _, carries, inside, _⟩ := later.exists_carries replayed
      rw [carries.alone inside trivial] at carries
      obtain ⟨other, opens, own'⟩ := carries.key_of_reset
      have inside := (List.getElem?_eq_some_iff.mp own).1
      have same : list.index = other.index :=
        (List.getElem?_inj inside fits.nextLists.2).mp (own.trans own'.symm)
      have equal : list = other := congrArg ListId.mk same
      have order := (apart_cycle apart).sublist came.part.sublist
      obtain ⟨_, order, _⟩ := List.pairwise_append.mp order
      exact (List.pairwise_cons.mp order).1 e present list rfl (equal ▸ opens)
    · obtain ⟨_, _, _, same, _⟩ := came.signals _ last
      cases same

end

end Player

end RenderGraph
