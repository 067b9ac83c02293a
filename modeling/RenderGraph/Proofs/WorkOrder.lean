import Mathlib.Data.List.Induction
import RenderGraph.Proofs.DeviceCalls
import RenderGraph.Proofs.SyncChain

/-! Which work the device finishes before which. Submitted work is followed by what its queue does
later, by queues that wait for a signal that came after it, and by everything submitted once the
processor has waited for such a signal. -/

namespace RenderGraph

/-- What is known to come after a piece of work. -/
structure Wake where
  queues : List Queue
  signals : List (FenceKey × Nat) := []
  /-- The processor has waited for the work, so that everything submitted from now on follows. -/
  seen : Bool := false
  deriving DecidableEq, Repr

namespace Wake

def reaches (w : Wake) (fence : FenceKey) (value : Nat) : Bool :=
  w.signals.any fun (signalled, given) => signalled == fence && given ≤ value

def observe (w : Wake) : Command → Wake
  | .signal queue fence value =>
    if queue ∈ w.queues then { w with signals := (fence, value) :: w.signals } else w
  | .wait queue fence value =>
    if w.reaches fence value then { w with queues := queue :: w.queues } else w
  | .waitCpu fence value => if w.reaches fence value then { w with seen := true } else w
  | _ => w

def observeAll (w : Wake) (traffic : List Traffic) : Wake :=
  (traffic.filterMap Traffic.command?).foldl observe w

theorem observeAll_append (w : Wake) (xs ys : List Traffic) :
    w.observeAll (xs ++ ys) = (w.observeAll xs).observeAll ys := by
  rw [observeAll, List.filterMap_append, List.foldl_append]
  rfl

end Wake

/-- Work submitted to the source before the traffic is finished before work submitted to the target
after it. -/
def WorkOrdered (traffic : List Traffic) (source target : Queue) : Prop :=
  let wake := Wake.observeAll { queues := [source] } traffic
  target ∈ wake.queues ∨ wake.seen = true

instance (traffic : List Traffic) (source target : Queue) :
    Decidable (WorkOrdered traffic source target) :=
  inferInstanceAs (Decidable (_ ∨ _))

/-- The queues that the syncs make wait, directly or not, for one of the given queues. -/
def hear (known : List Queue) : Event → List Queue
  | .sync signal wait _ => if signal ∈ known then wait :: known else known
  | _ => known

def hearAll (known : List Queue) (events : List Event) : List Queue := events.foldl hear known

section

variable {events : List Event} {known : List Queue} {source queue : Queue} {first last : Nat}

theorem hearAll_append (known : List Queue) (xs ys : List Event) :
    hearAll known (xs ++ ys) = hearAll (hearAll known xs) ys := List.foldl_append

theorem mem_hear_of_mem (member : queue ∈ known) (e : Event) : queue ∈ hear known e := by
  cases e with
  | sync signal wait fence =>
    simp only [hear]
    split
    · exact List.mem_cons_of_mem _ member
    · exact member
  | openList | barriers | record | submit => exact member

theorem mem_hearAll_of_mem (member : queue ∈ known) (events : List Event) :
    queue ∈ hearAll known events := by
  induction events generalizing known with
  | nil => exact member
  | cons e events ih => exact ih (mem_hear_of_mem member e)

theorem mem_hearAll_of_sync {signal wait : Queue} {fence : FenceId} (signalled : signal ∈ known)
    (member : .sync signal wait fence ∈ events) : wait ∈ hearAll known events := by
  obtain ⟨before, rest, rfl⟩ := List.append_of_mem member
  rw [hearAll_append]
  refine mem_hearAll_of_mem ?_ rest
  have heard : signal ∈ hearAll known before := mem_hearAll_of_mem signalled before
  simp [hear, heard]

theorem mem_hearAll_mono {later : List Event} (longer : events <+: later)
    (heard : queue ∈ hearAll known events) : queue ∈ hearAll known later := by
  obtain ⟨more, rfl⟩ := longer
  rw [hearAll_append]
  exact mem_hearAll_of_mem heard more

theorem SyncChain.mem_hearAll (chain : SyncChain events source first queue last) :
    queue ∈ hearAll [source] (events.take (last + 1)) := by
  induction chain with
  | one sync =>
    rw [List.take_add_one, sync]
    exact mem_hearAll_of_sync (List.mem_singleton_self source)
      (List.mem_append_right _ (List.mem_singleton_self _))
  | @snoc middle waiting fence i j _ later sync ih =>
    have shorter : events.take (i + 1) <+: events.take j := List.take_prefix_take_left later
    rw [List.take_add_one, sync, hearAll_append]
    exact mem_hearAll_of_sync (mem_hearAll_mono shorter ih) (List.mem_singleton_self _)

theorem chain_of_mem_hearAll (heard : queue ∈ hearAll [source] events) :
    queue = source ∨ ∃ first last, SyncChain events source first queue last := by
  induction events using List.reverseRecOn generalizing queue with
  | nil => exact Or.inl (List.mem_singleton.mp heard)
  | append_singleton events e ih =>
    rw [hearAll_append] at heard
    have earlier (before : queue ∈ hearAll [source] events) : queue = source ∨
        ∃ first last, SyncChain (events ++ [e]) source first queue last := by
      rcases ih before with same | ⟨first, last, chain⟩
      · exact Or.inl same
      · exact Or.inr ⟨first, last, chain.append [e]⟩
    cases e with
    | sync signal wait fence =>
      simp only [hearAll, List.foldl_cons, List.foldl_nil, hear] at heard
      split at heard
      · rename_i signalled
        rcases List.mem_cons.mp heard with rfl | before
        · rcases ih signalled with rfl | ⟨first, last, chain⟩
          · exact Or.inr ⟨_, _, .one List.getElem?_concat_length⟩
          · exact Or.inr ⟨first, _,
              (chain.append _).snoc chain.last_lt List.getElem?_concat_length⟩
        · exact earlier before
      · exact earlier heard
    | openList | barriers | record | submit => exact earlier heard

theorem mem_hearAll_iff : queue ∈ hearAll [source] events ↔
    queue = source ∨ ∃ first last, SyncChain events source first queue last := by
  constructor
  · exact chain_of_mem_hearAll
  · rintro (rfl | ⟨first, last, chain⟩)
    · exact mem_hearAll_of_mem (List.mem_singleton_self queue) events
    · exact mem_hearAll_mono (List.take_prefix (last + 1) events) chain.mem_hearAll

end

end RenderGraph
