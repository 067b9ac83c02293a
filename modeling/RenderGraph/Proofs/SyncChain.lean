import RenderGraph.Schedule

/-! Order between the queues of a schedule. Work of one queue comes before later work of another if
a chain of syncs leads from the one to the other. -/

namespace RenderGraph

/-- Syncs at increasing positions: the first is signalled by the source, each later one by the queue
that the one before made wait, and the last makes the other queue wait. -/
inductive SyncChain (events : List Event) (source : Queue) (first : Nat) : Queue → Nat → Prop
  | one {waiting : Queue} {fence : FenceId}
    (sync : events[first]? = some (.sync source waiting fence)) :
    SyncChain events source first waiting first
  | snoc {middle waiting : Queue} {fence : FenceId} {i j : Nat}
    (chain : SyncChain events source first middle i) (later : i < j)
    (sync : events[j]? = some (.sync middle waiting fence)) :
    SyncChain events source first waiting j

theorem getElem?_append_of_some {events : List Event} {e : Event} {n : Nat}
    (held : events[n]? = some e) (more : List Event) : (events ++ more)[n]? = some e := by
  rw [List.getElem?_append_left (List.getElem?_eq_some_iff.mp held).1]
  exact held

namespace SyncChain

variable {events : List Event} {source middle waiting : Queue} {i j k l : Nat}

theorem last_lt (chain : SyncChain events source i waiting j) : j < events.length := by
  cases chain with
  | one sync => exact (List.getElem?_eq_some_iff.mp sync).1
  | snoc _ _ sync => exact (List.getElem?_eq_some_iff.mp sync).1

theorem first_sync (chain : SyncChain events source i waiting j) :
    ∃ next fence, events[i]? = some (.sync source next fence) := by
  induction chain with
  | one sync => exact ⟨_, _, sync⟩
  | snoc _ _ _ ih => exact ih

theorem last_sync (chain : SyncChain events source i waiting j) :
    ∃ signal fence, events[j]? = some (.sync signal waiting fence) := by
  cases chain with
  | one sync => exact ⟨_, _, sync⟩
  | snoc _ _ sync => exact ⟨_, _, sync⟩

theorem append (chain : SyncChain events source i waiting j) (more : List Event) :
    SyncChain (events ++ more) source i waiting j := by
  induction chain with
  | one sync => exact one (getElem?_append_of_some sync more)
  | snoc _ later sync ih => exact snoc ih later (getElem?_append_of_some sync more)

theorem trans (chain : SyncChain events source i middle j) (later : j < k)
    (next : SyncChain events middle k waiting l) : SyncChain events source i waiting l := by
  induction next with
  | one sync => exact snoc chain later sync
  | snoc _ further sync ih => exact snoc ih further sync

end SyncChain

/-- A chain of syncs leads from the source to the waiting queue once the list is submitted. -/
def Reaches (events : List Event) (list : ListId) (source waiting : Queue) : Prop :=
  ∃ m i k, events[m]? = some (.submit list) ∧ m < i ∧ SyncChain events source i waiting k

def ReachesBefore (events : List Event) (first : ListId) (source : Queue) (second : ListId)
    (waiting : Queue) : Prop :=
  ∃ m i k, events[m]? = some (.submit first) ∧ m < i ∧ SyncChain events source i waiting k ∧
    ∀ n, events[n]? = some (.submit second) → k < n

section

variable {events : List Event} {first second list : ListId} {source middle waiting : Queue}

theorem Reaches.append (reaches : Reaches events list source waiting) (more : List Event) :
    Reaches (events ++ more) list source waiting := by
  obtain ⟨m, i, k, submit, later, chain⟩ := reaches
  exact ⟨m, i, k, getElem?_append_of_some submit more, later, chain.append more⟩

theorem Reaches.mono {later : List Event} (reaches : Reaches events list source waiting)
    (longer : events <+: later) : Reaches later list source waiting := by
  obtain ⟨more, rfl⟩ := longer
  exact reaches.append more

theorem Reaches.sync (reaches : Reaches events list source middle) (fence : FenceId) :
    Reaches (events ++ [.sync middle waiting fence]) list source waiting := by
  obtain ⟨m, i, k, submit, later, chain⟩ := reaches
  exact ⟨m, i, events.length, getElem?_append_of_some submit _, later,
    (chain.append _).snoc chain.last_lt List.getElem?_concat_length⟩

theorem reaches_of_submit {m : Nat} (submit : events[m]? = some (.submit list)) (fence : FenceId) :
    Reaches (events ++ [.sync source waiting fence]) list source waiting :=
  ⟨m, events.length, events.length, getElem?_append_of_some submit _,
    (List.getElem?_eq_some_iff.mp submit).1, .one List.getElem?_concat_length⟩

theorem Reaches.before (reaches : Reaches events first source waiting)
    (unsubmitted : ∀ n : Nat, events[n]? ≠ some (Event.submit second)) :
    ReachesBefore events first source second waiting := by
  obtain ⟨m, i, k, submit, later, chain⟩ := reaches
  exact ⟨m, i, k, submit, later, chain, fun n held => absurd held (unsubmitted n)⟩

theorem ReachesBefore.reaches (before : ReachesBefore events first source second waiting) :
    Reaches events first source waiting := by
  obtain ⟨m, i, k, submit, later, chain, _⟩ := before
  exact ⟨m, i, k, submit, later, chain⟩

theorem ReachesBefore.append (before : ReachesBefore events first source second waiting)
    (more : List Event) : ReachesBefore (events ++ more) first source second waiting := by
  obtain ⟨m, i, k, submit, later, chain, bound⟩ := before
  refine ⟨m, i, k, getElem?_append_of_some submit more, later, chain.append more, ?_⟩
  intro n held
  by_cases old : n < events.length
  · rw [List.getElem?_append_left old] at held
    exact bound n held
  · exact Nat.lt_of_lt_of_le chain.last_lt (Nat.le_of_not_lt old)

theorem ReachesBefore.mono {later : List Event}
    (before : ReachesBefore events first source second waiting) (longer : events <+: later) :
    ReachesBefore later first source second waiting := by
  obtain ⟨more, rfl⟩ := longer
  exact before.append more

theorem ReachesBefore.trans (before : ReachesBefore events first source second middle)
    (next : Reaches events second middle waiting) : Reaches events first source waiting := by
  obtain ⟨m, i, k, submit, later, chain, bound⟩ := before
  obtain ⟨n, j, l, submitted, after, rest⟩ := next
  exact ⟨m, i, l, submit, later, chain.trans (Nat.lt_trans (bound n submitted) after) rest⟩

theorem ReachesBefore.comp {third : ListId}
    (before : ReachesBefore events first source second middle)
    (next : ReachesBefore events second middle third waiting) :
    ReachesBefore events first source third waiting := by
  obtain ⟨m, i, k, submit, later, chain, bound⟩ := before
  obtain ⟨n, j, l, submitted, after, rest, last⟩ := next
  exact ⟨m, i, l, submit, later, chain.trans (Nat.lt_trans (bound n submitted) after) rest, last⟩

theorem ReachesBefore.sooner {list : ListId} {m : Nat}
    (before : ReachesBefore events first source second waiting)
    (submit : events[m]? = some (.submit list))
    (sooner : ∀ n, events[n]? = some (.submit first) → m ≤ n) :
    ReachesBefore events list source second waiting := by
  obtain ⟨n, i, k, submitted, later, chain, bound⟩ := before
  exact ⟨m, i, k, submit, Nat.lt_of_le_of_lt (sooner n submitted) later, chain, bound⟩

theorem ReachesBefore.longer {list : ListId} {n : Nat}
    (before : ReachesBefore events first source second waiting)
    (submit : events[n]? = some (.submit second))
    (longer : ∀ l, events[l]? = some (.submit list) → n ≤ l) :
    ReachesBefore events first source list waiting := by
  obtain ⟨m, i, k, submitted, later, chain, bound⟩ := before
  exact ⟨m, i, k, submitted, later, chain,
    fun l last => Nat.lt_of_lt_of_le (bound n submit) (longer l last)⟩

end

end RenderGraph
