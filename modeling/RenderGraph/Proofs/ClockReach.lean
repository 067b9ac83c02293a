import RenderGraph.Proofs.DraftRun

/-! What the clocks of a draft know. If a chain of syncs leads from the list of a recorded pass to
another queue, the clock of that queue covers the pass. So the clocks cover exactly the passes that
syncs have put before what comes next. -/

namespace RenderGraph

namespace Event

def signal? : Event → Option Queue
  | sync signal _ _ => some signal
  | _ => none

end Event

section

variable {events more : List Event} {list : ListId} {source middle waiting w : Queue}
  {fence : FenceId} {i k : Nat}

theorem lt_of_sync_append (still : ∀ e ∈ more, e.signal? = none)
    (sync : (events ++ more)[k]? = some (.sync source waiting fence)) : k < events.length := by
  by_contra outside
  rw [List.getElem?_append_right (Nat.le_of_not_lt outside)] at sync
  cases still _ (List.mem_of_getElem? sync)

theorem SyncChain.of_lt (chain : SyncChain (events ++ more) source i waiting k)
    (inside : k < events.length) : SyncChain events source i waiting k := by
  induction chain with
  | one sync =>
    rw [List.getElem?_append_left inside] at sync
    exact .one sync
  | snoc _ later sync ih =>
    rw [List.getElem?_append_left inside] at sync
    exact .snoc (ih (Nat.lt_trans later inside)) later sync

theorem SyncChain.first_le (chain : SyncChain events source i waiting k) : i ≤ k := by
  induction chain with
  | one _ => exact Nat.le_refl _
  | snoc _ later _ ih => exact Nat.le_of_lt (Nat.lt_of_le_of_lt ih later)

theorem Reaches.of_chain {m : Nat} (submit : (events ++ more)[m]? = some (.submit list))
    (later : m < i) (chain : SyncChain events source i waiting k) :
    Reaches events list source waiting := by
  have inside : m < events.length :=
    Nat.lt_trans (Nat.lt_of_lt_of_le later chain.first_le) chain.last_lt
  rw [List.getElem?_append_left inside] at submit
  exact ⟨m, i, k, submit, later, chain⟩

theorem Reaches.of_append (reaches : Reaches (events ++ more) list source waiting)
    (still : ∀ e ∈ more, e.signal? = none) : Reaches events list source waiting := by
  obtain ⟨m, i, k, submit, later, chain⟩ := reaches
  obtain ⟨_, _, sync⟩ := chain.last_sync
  exact .of_chain submit later (chain.of_lt (lt_of_sync_append still sync))

theorem Reaches.of_sync (reaches : Reaches (events ++ [.sync middle waiting fence]) list source w) :
    Reaches events list source w ∨
      w = waiting ∧ (middle = source ∨ Reaches events list source middle) := by
  obtain ⟨m, i, k, submit, later, chain⟩ := reaches
  have last {signal next : Queue} {f : FenceId} (outside : ¬ k < events.length)
      (sync : (events ++ [.sync middle waiting fence])[k]? = some (.sync signal next f)) :
      middle = signal ∧ waiting = next := by
    rw [List.getElem?_append_right (Nat.le_of_not_lt outside)] at sync
    cases List.mem_singleton.mp (List.mem_of_getElem? sync)
    exact ⟨rfl, rfl⟩
  by_cases inside : k < events.length
  · exact Or.inl (.of_chain submit later (chain.of_lt inside))
  · cases chain with
    | one sync =>
      obtain ⟨same, rfl⟩ := last inside sync
      exact Or.inr ⟨rfl, Or.inl same⟩
    | @snoc _ _ _ j _ chain before sync =>
      have bound := (List.getElem?_eq_some_iff.mp sync).1
      rw [List.length_append, List.length_singleton] at bound
      obtain ⟨rfl, rfl⟩ := last inside sync
      exact Or.inr ⟨rfl, Or.inr (.of_chain submit later (chain.of_lt (by omega)))⟩

end

namespace Draft

variable {d d' : Draft} {log : List Entry} {source waiting w : Queue} {k : Nat} {e : Entry}

/-- The clock of a queue covers every recorded pass of another queue from whose list a chain of
syncs leads to it. -/
def Aware (d : Draft) (log : List Entry) : Prop :=
  ∀ (w : Queue) (k : Nat) (e : Entry), log[k]? = some e → e.pass.queue ≠ w →
    Reaches d.events e.list e.pass.queue w → d.Hears w e.pass.queue k

theorem aware_nil (d : Draft) : d.Aware [] := fun _ _ _ held => by cases held

theorem Aware.extend (aware : d.Aware log) {more : List Event} (clocks : d'.clocks = d.clocks)
    (events : d'.events = d.events ++ more) (still : ∀ e ∈ more, e.signal? = none) :
    d'.Aware log := by
  intro w k e held apart reaches
  rw [events] at reaches
  unfold Hears
  rw [clocks]
  exact aware w k e held apart (reaches.of_append still)

theorem Aware.sync (aware : d.Aware log) (timed : d.Timed log) (apart : source ≠ waiting) :
    (d.sync source waiting).Aware log := by
  intro w k e held other reaches
  obtain ⟨fence, events⟩ := d.events_sync source waiting
  rw [events] at reaches
  rcases reaches.of_sync with before | ⟨rfl, how⟩
  · have heard := aware w k e held other before
    by_cases same : w = waiting
    · subst same
      exact hears_sync_of_hears timed apart heard
    · exact (hears_sync_other same).mpr heard
  · by_cases own : e.pass.queue = source
    · rw [own]
      refine (hears_sync_source apart).mpr (Or.inl ?_)
      exact own ▸ timed.latest k e held
    · have reached := how.resolve_left (Ne.symm own)
      exact (hears_sync_third other own).mpr (Or.inr (aware source k e held own reached))

theorem Aware.concat (aware : d.Aware log)
    (unsubmitted : ∀ n : Nat, d.events[n]? ≠ some (Event.submit e.list)) :
    d.Aware (log ++ [e]) := by
  intro w k f held apart reaches
  rcases getElem?_concat_eq_some.mp held with old | ⟨_, rfl⟩
  · exact aware w k f old apart reaches
  · obtain ⟨m, _, _, submit, _⟩ := reaches
    exact absurd submit (unsubmitted m)

theorem exists_events_enter (d : Draft) (queue : Queue) :
    ∃ more, (d.enter queue).2.events = d.events ++ more ∧
      ∀ e ∈ more, e.isPlain = true ∧ e.signal? = none := by
  unfold Draft.enter
  dsimp only
  split
  · rename_i entered list _
    split
    · exact ⟨[], (List.append_nil _).symm, by simp⟩
    · exact ⟨[.submit list, .openList queue ⟨d.lists.length⟩],
        List.append_assoc d.events [.submit list] _, by simp [Event.isPlain, Event.signal?]⟩
  · exact ⟨[.openList queue ⟨d.lists.length⟩], rfl, by simp [Event.isPlain, Event.signal?]⟩

theorem Aware.enter (aware : d.Aware log) (queue : Queue) : (d.enter queue).2.Aware log := by
  obtain ⟨more, events, still⟩ := d.exists_events_enter queue
  exact aware.extend (keeps_enter clocks (fun _ _ _ _ => rfl) d queue) events
    fun e member => (still e member).2

end Draft

end RenderGraph
