import RenderGraph.Proofs.FrameWake

/-! When the processor knows that submitted work is finished. What is known to come after the work
only grows, and it stays with the queue of the work until that queue signals a fence. -/

namespace RenderGraph

/-- The processor has waited for a list that was submitted to the queue before the traffic. -/
def Finished (queue : Queue) (traffic : List Traffic) : Prop :=
  (Wake.observeAll { queues := [queue] } traffic).seen = true

instance (queue : Queue) (traffic : List Traffic) : Decidable (Finished queue traffic) :=
  inferInstanceAs (Decidable (_ = _))

/-- The queue signals some fence. -/
def Signals (queue : Queue) (traffic : List Traffic) : Prop :=
  ∃ fence value, .command (.signal queue fence value) ∈ traffic

namespace Wake

variable {w : Wake} {queue : Queue} {traffic : List Traffic} {fence : FenceKey} {value : Nat}

structure Grows (w later : Wake) : Prop where
  queues : ∀ queue ∈ w.queues, queue ∈ later.queues
  signals : ∀ signal ∈ w.signals, signal ∈ later.signals
  seen : w.seen = true → later.seen = true

theorem grows_observe (w : Wake) (sent : Command) : w.Grows (w.observe sent) := by
  cases sent with
  | signal queue fence value =>
    simp only [observe]
    split
    · exact ⟨fun _ => id, fun _ => List.mem_cons_of_mem _, id⟩
    · exact ⟨fun _ => id, fun _ => id, id⟩
  | wait queue fence value =>
    simp only [observe]
    split
    · exact ⟨fun _ => List.mem_cons_of_mem _, fun _ => id, id⟩
    · exact ⟨fun _ => id, fun _ => id, id⟩
  | waitCpu fence value =>
    simp only [observe]
    split
    · exact ⟨fun _ => id, fun _ => id, fun _ => rfl⟩
    · exact ⟨fun _ => id, fun _ => id, id⟩
  | _ => exact ⟨fun _ => id, fun _ => id, id⟩

theorem grows_observeAll (w : Wake) (traffic : List Traffic) : w.Grows (w.observeAll traffic) := by
  unfold observeAll
  induction traffic.filterMap Traffic.command? generalizing w with
  | nil => exact ⟨fun _ => id, fun _ => id, id⟩
  | cons sent rest ih =>
    have first := w.grows_observe sent
    have later := ih (w.observe sent)
    exact ⟨fun q member => later.queues q (first.queues q member),
      fun s member => later.signals s (first.signals s member),
      fun seen => later.seen (first.seen seen)⟩

theorem observeAll_command (w : Wake) (sent : Command) (traffic : List Traffic) :
    w.observeAll (.command sent :: traffic) = (w.observe sent).observeAll traffic := rfl

theorem mem_signals_of_signal (known : queue ∈ w.queues)
    (member : .command (.signal queue fence value) ∈ traffic) :
    (fence, value) ∈ (w.observeAll traffic).signals := by
  obtain ⟨before, after, rfl⟩ := List.append_of_mem member
  rw [observeAll_append, observeAll_command]
  apply (grows_observeAll _ after).signals
  simp only [observe, if_pos ((grows_observeAll w before).queues queue known)]
  exact List.mem_cons_self

theorem seen_of_waitCpu (known : (fence, value) ∈ w.signals) {reached : Nat}
    (le : value ≤ reached) (member : .command (.waitCpu fence reached) ∈ traffic) :
    (w.observeAll traffic).seen = true := by
  obtain ⟨before, after, rfl⟩ := List.append_of_mem member
  rw [observeAll_append, observeAll_command]
  apply (grows_observeAll _ after).seen
  have reaches : (w.observeAll before).reaches fence reached = true :=
    reaches_iff.mpr ⟨value, (grows_observeAll w before).signals _ known, le⟩
  simp only [observe, if_pos reaches]

theorem mem_queues_of_handOver (known : queue ∈ w.queues) (before after : List Traffic)
    (waiting : Queue) : waiting ∈ (w.observeAll (before ++ .command (.signal queue fence value) ::
      .command (.wait waiting fence value) :: after)).queues := by
  rw [observeAll_append, observeAll_command, observeAll_command]
  apply (grows_observeAll _ after).queues
  have signalled : (fence, value) ∈
      ((w.observeAll before).observe (.signal queue fence value)).signals := by
    simp only [observe, if_pos ((grows_observeAll w before).queues queue known)]
    exact List.mem_cons_self
  generalize (w.observeAll before).observe (.signal queue fence value) = now at signalled
  have reached : now.reaches fence value = true :=
    reaches_iff.mpr ⟨value, signalled, Nat.le_refl value⟩
  simp only [observe, if_pos reached]
  exact List.mem_cons_self

/-- What is known to come after the work has been signalled in the traffic, and the processor has
waited for a fence signalled there if it has waited at all. -/
structure Told (w : Wake) (traffic : List Traffic) : Prop where
  signals : ∀ fence value, (fence, value) ∈ w.signals →
    ∃ owner, .command (.signal owner fence value) ∈ traffic
  seen : w.seen = true → ∃ fence reached owner value,
    .command (.waitCpu fence reached) ∈ traffic ∧ .command (.signal owner fence value) ∈ traffic

theorem Told.concat (told : w.Told traffic) (x : Traffic) : w.Told (traffic ++ [x]) where
  signals fence value member :=
    (told.signals fence value member).imp fun _ => List.mem_append_left _
  seen seen := by
    obtain ⟨fence, reached, owner, value, wait, signal⟩ := told.seen seen
    exact ⟨fence, reached, owner, value, List.mem_append_left _ wait, List.mem_append_left _ signal⟩

theorem Told.observe (told : w.Told traffic) (sent : Command) :
    (w.observe sent).Told (traffic ++ [.command sent]) := by
  have old := told.concat (.command sent)
  have new : .command sent ∈ traffic ++ [.command sent] :=
    List.mem_append_right _ (List.mem_singleton_self _)
  cases sent with
  | signal owner fence value =>
    simp only [Wake.observe]
    split
    · refine ⟨fun fence' value' member => ?_, old.seen⟩
      rcases List.mem_cons.mp member with same | earlier
      · cases same
        exact ⟨owner, new⟩
      · exact old.signals fence' value' earlier
    · exact old
  | wait waiting fence value =>
    simp only [Wake.observe]
    split
    · exact ⟨old.signals, old.seen⟩
    · exact old
  | waitCpu fence reached =>
    simp only [Wake.observe]
    split
    · rename_i reaches
      refine ⟨old.signals, fun _ => ?_⟩
      obtain ⟨value, member, _⟩ := reaches_iff.mp reaches
      obtain ⟨owner, signal⟩ := old.signals fence value member
      exact ⟨fence, reached, owner, value, new, signal⟩
    · exact old
  | _ => exact old

theorem told_observeAll (queue : Queue) (traffic : List Traffic) :
    (Wake.observeAll { queues := [queue] } traffic).Told traffic := by
  induction traffic using List.reverseRecOn with
  | nil =>
    constructor
    · intro _ _ member
      cases member
    · intro seen
      cases seen
  | append_singleton traffic x ih =>
    rw [observeAll_append]
    cases x with
    | refused | recording => exact ih.concat _
    | command sent => exact ih.observe sent

theorem observeAll_of_silent (silent : ¬ Signals queue traffic) :
    Wake.observeAll { queues := [queue] } traffic = { queues := [queue] } := by
  induction traffic with
  | nil => rfl
  | cons x rest ih =>
    have later : ¬ Signals queue rest := by
      rintro ⟨fence, value, member⟩
      exact silent ⟨fence, value, List.mem_cons_of_mem _ member⟩
    cases x with
    | command sent =>
      rw [observeAll_command]
      have same : Wake.observe { queues := [queue] } sent = { queues := [queue] } := by
        cases sent with
        | signal other fence value =>
          have apart : other ∉ [queue] := by
            intro member
            rw [List.mem_singleton.mp member] at silent
            exact silent ⟨fence, value, List.mem_cons_self⟩
          exact if_neg apart
        | _ => rfl
      rw [same]
      exact ih later
    | refused | recording => exact ih later

end Wake

theorem Finished.signals {queue : Queue} {traffic : List Traffic}
    (finished : Finished queue traffic) : Signals queue traffic := by
  by_contra silent
  rw [Finished, Wake.observeAll_of_silent silent] at finished
  cases finished

theorem Finished.waits {queue : Queue} {traffic : List Traffic}
    (finished : Finished queue traffic) :
    ∃ fence reached owner value, .command (.waitCpu fence reached) ∈ traffic ∧
      .command (.signal owner fence value) ∈ traffic :=
  (Wake.told_observeAll queue traffic).seen finished

end RenderGraph
