import RenderGraph.Proofs.ReleaseResult
import RenderGraph.Proofs.ReplaySteady

/-! The signals that the processor has not waited for yet. Each is the signal of a fence of the
present compilation, with a value that the fence has been given, so that draining leaves none. -/

namespace RenderGraph

/-- The signal has been given, and the processor has not waited for it since. -/
def Owed (traffic : List Traffic) (fence : FenceKey) (value : Nat) : Prop :=
  ∃ before queue after, traffic = before ++ .command (.signal queue fence value) :: after ∧
    ∀ reached, value ≤ reached → .command (.waitCpu fence reached) ∉ after

namespace Call

def IsSignal : Call → Prop
  | signal .. => True
  | _ => False

theorem not_isSignal_of_isUpkeep {c : Call} (upkeep : c.IsUpkeep) : ¬ c.IsSignal := by
  cases c <;> first | exact id | cases upkeep

theorem not_isSignal_of_isWait {c : Call} (wait : c.IsWait) : ¬ c.IsSignal := by
  cases c <;> first | exact id | cases wait

theorem not_isSignal_of_isQuiet {c : Call} (quiet : c.IsQuiet) : ¬ c.IsSignal := by
  cases c <;> first | exact id | cases quiet

theorem isSignal_of_logged {c : Call} {reply : c.Reply} {queue : Queue} {fence : FenceKey}
    {value : Nat} (logged : c.logged reply = .signal queue fence value) :
    c = .signal queue fence value := by
  cases c <;> cases logged
  rfl

end Call

section

variable {traffic more : List Traffic} {x : Traffic} {fence : FenceKey} {value : Nat}

theorem owed_concat (owed : Owed (traffic ++ [x]) fence value) :
    (Owed traffic fence value ∧ ∀ reached, value ≤ reached →
        x ≠ .command (.waitCpu fence reached)) ∨
      ∃ queue, x = .command (.signal queue fence value) := by
  obtain ⟨before, queue, after, cut, unsettled⟩ := owed
  rcases List.eq_nil_or_concat after with rfl | ⟨earlier, last, rfl⟩
  · exact Or.inr ⟨queue, (List.append_inj' cut rfl).2 |> List.singleton_inj.mp⟩
  · rw [List.concat_eq_append, ← List.cons_append, ← List.append_assoc] at cut
    obtain ⟨rfl, same⟩ := List.append_inj' cut rfl
    cases List.singleton_inj.mp same
    refine Or.inl ⟨⟨before, queue, earlier, rfl, ?_⟩, ?_⟩
    · intro reached le member
      exact unsettled reached le (by simp [member])
    · rintro reached le rfl
      exact unsettled reached le (by simp)

end

namespace Rig

variable {rig rig' : Rig} {fence : FenceKey} {value : Nat} {c : Call}

def Owes (rig : Rig) (fence : FenceKey) (value : Nat) : Prop :=
  Owed rig.traffic.toList fence value

theorem owes_of_push {x : Traffic} (pushed : rig'.traffic = rig.traffic.push x)
    (owes : rig'.Owes fence value) :
    (rig.Owes fence value ∧ ∀ reached, value ≤ reached → x ≠ .command (.waitCpu fence reached)) ∨
      ∃ queue, x = .command (.signal queue fence value) := by
  unfold Owes at owes
  rw [pushed, Array.toList_push] at owes
  exact owed_concat owes

theorem owes_of_call (owes : (rig.call c).2.Owes fence value) :
    rig.Owes fence value ∨ ∃ queue, c = .signal queue fence value := by
  rcases ran : rig.call c with ⟨failure | reply, after⟩
  · rw [ran] at owes
    rcases call_error ran with ⟨traffic | ⟨method, _, traffic⟩, _⟩
    · exact Or.inl (by rwa [Owes, traffic] at owes)
    · rcases owes_of_push traffic owes with ⟨old, _⟩ | ⟨queue, signal⟩
      · exact Or.inl old
      · cases signal
  · rw [ran] at owes
    obtain ⟨device, _, _, traffic⟩ := call_ok ran
    rcases owes_of_push traffic owes with ⟨old, _⟩ | ⟨queue, signal⟩
    · exact Or.inl old
    · exact Or.inr ⟨queue, Call.isSignal_of_logged (Traffic.command.inj signal)⟩

theorem Leads.owes {may : Call → Prop} (leads : rig.Leads may rig')
    (quiet : ∀ c, may c → ¬ c.IsSignal) (owes : rig'.Owes fence value) : rig.Owes fence value := by
  induction leads with
  | refl => exact owes
  | note _ _ _ ih => exact ih owes
  | recording _ recording ih =>
    rcases owes_of_push rfl owes with ⟨old, _⟩ | ⟨queue, signal⟩
    · exact ih old
    · cases signal
  | call _ c allowed ih =>
    rcases owes_of_call owes with old | ⟨queue, rfl⟩
    · exact ih old
    · exact absurd trivial (quiet _ allowed)

end Rig

namespace Player

/-- What is owed are signals of the player's fences, with values they have been given. -/
def Owns (p : Player) (rig : Rig) : Prop :=
  ∀ fence value, rig.Owes fence value →
    0 < value ∧ ∃ slot ∈ p.slots, slot.fence = fence ∧ value ≤ slot.value

variable {p p' : Player} {rig : Rig} {fence : Nat}

theorem Owns.mono (owns : p.Owns rig) (grows : ∀ slot ∈ p.slots, ∃ later ∈ p'.slots,
    later.fence = slot.fence ∧ slot.value ≤ later.value) : p'.Owns rig := by
  intro key value owes
  obtain ⟨positive, slot, member, same, le⟩ := owns key value owes
  obtain ⟨later, member', same', le'⟩ := grows slot member
  exact ⟨positive, later, member', same'.trans same, Nat.le_trans le le'⟩

theorem Owns.call (owns : p.Owns rig) {c : Call} (signals : ∀ queue key value,
    c = .signal queue key value → 0 < value ∧ ∃ slot ∈ p.slots, slot.fence = key ∧
      value ≤ slot.value) : p.Owns (rig.call c).2 := by
  intro key value owes
  rcases Rig.owes_of_call owes with old | ⟨queue, rfl⟩
  · exact owns key value old
  · exact signals queue key value rfl

theorem exists_later_slot (p : Player) (fence : Nat) {slot : FenceSlot} (member : slot ∈ p.slots) :
    ∃ later ∈ (p.raised fence).slots, later.fence = slot.fence ∧ slot.value ≤ later.value := by
  rcases List.mem_append.mp member with own | frame
  · obtain ⟨i, held⟩ := List.mem_iff_getElem?.mp own
    have later : (p.raised fence).fences[i]? = some (if fence = i then slot.raised else slot) := by
      rw [raised, List.getElem?_modify, held]
      split <;> rfl
    refine ⟨_, List.mem_append_left _ (List.mem_of_getElem? later), ?_⟩
    split
    · exact ⟨rfl, Nat.le_succ _⟩
    · exact ⟨rfl, Nat.le_refl _⟩
  · exact ⟨slot, List.mem_append_right _ frame, rfl, Nat.le_refl _⟩

theorem exists_later_frame (p : Player) {slot : FenceSlot} (member : slot ∈ p.slots) :
    ∃ later ∈ ({ p with frameFence := p.frameFence.raised } : Player).slots,
      later.fence = slot.fence ∧ slot.value ≤ later.value := by
  rcases List.mem_append.mp member with own | frame
  · exact ⟨slot, List.mem_append_left _ own, rfl, Nat.le_refl _⟩
  · rw [List.mem_singleton.mp frame]
    exact ⟨_, frameFence_mem_slots _, rfl, Nat.le_succ _⟩

theorem steady_owns : Steady Owns where
  quiet c quiet p rig owns := owns.call fun queue key value same => by
    subst same
    exact absurd quiet id
  recording p rig recording owns key value owes := by
    rcases Rig.owes_of_push rfl owes with ⟨old, _⟩ | ⟨queue, signal⟩
    · exact owns key value old
    · cases signal
  raised p rig fence owns := owns.mono fun _ => p.exists_later_slot fence
  signal p rig fence slot queue found owns := by
    have raised : (p.raised fence).Owns rig := owns.mono fun _ => p.exists_later_slot fence
    apply raised.call
    rintro _ _ _ ⟨⟩
    exact ⟨Nat.zero_lt_succ _, slot.raised, raised_mem_slots found, rfl, Nat.le_refl _⟩

theorem upholds_closeFrame (set : Nat) : (closeFrame set).Upholds Owns := by
  refine upholds_closeFrame_of set (fun p rig owns => ?_) fun _ _ => id
  have raised : ({ p with frameFence := p.frameFence.raised } : Player).Owns rig :=
    owns.mono fun _ => p.exists_later_frame
  apply raised.call
  rintro _ _ _ ⟨⟩
  exact ⟨Nat.zero_lt_succ _, _, frameFence_mem_slots _, rfl, Nat.le_refl _⟩

theorem upholds_play (s : Schedule) (scene : Scene) (frameIndex : Nat) :
    (play s scene frameIndex).Upholds Owns := steady_owns.play upholds_closeFrame s scene frameIndex

/-! Draining. -/

theorem run_drain_ok {p : Player} {σ : Type} {s s' : σ} {rig rig' : Rig}
    (ran : (p.drain : Op σ Unit).run s rig = (.ok (), s', rig')) {key : FenceKey} {value : Nat}
    (owes : rig'.Owes key value) : rig.Owes key value ∧
      ∀ slot ∈ p.slots, slot.fence = key → slot.value = 0 ∨ slot.value < value := by
  unfold drain at ran
  generalize p.slots = slots at ran ⊢
  induction slots generalizing s rig with
  | nil =>
    cases ran
    exact ⟨owes, fun slot member => by cases member⟩
  | cons slot slots ih =>
    obtain ⟨_, mid, rigMid, one, rest⟩ := Op.run_bind_ok.mp ran
    obtain ⟨owes', others⟩ := ih rest
    dsimp only at one
    split at one
    · obtain ⟨_, _, _, _, traffic⟩ := Op.run_call_ok one
      rcases Rig.owes_of_push traffic owes' with ⟨old, unsettled⟩ | ⟨queue, signal⟩
      · refine ⟨old, ?_⟩
        intro other member same
        rcases List.mem_cons.mp member with rfl | later
        · right
          apply Nat.lt_of_not_le
          intro le
          exact unsettled other.value le (by rw [← same]; rfl)
        · exact others other later same
      · cases signal
    · rename_i unused
      cases one
      refine ⟨owes', ?_⟩
      intro other member same
      rcases List.mem_cons.mp member with rfl | later
      · exact Or.inl (Nat.eq_zero_of_not_pos unused)
      · exact others other later same

theorem Owns.drained {p : Player} {σ : Type} {s s' : σ} {rig rig' : Rig} (owns : p.Owns rig)
    (ran : (p.drain : Op σ Unit).run s rig = (.ok (), s', rig')) (key : FenceKey) (value : Nat) :
    ¬ rig'.Owes key value := by
  intro owes
  obtain ⟨owes, others⟩ := run_drain_ok ran owes
  obtain ⟨positive, slot, member, same, le⟩ := owns key value owes
  rcases others slot member same with zero | less
  · exact Nat.not_lt_of_le le (zero ▸ positive)
  · exact Nat.not_lt_of_le le less

end Player

namespace Graph

def Owns (g : Graph) (rig : Rig) : Prop :=
  ∀ fence value, rig.Owes fence value → ∃ c, g.compilation = some c ∧
    0 < value ∧ ∃ slot ∈ c.player.slots, slot.fence = fence ∧ value ≤ slot.value

variable {g g' : Graph} {rig rig' : Rig}

theorem owns_of_settled (settled : ∀ fence value, ¬ rig.Owes fence value) : g.Owns rig :=
  fun fence value owes => absurd owes (settled fence value)

theorem Owns.congr (owns : g.Owns rig) (compilation : g'.compilation = g.compilation)
    (less : ∀ fence value, rig'.Owes fence value → rig.Owes fence value) : g'.Owns rig' := by
  intro fence value owes
  rw [compilation]
  exact owns fence value (less fence value owes)

theorem Owns.player {c : Compilation} (owns : g.Owns rig) (held : g.compilation = some c) :
    c.player.Owns rig := by
  intro fence value owes
  obtain ⟨c', held', rest⟩ := owns fence value owes
  cases held.symm.trans held'
  exact rest

theorem Owns.settled (owns : g.Owns rig) (none : g.compilation = none) (fence : FenceKey)
    (value : Nat) : ¬ rig.Owes fence value := by
  intro owes
  obtain ⟨c, held, _⟩ := owns fence value owes
  rw [none] at held
  cases held

theorem upholds_drain : drain.Upholds Owns := by
  intro g rig owns
  exact owns.congr (keeps_drain g rig) fun _ _ =>
    (makes_drain g rig).owes fun _ => Call.not_isSignal_of_isWait

theorem Owns.drained (owns : g.Owns rig) (ran : drain.run g rig = (.ok (), g', rig'))
    (fence : FenceKey) (value : Nat) : ¬ rig'.Owes fence value := by
  obtain ⟨_, _, _, reading, ran⟩ := Op.run_bind_ok.mp ran
  cases reading
  cases held : g.compilation with
  | none =>
    rw [held] at ran
    cases ran
    exact owns.settled held fence value
  | some c =>
    rw [held] at ran
    exact (owns.player held).drained ran fence value

theorem settled_of_upkeep {α : Type} {op : Op Graph α} (makes : op.Makes Call.IsUpkeep)
    (settled : ∀ fence value, ¬ rig.Owes fence value) (fence : FenceKey) (value : Nat) :
    ¬ (op.run g rig).2.2.Owes fence value :=
  fun owes => settled fence value
    ((makes g rig).owes (fun _ => Call.not_isSignal_of_isUpkeep) owes)

theorem settled_of_release (owns : g.Owns rig) (ran : release.run g rig = (.ok (), g', rig'))
    (fence : FenceKey) (value : Nat) : ¬ rig'.Owes fence value := by
  rw [release_eq] at ran
  obtain ⟨_, mid, rigMid, drained, given⟩ := Op.run_bind_ok.mp ran
  have settled := settled_of_upkeep (g := mid) makes_giveUp (owns.drained drained) fence value
  rwa [given] at settled

theorem upholds_release_owns {α : Type} {next : Op Graph α} (makes : next.Makes Call.IsUpkeep) :
    (release >>= fun _ => next).Upholds Owns :=
  upholds_of_release upholds_drain fun _ _ _ _ owns ran =>
    owns_of_settled (settled_of_upkeep makes (settled_of_release owns ran))

theorem upholds_compile : compile.Upholds Owns :=
  upholds_release_owns (makes_cull.bind fun _ => makes_build)

theorem upholds_setFrameCount (n : Nat) : (setFrameCount n).Upholds Owns :=
  upholds_release_owns (Op.makes_update _)

theorem upholds_reset : reset.Upholds Owns :=
  upholds_release_owns ((Op.makes_update _).bind fun _ => Op.makes_note _ _)

theorem upholds_execute : execute.Upholds Owns :=
  upholds_execute_of_play fun g rig c _ owns held fence value owes =>
    ⟨_, rfl, Player.upholds_play c.schedule g.scene g.frameIndex c.player rig (owns.player held)
      fence value owes⟩

end Graph

namespace Session

variable {s t : Session}

theorem owns_rebound (owns : s.graph.Owns s.rig) {r : ResourceId} {f : Copy → Copy} :
    (s.rebound (s.graph.rebind r f)).graph.Owns (s.rebound (s.graph.rebind r f)).rig := by
  obtain ⟨declaration, same⟩ := s.rebound_eq r f
  rw [same]
  exact owns

theorem Reachable.owns (reachable : s.Reachable) : s.graph.Owns s.rig := by
  induction reachable with
  | start config faults journal =>
    rintro fence value ⟨before, queue, after, cut, _⟩
    have empty : (Session.start config faults journal).rig.traffic.toList = [] := rfl
    rw [empty] at cut
    simp at cut
  | @act s reachable a owns =>
    cases a with
    | importResource | manage | declare | setFrameIndex | useData | clearData | plan
      | refuseResources => exact owns
    | update r native => exact owns_rebound owns
    | updateView r kind view => exact owns_rebound owns
    | setFrameCount n => exact Graph.upholds_setFrameCount n s.graph s.rig owns
    | compile => exact Graph.upholds_compile s.graph s.rig owns
    | execute => exact Graph.upholds_execute s.graph s.rig owns
    | drain => exact Graph.upholds_drain s.graph s.rig owns
    | reset => exact Graph.upholds_reset s.graph s.rig owns

/-- After draining, the processor has waited for every signal given so far. -/
theorem Does.settled (reachable : s.Reachable) (does : s.Does Graph.drain t) (fence : FenceKey)
    (value : Nat) : ¬ t.rig.Owes fence value :=
  reachable.owns.drained does fence value

end Session

end RenderGraph
