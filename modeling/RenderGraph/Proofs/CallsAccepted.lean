import RenderGraph.Proofs.DeviceTables
import RenderGraph.Proofs.ReplaySteady

/-! Operations that fail only if a call is made to fail, or for reasons that can be told. The device
accepts a call if its tables leave it no reason to turn it down, and then the call goes through
unless a fault is due for it. -/

namespace RenderGraph

def Failure.IsCall : Failure → Prop
  | device _ | misuse .sizeOverflow => True
  | _ => False

def Traffic.isRefusal : Traffic → Bool
  | refused _ => true
  | _ => false

namespace Rig

/-- How many calls have been made to fail. -/
def refusals (rig : Rig) : Nat := rig.traffic.toList.countP Traffic.isRefusal

/-- From one rig to the other a call has been made to fail, which is the failure. -/
structure Refused (before after : Rig) (failure : Failure) : Prop where
  refusals : before.refusals < after.refusals
  device : ∃ error, failure = .device error

/-- The device has no reason of its own to turn the call down. -/
def Accepts (rig : Rig) (c : Call) : Prop := ∃ reply, (rig.forward c).1 = .ok reply

/-- The device has a reason of its own to turn the call down, or panics at it. -/
def Denies (rig : Rig) (c : Call) (failure : Failure) : Prop := (rig.forward c).1 = .error failure

variable {rig after : Rig} {c : Call} {failure : Failure}

theorem refusals_push {x : Traffic} (pushed : after.traffic = rig.traffic.push x) :
    after.refusals = rig.refusals + if x.isRefusal then 1 else 0 := by
  unfold refusals
  rw [pushed, Array.toList_push, List.countP_append, List.countP_singleton]

theorem refusals_record (rig : Rig) (x : Traffic) :
    (rig.record x).refusals = rig.refusals + if x.isRefusal then 1 else 0 := refusals_push rfl

theorem refusals_le_record (rig : Rig) (x : Traffic) : rig.refusals ≤ (rig.record x).refusals :=
  rig.refusals_record x ▸ Nat.le_add_right _ _

theorem refusals_le_call (rig : Rig) (c : Call) : rig.refusals ≤ (rig.call c).2.refusals := by
  rcases ran : rig.call c with ⟨failure | reply, after⟩
  · rcases (call_error ran).1 with same | ⟨method, _, pushed⟩
    · exact Nat.le_of_eq (by rw [refusals, refusals, same])
    · exact (refusals_push pushed).symm ▸ Nat.le_add_right _ _
  · obtain ⟨_, _, _, pushed⟩ := call_ok ran
    exact (refusals_push pushed).symm ▸ Nat.le_add_right _ _

theorem forward_faults (rig : Rig) (faults : List Fault) (c : Call) :
    ({ rig with faults } : Rig).forward c =
      ((rig.forward c).1, { (rig.forward c).2 with faults }) := by
  unfold forward
  by_cases overflow : rig.overflows c = true
  · rw [if_pos overflow]
    exact if_pos overflow
  · rw [if_neg overflow]
    refine (if_neg overflow).trans ?_
    cases rig.device.respond c with
    | ok answer => rfl
    | error refusal => cases c <;> rfl

theorem Leads.refusals_le {may : Call → Prop} (leads : rig.Leads may after) :
    rig.refusals ≤ after.refusals := by
  induction leads with
  | refl => exact Nat.le_refl _
  | note _ _ _ ih => exact ih
  | recording _ recording ih => exact Nat.le_trans ih (refusals_le_record _ _)
  | call _ c _ ih => exact Nat.le_trans ih (refusals_le_call _ c)

theorem Refused.of_le {mid : Rig} (refused : mid.Refused after failure)
    (le : rig.refusals ≤ mid.refusals) : rig.Refused after failure :=
  ⟨Nat.lt_of_le_of_lt le refused.refusals, refused.device⟩

theorem Refused.trans_le {mid : Rig} (refused : rig.Refused mid failure)
    (le : mid.refusals ≤ after.refusals) : rig.Refused after failure :=
  ⟨Nat.lt_of_lt_of_le refused.refusals le, refused.device⟩

theorem Accepts.not_denies (accepts : rig.Accepts c) (failure : Failure) :
    ¬ rig.Denies c failure := by
  obtain ⟨reply, accepted⟩ := accepts
  intro denied
  cases accepted.symm.trans denied

theorem Denies.isCall (denies : rig.Denies c failure) : failure.IsCall := by
  unfold Denies forward at denies
  split at denies
  · cases denies
    trivial
  · split at denies
    · cases denies
    · cases denies
      trivial

theorem Refused.isCall (refused : rig.Refused after failure) : failure.IsCall := by
  obtain ⟨error, rfl⟩ := refused.device
  trivial

theorem denied_or_refused (ran : rig.call c = (.error failure, after)) :
    rig.Denies c failure ∨ rig.Refused after failure := by
  unfold call at ran
  split at ran
  · exact Or.inl (congrArg Prod.fst ran)
  · split at ran
    · rename_i error faults _
      cases ran
      refine Or.inr ⟨?_, error, rfl⟩
      rw [refusals_record]
      exact Nat.lt_succ_self _
    · rw [forward_faults] at ran
      exact Or.inl (Prod.mk.inj ran).1

theorem refused_of_accepts (accepts : rig.Accepts c)
    (ran : rig.call c = (.error failure, after)) : rig.Refused after failure :=
  (denied_or_refused ran).resolve_left (accepts.not_denies failure)

theorem traffic_of_refused (accepts : rig.Accepts c)
    (ran : rig.call c = (.error failure, after)) :
    ∃ method, c.method? = some method ∧
      after.traffic.toList = rig.traffic.toList ++ [.refused method] := by
  have more := (refused_of_accepts accepts ran).refusals
  rcases (call_error ran).1 with same | ⟨method, known, pushed⟩
  · rw [refusals, refusals, same] at more
    exact absurd more (Nat.lt_irrefl _)
  · exact ⟨method, known, by rw [pushed, Array.toList_push]⟩

/-! The calls of a replay. -/

theorem accepts_resetList {list : ListKey} {queue : Queue}
    (known : rig.device.queueOf? list = some queue) : rig.Accepts (.resetList list) := by
  have owner : rig.device.ownerOf list = .ok queue := by
    rw [Device.ownerOf, ← Device.queueOf?, known]
  simp [Accepts, forward, overflows, Device.respond, owner, bind, Except.bind]

theorem accepts_submit {list : ListKey} {queue : Queue}
    (known : rig.device.queueOf? list = some queue) : rig.Accepts (.submit queue list) := by
  have owner : rig.device.ownerOf list = .ok queue := by
    rw [Device.ownerOf, ← Device.queueOf?, known]
  simp [Accepts, forward, overflows, Device.respond, owner, bind, Except.bind]

theorem accepts_barrier (rig : Rig) (list : ListKey) (barriers : List DeviceBarrier) :
    rig.Accepts (.barrier list barriers) := ⟨(), rfl⟩

variable {queue : Queue} {fence : FenceKey} {value reached : Nat}

theorem accepts_signal (known : rig.device.fenceValue? fence = some reached)
    (fresh : reached < value) : rig.Accepts (.signal queue fence value) := by
  simp [Accepts, forward, overflows, Device.respond, known, Nat.not_le_of_lt fresh]

theorem accepts_wait (known : rig.device.fenceValue? fence = some reached) :
    rig.Accepts (.wait queue fence value) := by
  simp [Accepts, forward, overflows, Device.respond, known]

theorem accepts_waitCpu (known : rig.device.fenceValue? fence = some reached)
    (signalled : value ≤ reached) : rig.Accepts (.waitCpu fence value) := by
  simp [Accepts, forward, overflows, Device.respond, known, signalled]

end Rig

theorem Player.lasting_refusals (n : Nat) : Lasting fun rig => n ≤ rig.refusals where
  call rig c le := Nat.le_trans le (rig.refusals_le_call c)
  recording rig _ le := Nat.le_trans le (rig.refusals_le_record _)

namespace Op

variable {σ α β : Type} {own : Failure → Prop} {s : σ} {rig : Rig}

/-- If the operation fails, it is for one of its own reasons or because a call is made to fail. -/
def Fares (op : Op σ α) (own : Failure → Prop) (s : σ) (rig : Rig) : Prop :=
  ∀ failure s' rig', op.run s rig = (.error failure, s', rig') →
    own failure ∨ rig.Refused rig' failure

theorem Fares.mono {op : Op σ α} {more : Failure → Prop} (fares : op.Fares own s rig)
    (reasons : ∀ failure, own failure → more failure) : op.Fares more s rig :=
  fun failure s' rig' ran => (fares failure s' rig' ran).imp_left (reasons failure)

theorem fares_of_ok {op : Op σ α} (ok : ∃ a, (op.run s rig).1 = .ok a) : op.Fares own s rig := by
  intro failure s' rig' ran
  obtain ⟨a, ok⟩ := ok
  rw [ran] at ok
  cases ok

theorem fares_of_call (c : Call) (s : σ) (rig : Rig) :
    (call c : Op σ c.Reply).Fares (rig.Denies c) s rig := by
  intro failure s' rig' ran
  rw [run_call] at ran
  obtain ⟨failed, rest⟩ := Prod.mk.inj ran
  obtain ⟨_, rfl⟩ := Prod.mk.inj rest
  exact Rig.denied_or_refused (Prod.ext failed rfl)

theorem fares_call {c : Call} (accepts : rig.Accepts c) :
    (call c : Op σ c.Reply).Fares own s rig :=
  (fares_of_call c s rig).mono fun failure denied => absurd denied (accepts.not_denies failure)

theorem Fares.bind {op : Op σ α} {next : α → Op σ β} (first : op.Fares own s rig)
    (rest : ∀ a mid rigMid, op.run s rig = (.ok a, mid, rigMid) →
      rig.refusals ≤ rigMid.refusals ∧ (next a).Fares own mid rigMid) :
    (op >>= next).Fares own s rig := by
  intro failure s' rig' ran
  rcases run_bind_error.mp ran with failed | ⟨a, mid, rigMid, ok, failed⟩
  · exact first failure s' rig' failed
  · obtain ⟨le, fares⟩ := rest a mid rigMid ok
    exact (fares failure s' rig' failed).imp_right (·.of_le le)

theorem Fares.of_run {op : Op σ α} {next : α → Op σ β} {a : α}
    (ran : op.run s rig = (.ok a, s, rig)) (rest : (next a).Fares own s rig) :
    (op >>= next).Fares own s rig := by
  intro failure s' rig' failed
  rw [run_bind, ran] at failed
  exact rest failure s' rig' failed

theorem Fares.after_call {c : Call} {next : c.Reply → Op σ β}
    (fares : (call c : Op σ c.Reply).Fares own s rig)
    (rest : ∀ reply after, rig.call c = (.ok reply, after) → (next reply).Fares own s after) :
    (call c >>= next).Fares own s rig := by
  refine fares.bind fun reply mid after ran => ?_
  obtain ⟨replied, left⟩ := Prod.mk.inj ran
  obtain ⟨rfl, rfl⟩ := Prod.mk.inj left
  exact ⟨rig.refusals_le_call c, rest reply _ (Prod.ext replied rfl)⟩

theorem Fares.after_update {f : σ → σ} {next : Unit → Op σ β}
    (rest : (next ()).Fares own (f s) rig) : (update f >>= next).Fares own s rig := by
  intro failure s' rig' failed
  rw [run_bind] at failed
  exact rest failure s' rig' failed

theorem Fares.seq {op : Op σ α} {next : α → Op σ β} {may : Call → Prop}
    (first : op.Fares own s rig) (makes : op.Makes may)
    (rest : ∀ a mid rigMid, op.run s rig = (.ok a, mid, rigMid) → rig.Leads may rigMid →
      (next a).Fares own mid rigMid) : (op >>= next).Fares own s rig := by
  refine first.bind fun a mid rigMid ran => ?_
  have leads := makes s rig
  rw [ran] at leads
  exact ⟨leads.refusals_le, rest a mid rigMid ran leads⟩

theorem fares_forM {I : σ → Rig → Prop} {xs : List α} {f : α → Op σ Unit}
    (upholds : ∀ x, (f x).Upholds I)
    (counts : ∀ x n, (f x).Upholds fun _ rig => n ≤ rig.refusals)
    (each : ∀ x ∈ xs, ∀ s rig, I s rig → (f x).Fares own s rig) (holds : I s rig) :
    (xs.forM f).Fares own s rig := by
  induction xs generalizing s rig with
  | nil => exact fares_of_ok ⟨(), rfl⟩
  | cons x xs ih =>
    refine (each x List.mem_cons_self s rig holds).bind fun _ mid rigMid ran => ⟨?_, ?_⟩
    · exact (counts x _).of_run ran (Nat.le_refl _)
    · exact ih (fun y member => each y (List.mem_cons_of_mem _ member))
        ((upholds x).of_run ran holds)

theorem fares_forM_of_makes {may : Call → Prop} {xs : List α} {f : α → Op σ Unit}
    (makes : ∀ x, (f x).Makes may)
    (each : ∀ x ∈ xs, ∀ s mid, rig.Leads may mid → (f x).Fares own s mid) :
    (xs.forM f).Fares own s rig :=
  fares_forM (I := fun _ mid => rig.Leads may mid)
    (fun x s mid leads => leads.trans (makes x s mid))
    (fun x _ s mid le => Nat.le_trans le (makes x s mid).refusals_le) each .refl

theorem run_entry {entries : List α} {index : Nat} {a : α} (found : entries[index]? = some a) :
    (entry entries index : Op σ α).run s rig = (.ok a, s, rig) :=
  run_entry_ok.mpr ⟨found, rfl, rfl⟩

theorem run_allow {a : α} : (allow (.ok a) : Op σ α).run s rig = (.ok a, s, rig) := rfl

theorem exists_run_mapM {xs : List α} {f : α → Op σ β}
    (each : ∀ x ∈ xs, ∃ y, (f x).run s rig = (.ok y, s, rig)) :
    ∃ ys, (xs.mapM f).run s rig = (.ok ys, s, rig) := by
  induction xs with
  | nil => exact ⟨[], rfl⟩
  | cons x xs ih =>
    obtain ⟨y, first⟩ := each x List.mem_cons_self
    obtain ⟨ys, rest⟩ := ih fun z member => each z (List.mem_cons_of_mem _ member)
    refine ⟨y :: ys, ?_⟩
    rw [List.mapM_cons, run_bind, first]
    dsimp only
    rw [run_bind, rest]
    rfl

theorem fares_mapM_allow {xs : List α} {f : α → Except Misuse β}
    (mine : ∀ x ∈ xs, ∀ misuse, f x = .error misuse → own (.misuse misuse)) :
    (xs.mapM fun x => allow (f x) : Op σ (List β)).Fares own s rig := by
  induction xs with
  | nil => exact fares_of_ok ⟨[], rfl⟩
  | cons x xs ih =>
    rw [List.mapM_cons]
    cases found : f x with
    | error misuse =>
      intro failure s' rig' failed
      cases failed
      exact Or.inl (mine x List.mem_cons_self misuse found)
    | ok y =>
      refine Fares.of_run run_allow ?_
      refine (ih fun z member => mine z (List.mem_cons_of_mem _ member)).bind fun ys _ _ ran => ?_
      obtain ⟨_, rfl, rfl⟩ := run_mapM_ok (R := fun x y => f x = .ok y)
        (fun ran => run_allow_ok.mp ran) ran
      exact ⟨Nat.le_refl _, fares_of_ok ⟨y :: ys, rfl⟩⟩

end Op

end RenderGraph
