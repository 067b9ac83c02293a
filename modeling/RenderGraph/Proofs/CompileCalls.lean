import RenderGraph.Proofs.CallsAccepted
import RenderGraph.Proofs.ReleaseResult

/-! The calls that compiling can fail with. The device may never reach a value that is waited for,
and it may refuse a resource. It accepts everything else that compiling asks for. -/

namespace RenderGraph

namespace Rig

variable {may : Call → Prop} {rig after : Rig} {c : Call} {failure : Failure}
  {request : ResourceRequest} {fence : FenceKey} {value : Nat} {resource : ResourceKey}
  {kind : ViewKind} {spec : ViewSpec}

theorem accepts_createList (rig : Rig) (queue : Queue) : rig.Accepts (.createList queue) :=
  ⟨_, rfl⟩

theorem accepts_createFence (rig : Rig) : rig.Accepts .createFence := ⟨_, rfl⟩

theorem accepts_createView (alive : resource ∈ rig.device.resources) :
    rig.Accepts (.createView resource kind spec) := by
  simp [Accepts, forward, overflows, Device.respond, alive]

theorem mem_resources_of_createResource {native : ResourceKey}
    (ran : rig.call (.createResource request) = (.ok native, after)) :
    native ∈ after.device.resources := by
  obtain ⟨device, answered, recorded, _⟩ := call_ok ran
  simp only [Device.respond] at answered
  split at answered <;> cases answered
  rw [recorded]
  exact List.mem_append_right _ List.mem_cons_self

theorem resources_of_createView (rig : Rig) (resource : ResourceKey) (kind : ViewKind)
    (spec : ViewSpec) :
    (rig.call (.createView resource kind spec)).2.device.resources = rig.device.resources := by
  rcases ran : rig.call (.createView resource kind spec) with ⟨failure | view, after⟩
  · rcases (call_error ran).2 with same | skipped
    · rw [same]
    · rw [skipped]
      rfl
  · obtain ⟨device, answered, recorded, _⟩ := call_ok ran
    simp only [Device.respond] at answered
    split at answered <;> cases answered
    rw [recorded]
    rfl

theorem forward_terms (rig : Rig) (c : Call) :
    (rig.forward c).2.device.refusesResources = rig.device.refusesResources ∧
      (rig.forward c).2.journal.threshold = rig.journal.threshold := by
  unfold forward
  split
  · exact ⟨rfl, rfl⟩
  · split
    · rename_i answered
      exact ⟨(Device.kept_of_respond answered).2, Journal.threshold_write ..⟩
    · cases c with
      | createResource => exact ⟨rfl, Journal.threshold_write ..⟩
      | _ => exact ⟨rfl, rfl⟩

theorem call_terms (rig : Rig) (c : Call) :
    (rig.call c).2.device.refusesResources = rig.device.refusesResources ∧
      (rig.call c).2.journal.threshold = rig.journal.threshold := by
  unfold call
  split
  · exact rig.forward_terms c
  · split
    · exact ⟨rfl, rfl⟩
    · rename_i faults _
      exact ({ rig with faults } : Rig).forward_terms c

theorem Leads.terms (leads : rig.Leads may after) :
    after.device.refusesResources = rig.device.refusesResources ∧
      after.journal.threshold = rig.journal.threshold := by
  induction leads with
  | refl => exact ⟨rfl, rfl⟩
  | note _ _ keeps ih => exact ⟨ih.1, keeps.trans ih.2⟩
  | recording _ _ ih => exact ih
  | @call mid _ c _ ih =>
    obtain ⟨refuses, threshold⟩ := mid.call_terms c
    exact ⟨refuses.trans ih.1, threshold.trans ih.2⟩

theorem Leads.denies_createResource (leads : rig.Leads may after)
    (denies : after.Denies (.createResource request) failure) :
    rig.Denies (.createResource request) failure := by
  obtain ⟨refuses, threshold⟩ := leads.terms
  have overflows : after.overflows (.createResource request) =
      rig.overflows (.createResource request) := by
    simp only [Rig.overflows, Journal.keeps, refuses, threshold]
  unfold Denies forward at denies ⊢
  rw [overflows] at denies
  by_cases wraps : rig.overflows (.createResource request) = true
  · rwa [if_pos wraps] at denies ⊢
  · rw [if_neg wraps] at denies ⊢
    simp only [Device.respond, refuses] at denies ⊢
    by_cases full : rig.device.refusesResources = true
    · rwa [if_pos full] at denies ⊢
    · rw [if_neg full] at denies
      cases denies

theorem Denies.of_fences (denies : after.Denies (.waitCpu fence value) failure)
    (same : after.device.fences = rig.device.fences) :
    rig.Denies (.waitCpu fence value) failure := by
  have reached : after.device.fenceValue? fence = rig.device.fenceValue? fence :=
    congrArg (List.lookup fence) same
  simp only [Denies, forward, overflows, Device.respond, reached] at denies ⊢
  cases known : rig.device.fenceValue? fence with
  | none =>
    rw [known] at denies
    exact denies
  | some current =>
    rw [known] at denies
    dsimp only at denies ⊢
    by_cases le : value ≤ current
    · rw [if_pos le] at denies
      cases denies
    · rw [if_neg le] at denies ⊢
      exact denies

end Rig

namespace Op

variable {σ τ α β : Type} {may : Call → Prop} {own : Failure → Prop} {s : σ} {rig : Rig}
  {failure : Failure}

theorem Succeeds.fares {op : Op σ α} (succeeds : op.Succeeds) (s : σ) (rig : Rig) :
    op.Fares own s rig := fares_of_ok (succeeds s rig)

theorem fares_fail (mine : own failure) : (fail failure : Op σ α).Fares own s rig := by
  intro failure s' rig' failed
  cases failed
  exact Or.inl mine

theorem Fares.within {op : Op τ α} {part : σ → τ} (fares : op.Fares own (part s) rig)
    (put : τ → σ → σ) : (within part put op).Fares own s rig := by
  intro failure s' rig' failed
  rw [run_within] at failed
  obtain ⟨result, rest⟩ := Prod.mk.inj failed
  obtain ⟨_, rfl⟩ := Prod.mk.inj rest
  exact fares failure _ _ (Prod.ext result rfl)

/-- Whatever it gives up on the way, the operation ends in the failure. -/
structure Rethrows (op : Op σ α) (failure : Failure) : Prop where
  makes : op.Makes Call.IsUpkeep
  fails : ∀ s rig, (op.run s rig).1 = .error failure

theorem rethrows_fail (failure : Failure) : (fail failure : Op σ α).Rethrows failure :=
  ⟨makes_fail failure, fun _ _ => rfl⟩

theorem Succeeds.rethrows {op : Op σ α} {next : α → Op σ β} (succeeds : op.Succeeds)
    (makes : op.Makes Call.IsUpkeep) (rest : ∀ a, (next a).Rethrows failure) :
    (op >>= next).Rethrows failure where
  makes := makes.bind fun a => (rest a).makes
  fails s rig := by
    obtain ⟨a, ok⟩ := succeeds s rig
    rw [run_bind]
    rcases ran : op.run s rig with ⟨result, mid, rigMid⟩
    rw [ran] at ok
    cases ok
    exact (rest a).fails mid rigMid

/-- An operation that hands a failure on fares like the one that it comes from. -/
theorem Fares.aside_bind {op : Op τ α} {t : τ} {next : Except Failure α × τ → Op σ β}
    (first : op.Fares own t rig) (makes : op.Makes may)
    (ok : ∀ a left mid, rig.Leads may mid → (next (.ok a, left)).Fares own s mid)
    (error : ∀ failure left, (next (.error failure, left)).Rethrows failure) :
    (aside op t >>= next).Fares own s rig := by
  intro failure s' rig' failed
  have leads := makes t rig
  rw [run_bind, run_aside] at failed
  rcases ran : op.run t rig with ⟨cause | a, left, mid⟩
  · rw [ran] at failed leads
    dsimp only at failed
    -- The handler gives things up without fail and hands on the failure that it is given.
    have handled := error cause left
    have after := (handled.makes s mid).refusals_le
    have same := handled.fails s mid
    rw [failed] at after same
    cases same
    exact (first failure left mid ran).imp_right (·.trans_le after)
  · rw [ran] at failed leads
    exact (ok a left mid leads failure s' rig' failed).imp_right (·.of_le leads.refusals_le)

end Op

namespace Order

variable {may : Call → Prop} {o : Order} {base rig : Rig}

theorem fares_addView {own : Failure → Prop} {native : ResourceKey}
    (alive : native ∈ rig.device.resources) (kind : ViewKind) (spec : ViewSpec)
    (copies : List Copy) : (addView native kind spec).Fares own copies rig :=
  (Op.fares_call (Rig.accepts_createView alive)).after_call fun _ _ _ =>
    (Op.succeeds_update _).fares _ _

theorem upholds_addView (native alive : ResourceKey) (kind : ViewKind) (spec : ViewSpec) :
    (addView native kind spec).Upholds fun _ rig => alive ∈ rig.device.resources := by
  intro copies rig member
  have kept := rig.resources_of_createView native kind spec
  rw [addView, Op.run_bind, Op.run_call]
  rcases ran : rig.call (.createView native kind spec) with ⟨failure | view, after⟩
  all_goals
    rw [ran] at kept
    exact kept ▸ member

theorem fares_views {own : Failure → Prop} {native : ResourceKey}
    (alive : native ∈ rig.device.resources) (views : List (ViewKind × ViewSpec))
    (copies : List Copy) :
    (views.forM fun (kind, spec) => addView native kind spec).Fares own copies rig :=
  -- The views before leave the resource in place.
  Op.fares_forM (fun view => upholds_addView native native view.1 view.2)
    (fun view _ copies rig le =>
      Nat.le_trans le (makes_addView native view.1 view.2 copies rig).refusals_le)
    (fun view _ copies _ alive => fares_addView alive view.1 view.2 copies) alive

theorem fares_addCopy (leads : base.Leads may rig) (copies : List Copy) :
    o.addCopy.Fares (base.Denies (.createResource o.request)) copies rig := by
  have creates := (Op.fares_of_call (.createResource o.request) copies rig).mono fun _ =>
    leads.denies_createResource
  refine creates.after_call fun native mid created => .after_update ?_
  exact fares_views (Rig.mem_resources_of_createResource created) o.views _

theorem fares_addCopies (leads : base.Leads may rig) (n : Nat) (copies : List Copy) :
    (o.addCopies n).Fares (base.Denies (.createResource o.request)) copies rig := by
  induction n generalizing rig copies may with
  | zero => exact (Op.succeeds_pure ()).fares _ _
  | succ n ih =>
    refine (fares_addCopy leads copies).seq o.makes_addCopy fun _ mid rigMid _ on => ?_
    -- Which calls have been made no longer matters.
    have leads' : base.Leads (fun _ => True) rigMid :=
      (leads.mono fun _ _ => trivial).trans (on.mono fun _ _ => trivial)
    exact ih leads' mid

end Order

namespace Residency

variable {may : Call → Prop} {o : Order} {orders : List Order} {base rig : Rig}

theorem rethrows_giveBack (copies : List Copy) (failure : Failure) :
    (giveBack copies failure).Rethrows failure := by
  apply (Op.succeeds_releaseCopies copies).rethrows (Op.makes_releaseCopies copies)
  intro _
  exact succeeds_releaseAll.rethrows makes_releaseAll fun _ => Op.rethrows_fail failure

theorem fares_place (leads : base.Leads may rig) (held : Residency) :
    (place o).Fares (base.Denies (.createResource o.request)) held rig := by
  refine (o.fares_addCopies leads o.count []).aside_bind (o.makes_addCopies o.count)
    (fun _ _ mid _ => (Op.succeeds_update _).fares held mid) fun failure copies => ?_
  cases failure with
  | device error =>
    exact (Op.succeeds_note _ _).rethrows (Op.makes_note _ _) fun _ => rethrows_giveBack copies _
  | allPassesCulled | readBeforeCreate | unbound | notCompiled | misuse =>
    exact (Op.succeeds_update _).rethrows (Op.makes_update _) fun _ => Op.rethrows_fail _

theorem fares_placeAll (orders : List Order) (held : Residency) (rig : Rig) :
    (placeAll orders).Fares
      (fun failure => ∃ o ∈ orders, rig.Denies (.createResource o.request) failure) held rig := by
  have places : (orders.forM place).Fares
      (fun failure => ∃ o ∈ orders, rig.Denies (.createResource o.request) failure) held rig :=
    Op.fares_forM_of_makes makes_place fun o member held _ leads =>
      (fares_place leads held).mono fun _ denied => ⟨o, member, denied⟩
  exact places.seq (Op.makes_forM orders makes_place) fun _ _ _ _ _ =>
    (Op.succeeds_note _ _).fares _ _

end Residency

namespace Player

variable {σ : Type} {own : Failure → Prop} {s : σ} {rig : Rig}

theorem fares_fill (schedule : Schedule) (count : Nat) (kit : Kit) (rig : Rig) :
    (Kit.fill schedule count).Fares own kit rig := by
  have list (queue : Queue) (kit : Kit) (rig : Rig) : (Kit.addList queue).Fares own kit rig :=
    (Op.fares_call (rig.accepts_createList queue)).after_call fun _ _ _ =>
      (Op.succeeds_update _).fares _ _
  have fence (queue : Queue) (kit : Kit) (rig : Rig) : (Kit.addFence queue).Fares own kit rig :=
    (Op.fares_call rig.accepts_createFence).after_call fun _ _ _ =>
      (Op.succeeds_update _).fares _ _
  refine (Op.fares_forM_of_makes Kit.makes_addList fun queue _ kit rig _ => list queue kit rig).seq
    (Op.makes_forM _ Kit.makes_addList) fun _ mid rigMid _ _ => ?_
  exact (Op.fares_forM_of_makes Kit.makes_addFence fun queue _ kit rig _ => fence queue kit rig).seq
    (Op.makes_forM _ Kit.makes_addFence) fun _ _ rig _ _ => Op.fares_call rig.accepts_createFence

theorem fares_make (schedule : Schedule) (frameCount : Nat) (s : σ) (rig : Rig) :
    (make schedule frameCount : Op σ Player).Fares own s rig := by
  refine (fares_fill schedule (max frameCount 1) {} rig).aside_bind (Kit.makes_fill _ _)
    (fun _ _ mid _ => (Op.succeeds_pure _).fares s mid) fun failure kit => ?_
  apply (Op.succeeds_destroyLists kit.lists).rethrows (Op.makes_destroyLists kit.lists)
  intro _
  exact (Op.succeeds_destroyFences kit.fences).rethrows (Op.makes_destroyFences kit.fences)
    fun _ => Op.rethrows_fail failure

theorem fares_drain (p : Player) (s : σ) (rig : Rig) : (p.drain : Op σ Unit).Fares
    (fun failure => ∃ slot ∈ p.slots, 0 < slot.value ∧
      rig.Denies (.waitCpu slot.fence slot.value) failure) s rig := by
  have waits (slot : FenceSlot) : (if 0 < slot.value then
      (Op.call (.waitCpu slot.fence slot.value) : Op σ Unit) else pure ()).Makes Call.IsWait := by
    split
    · exact Op.makes_call trivial
    · exact Op.makes_pure ()
  refine Op.fares_forM_of_makes waits fun slot member s mid leads => ?_
  have fences := (leads.tables_of_quiet fun _ => Call.isQuiet_of_isWait).2
  split
  · rename_i positive
    exact (Op.fares_of_call _ s mid).mono fun _ denied =>
      ⟨slot, member, positive, denied.of_fences fences⟩
  · exact (Op.succeeds_pure ()).fares s mid

end Player

def Brief.Fails (b : Brief) (failure : Failure) : Prop :=
  ∃ reason, b.schedule = .error reason ∧ failure = b.failure reason

namespace Graph

theorem fares_makeSchedule {σ : Type} (b : Brief) (s : σ) (rig : Rig) :
    (makeSchedule b : Op σ Schedule).Fares b.Fails s rig := by
  refine Op.Fares.bind (Op.fares_of_ok ⟨(), rfl⟩) fun _ mid rigMid noted => ?_
  cases noted
  refine ⟨Nat.le_refl _, ?_⟩
  split
  · exact (Op.succeeds_pure _).fares _ _
  · rename_i reason unmade
    exact Op.fares_fail ⟨reason, unmade, rfl⟩

theorem fares_makeCompilation {σ : Type} (b : Brief) (frameCount : Nat) (s : σ) (rig : Rig) :
    (makeCompilation b frameCount : Op σ Compilation).Fares b.Fails s rig := by
  refine (fares_makeSchedule b s rig).seq (makes_makeSchedule b) fun schedule _ _ _ _ => ?_
  exact (Player.fares_make schedule frameCount _ _).seq (Player.makes_make schedule frameCount)
    fun _ _ _ _ _ => (Op.succeeds_pure _).fares _ _

theorem fares_assemble (g g' : Graph) (rig : Rig) :
    g.assemble.Fares (g.brief g.config.mergesReads).Fails g' rig := by
  refine (fares_makeCompilation _ _ () rig).aside_bind (makes_makeCompilation _ _)
    (fun compilation _ mid _ => ?_) fun failure _ => ?_
  · apply Op.Succeeds.fares
    apply (Op.succeeds_note _ _).bind
    intro _
    dsimp only
    split
    · exact (Op.succeeds_note _ _).bind fun _ => Op.succeeds_update _
    · exact Op.succeeds_update _
  · exact (Residency.succeeds_releaseAll.within _ _).rethrows makes_releaseResidency
      fun _ => Op.rethrows_fail failure

theorem fares_build (g : Graph) (rig : Rig) : build.Fares (fun failure =>
    (g.brief g.config.mergesReads).Fails failure ∨
      ∃ o ∈ g.declaration.orders g.survival g.config.frameCount,
        rig.Denies (.createResource o.request) failure) g rig := by
  have places := Residency.fares_placeAll (g.declaration.orders g.survival g.config.frameCount)
    g.residency rig
  have placing : placeResources.Fares _ g rig :=
    .of_run (Op.run_read g rig) (places.within fun residency g => { g with residency })
  rw [build_eq]
  refine (placing.mono fun _ => Or.inr).seq makes_placeResources fun _ placed rigPlaced ran _ => ?_
  have keeps : placeResources.Keeps fun g => g.brief g.config.mergesReads :=
    keeps_placeResources fun _ _ => rfl
  rw [← keeps.of_run ran]
  exact .of_run (Op.run_read placed rigPlaced)
    ((fares_assemble placed placed rigPlaced).mono fun _ => Or.inl)

/-- The calls of compiling that the device may deny: it waits for every value that an earlier
compilation has signalled, and creates the live resources. -/
inductive Asks (g : Graph) : Call → Prop
  | wait {c : Compilation} {slot : FenceSlot} (held : g.compilation = some c)
    (member : slot ∈ c.player.slots) (used : 0 < slot.value) :
    Asks g (.waitCpu slot.fence slot.value)
  | create {o : Order}
    (member : o ∈ g.declaration.orders g.declaration.cull.survival g.config.frameCount) :
    Asks g (.createResource o.request)

theorem fares_drain (g : Graph) (rig : Rig) :
    drain.Fares (fun failure => ∃ c, g.Asks c ∧ rig.Denies c failure) g rig := by
  refine .of_run (Op.run_read g rig) ?_
  cases held : g.compilation with
  | none => exact (Op.succeeds_pure ()).fares g rig
  | some compilation =>
    exact (compilation.player.fares_drain g rig).mono fun _ ⟨slot, member, used, denied⟩ =>
      ⟨_, .wait held member used, denied⟩

theorem fares_release (g : Graph) (rig : Rig) :
    release.Fares (fun failure => ∃ c, g.Asks c ∧ rig.Denies c failure) g rig := by
  rw [release_eq]
  exact (fares_drain g rig).seq makes_drain fun _ _ _ _ _ => succeeds_giveUp.fares _ _

end Graph

end RenderGraph
