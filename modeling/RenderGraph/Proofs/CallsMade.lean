import RenderGraph.Proofs.DeviceCalls
import RenderGraph.Proofs.Session

/-! The calls that an operation makes, whether it goes through or not. What all of these calls leave
alone on the device is left alone by the operation. -/

namespace RenderGraph

/-- What a call may leave in the traffic: its command if it goes through, or else a note if it is
made to fail. If the device turns it down it leaves nothing. -/
def Call.Leaves (c : Call) (x : Traffic) : Prop :=
  (∃ reply, x = .command (c.logged reply)) ∨ ∃ method, c.method? = some method ∧ x = .refused method

namespace Rig

/-- One rig is what becomes of the other by calls of the given kind, with lines written to the
journal and runs of recorders between them. -/
inductive Leads (may : Call → Prop) (rig : Rig) : Rig → Prop
  | refl : Leads may rig rig
  | note {mid : Rig} (leads : Leads may rig mid) (journal : Journal)
    (keeps : journal.threshold = mid.journal.threshold) : Leads may rig { mid with journal }
  | recording {mid : Rig} (leads : Leads may rig mid) (recording : Recording) :
    Leads may rig (mid.record (.recording recording))
  | call {mid : Rig} (leads : Leads may rig mid) (c : Call) (allowed : may c) :
    Leads may rig (mid.call c).2

variable {may more : Call → Prop} {rig mid after : Rig} {c : Call}

theorem Leads.trans (first : rig.Leads may mid) (rest : mid.Leads may after) :
    rig.Leads may after := by
  induction rest with
  | refl => exact first
  | note _ journal keeps ih => exact ih.note journal keeps
  | recording _ recording ih => exact ih.recording recording
  | call _ c allowed ih => exact ih.call c allowed

theorem Leads.mono (leads : rig.Leads may after) (wider : ∀ c, may c → more c) :
    rig.Leads more after := by
  induction leads with
  | refl => exact .refl
  | note _ journal keeps ih => exact ih.note journal keeps
  | recording _ recording ih => exact ih.recording recording
  | call _ c allowed ih => exact ih.call c (wider c allowed)

theorem leads_note (rig : Rig) (level : Level) (text : String) :
    rig.Leads may (rig.note level text) := Leads.refl.note _ (Journal.threshold_write ..)

theorem forward_error {failure : Failure} (ran : rig.forward c = (.error failure, after)) :
    after.traffic = rig.traffic ∧ after.faults = rig.faults ∧
      (after.device = rig.device ∨ after.device = rig.device.skipKey) := by
  unfold forward at ran
  split at ran
  · cases ran
    exact ⟨rfl, rfl, Or.inr rfl⟩
  · split at ran
    · cases ran
    · cases ran
      cases c <;> exact ⟨rfl, rfl, Or.inl rfl⟩

theorem call_error {failure : Failure} (ran : rig.call c = (.error failure, after)) :
    (after.traffic = rig.traffic ∨
        ∃ method, c.method? = some method ∧ after.traffic = rig.traffic.push (.refused method)) ∧
      (after.device = rig.device ∨ after.device = rig.device.skipKey) := by
  unfold call at ran
  split at ran
  · rcases forward_error ran with ⟨traffic, _, device⟩
    exact ⟨Or.inl traffic, device⟩
  · rename_i method known
    split at ran
    · cases ran
      exact ⟨Or.inr ⟨method, known, rfl⟩, Or.inl rfl⟩
    · rename_i faults _
      have forwarded : ({ rig with faults } : Rig).forward c = (.error failure, after) := ran
      rcases forward_error forwarded with ⟨traffic, _, device⟩
      exact ⟨Or.inl traffic, device⟩

theorem traffic_of_call (rig : Rig) (c : Call) :
    ∃ added, (rig.call c).2.traffic.toList = rig.traffic.toList ++ added ∧
      ∀ x ∈ added, c.Leaves x := by
  rcases ran : rig.call c with ⟨failure | reply, after⟩
  · rcases (call_error ran).1 with same | ⟨method, known, pushed⟩
    · exact ⟨[], by rw [same, List.append_nil], by simp⟩
    · refine ⟨[.refused method], by rw [pushed, Array.toList_push], fun x member => ?_⟩
      exact Or.inr ⟨method, known, List.mem_singleton.mp member⟩
  · obtain ⟨_, _, _, pushed⟩ := call_ok ran
    refine ⟨[.command (c.logged reply)], by rw [pushed, Array.toList_push], fun x member => ?_⟩
    exact Or.inl ⟨reply, List.mem_singleton.mp member⟩

theorem Leads.leaves (leads : rig.Leads may after) :
    ∃ added, after.traffic.toList = rig.traffic.toList ++ added ∧
      ∀ x ∈ added, (∃ recording, x = .recording recording) ∨ ∃ c, may c ∧ c.Leaves x := by
  induction leads with
  | refl => exact ⟨[], (List.append_nil _).symm, by simp⟩
  | note _ _ _ ih => exact ih
  | recording _ recording ih =>
    obtain ⟨added, same, each⟩ := ih
    refine ⟨added ++ [.recording recording], ?_, fun x member => ?_⟩
    · rw [record, Array.toList_push, same, List.append_assoc]
    · rcases List.mem_append.mp member with old | new
      · exact each x old
      · exact Or.inl ⟨recording, List.mem_singleton.mp new⟩
  | @call mid _ c allowed ih =>
    obtain ⟨added, same, each⟩ := ih
    obtain ⟨more, pushed, left⟩ := mid.traffic_of_call c
    refine ⟨added ++ more, ?_, fun x member => ?_⟩
    · rw [pushed, same, List.append_assoc]
    · rcases List.mem_append.mp member with old | new
      · exact each x old
      · exact Or.inr ⟨c, allowed, left x new⟩

theorem Leads.traffic (leads : rig.Leads may after) :
    ∃ added, after.traffic.toList = rig.traffic.toList ++ added ∧
      ∀ sent, .command sent ∈ added → ∃ c reply, may c ∧ sent = c.logged reply := by
  obtain ⟨added, same, each⟩ := leads.leaves
  refine ⟨added, same, fun sent member => ?_⟩
  rcases each _ member with ⟨_, clash⟩ | ⟨c, allowed, ⟨reply, logged⟩ | ⟨_, _, clash⟩⟩
  · cases clash
  · exact ⟨c, reply, allowed, Traffic.command.inj logged⟩
  · cases clash

end Rig

def Call.IsWait : Call → Prop
  | waitCpu .. => True
  | _ => False

def Call.IsQueueWait : Call → Prop
  | wait .. => True
  | _ => False

def Call.IsUpkeep : Call → Prop
  | createList _ | destroyList _ | createResource _ | destroyResource _
  | createView .. | freeView ..
  | createFence | destroyFence _ => True
  | _ => False

def Call.IsQuiet : Call → Prop
  | resetList _ | barrier .. | submit .. | wait .. | waitCpu .. => True
  | _ => False

theorem Call.isQuiet_of_isWait {c : Call} (wait : c.IsWait) : c.IsQuiet := by
  cases c <;> first | exact wait | cases wait

namespace Op

/-- Whatever becomes of the operation, it makes calls of the given kind only. -/
def Makes {σ α : Type} (op : Op σ α) (may : Call → Prop) : Prop :=
  ∀ (s : σ) (rig : Rig), rig.Leads may (op.run s rig).2.2

end Op

section Makes

variable {σ τ α β : Type} {may : Call → Prop}

namespace Op

theorem Makes.mono {op : Op σ α} {might : Call → Prop} (makes : op.Makes may)
    (wider : ∀ c, may c → might c) : op.Makes might := fun s rig => (makes s rig).mono wider

theorem makes_pure (a : α) : (pure a : Op σ α).Makes may := fun _ _ => .refl

theorem makes_fail (failure : Failure) : (fail failure : Op σ α).Makes may := fun _ _ => .refl

theorem makes_read : (read : Op σ σ).Makes may := fun _ _ => .refl

theorem makes_update (f : σ → σ) : (update f).Makes may := fun _ _ => .refl

theorem makes_call {c : Call} (allowed : may c) : (call c : Op σ c.Reply).Makes may :=
  fun _ _ => Rig.Leads.refl.call c allowed

theorem makes_noteAll (lines : List LogLine) :
    (onRig (·.noteAll lines) : Op σ Unit).Makes may :=
  fun _ _ => Rig.Leads.refl.note _ (Journal.threshold_writeAll ..)

theorem makes_note (level : Level) (text : String) : (note level text : Op σ Unit).Makes may :=
  fun _ rig => rig.leads_note level text

theorem Makes.within {op : Op τ α} (makes : op.Makes may) (part : σ → τ) (put : τ → σ → σ) :
    (within part put op).Makes may := fun s rig => makes (part s) rig

theorem Makes.aside {op : Op τ α} (makes : op.Makes may) (t : τ) :
    (aside op t : Op σ (Except Failure α × τ)).Makes may := fun _ rig => makes t rig

theorem Makes.bind {op : Op σ α} {next : α → Op σ β} (first : op.Makes may)
    (rest : ∀ a, (next a).Makes may) : (op >>= next).Makes may := by
  intro s rig
  have led := first s rig
  rw [run_bind]
  rcases ran : op.run s rig with ⟨failure | a, mid, rigMid⟩
  · rw [ran] at led
    exact led
  · rw [ran] at led
    exact led.trans (rest a mid rigMid)

theorem makes_forM (xs : List α) {f : α → Op σ Unit} (each : ∀ x, (f x).Makes may) :
    (xs.forM f).Makes may := by
  induction xs with
  | nil => exact makes_pure ()
  | cons x xs ih => exact (each x).bind fun _ => ih

theorem makes_destroyLists (lists : List ListKey) :
    (destroyLists lists : Op σ Unit).Makes Call.IsUpkeep :=
  makes_forM lists fun _ => makes_call trivial

theorem makes_destroyFences (fences : List FenceSlot) :
    (destroyFences fences : Op σ Unit).Makes Call.IsUpkeep :=
  makes_forM fences fun _ => makes_call trivial

theorem makes_releaseCopies (copies : List Copy) :
    (releaseCopies copies : Op σ Unit).Makes Call.IsUpkeep := by
  have views (copy : Copy) : (freeViews copy : Op σ Unit).Makes Call.IsUpkeep := by
    apply makes_forM
    intro kind
    split
    · exact makes_call trivial
    · exact makes_pure ()
  exact (makes_forM copies views).bind fun _ => makes_forM copies fun _ => makes_call trivial

end Op

namespace Order

theorem makes_addView (native : ResourceKey) (kind : ViewKind) (spec : ViewSpec) :
    (addView native kind spec).Makes Call.IsUpkeep :=
  (Op.makes_call trivial).bind fun _ => Op.makes_update _

theorem makes_addCopy (o : Order) : o.addCopy.Makes Call.IsUpkeep := by
  apply (Op.makes_call trivial).bind
  intro native
  apply (Op.makes_update _).bind
  intro _
  exact Op.makes_forM o.views fun _ => makes_addView _ _ _

theorem makes_addCopies (o : Order) (n : Nat) : (o.addCopies n).Makes Call.IsUpkeep := by
  induction n with
  | zero => exact Op.makes_pure ()
  | succ n ih => exact o.makes_addCopy.bind fun _ => ih

end Order

namespace Residency

theorem makes_releaseAll : releaseAll.Makes Call.IsUpkeep := by
  apply Op.makes_read.bind
  intro held
  exact (Op.makes_forM held fun holding => Op.makes_releaseCopies holding.copies).bind fun _ =>
    Op.makes_update _

def giveBack (copies : List Copy) (failure : Failure) : Op Residency Unit := do
  Op.releaseCopies copies
  releaseAll
  Op.fail failure

theorem makes_giveBack (copies : List Copy) (failure : Failure) :
    (giveBack copies failure).Makes Call.IsUpkeep :=
  (Op.makes_releaseCopies copies).bind fun _ => makes_releaseAll.bind fun _ => Op.makes_fail _

theorem makes_place (o : Order) : (place o).Makes Call.IsUpkeep := by
  apply ((o.makes_addCopies o.count).aside []).bind
  rintro ⟨failure | ⟨⟩, copies⟩
  · cases failure with
    | device error => exact (Op.makes_note _ _).bind fun _ => makes_giveBack copies _
    | allPassesCulled | readBeforeCreate | unbound | notCompiled | misuse =>
      exact (Op.makes_update _).bind fun _ => Op.makes_fail _
  · exact Op.makes_update _

end Residency

namespace Kit

theorem makes_addList (queue : Queue) : (addList queue).Makes Call.IsUpkeep :=
  (Op.makes_call trivial).bind fun _ => Op.makes_update _

theorem makes_addFence (queue : Queue) : (addFence queue).Makes Call.IsUpkeep :=
  (Op.makes_call trivial).bind fun _ => Op.makes_update _

theorem makes_fill (s : Schedule) (count : Nat) : (fill s count).Makes Call.IsUpkeep := by
  apply (Op.makes_forM _ makes_addList).bind
  intro _
  exact (Op.makes_forM _ makes_addFence).bind fun _ => Op.makes_call trivial

end Kit

namespace Player

theorem makes_make (s : Schedule) (frameCount : Nat) :
    (make s frameCount : Op σ Player).Makes Call.IsUpkeep := by
  apply ((Kit.makes_fill s (max frameCount 1)).aside {}).bind
  rintro ⟨failure | fence, kit⟩
  · apply (Op.makes_destroyLists kit.lists).bind
    intro _
    exact (Op.makes_destroyFences kit.fences).bind fun _ => Op.makes_fail _
  · exact Op.makes_pure _

theorem makes_destroy (p : Player) : (p.destroy : Op σ Unit).Makes Call.IsUpkeep :=
  (Op.makes_destroyLists _).bind fun _ => Op.makes_destroyFences _

theorem makes_drain (p : Player) : (p.drain : Op σ Unit).Makes Call.IsWait := by
  apply Op.makes_forM
  intro slot
  split
  · exact Op.makes_call trivial
  · exact Op.makes_pure ()

end Player

namespace Graph

theorem makes_drain : drain.Makes Call.IsWait := by
  apply Op.makes_read.bind
  intro g
  cases g.compilation with
  | none => exact Op.makes_pure ()
  | some compilation => exact compilation.player.makes_drain

theorem makes_releaseResidency : releaseResidency.Makes Call.IsUpkeep :=
  Residency.makes_releaseAll.within _ _

def giveUp : Op Graph Unit := do
  if let some compilation := (← Op.read).compilation then
    compilation.player.destroy
  releaseResidency
  Op.update ({ · with compilation := none })

theorem release_eq : release = drain >>= fun _ => giveUp := rfl

theorem makes_giveUp : giveUp.Makes Call.IsUpkeep := by
  apply Op.makes_read.bind
  intro g
  have rest : (do releaseResidency; Op.update fun g : Graph => { g with compilation := none }).Makes
      Call.IsUpkeep := makes_releaseResidency.bind fun _ => Op.makes_update _
  cases g.compilation with
  | none => exact (Op.makes_pure ()).bind fun _ => rest
  | some compilation => exact compilation.player.makes_destroy.bind fun _ => rest

theorem makes_release : release.Makes fun c => c.IsWait ∨ c.IsUpkeep := by
  rw [release_eq]
  apply (makes_drain.mono fun _ => Or.inl).bind
  exact fun _ => makes_giveUp.mono fun _ => Or.inr

theorem makes_cull : cull.Makes Call.IsUpkeep := by
  apply Op.makes_read.bind
  intro g
  apply (Op.makes_noteAll _).bind
  intro _
  exact (Op.makes_update _).bind fun _ => Op.makes_pure _

theorem makes_placeResources : placeResources.Makes Call.IsUpkeep := by
  apply Op.makes_read.bind
  intro g
  apply Op.Makes.within
  exact (Op.makes_forM _ Residency.makes_place).bind fun _ => Op.makes_note _ _

theorem makes_makeSchedule (b : Brief) :
    (makeSchedule b : Op σ Schedule).Makes Call.IsUpkeep := by
  apply (Op.makes_noteAll _).bind
  intro _
  split
  · exact Op.makes_pure _
  · exact Op.makes_fail _

theorem makes_makeCompilation (b : Brief) (frameCount : Nat) :
    (makeCompilation b frameCount : Op σ Compilation).Makes Call.IsUpkeep := by
  apply (makes_makeSchedule b).bind
  intro schedule
  exact (Player.makes_make schedule frameCount).bind fun _ => Op.makes_pure _

def assemble (g : Graph) : Op Graph Unit := do
  let (result, _) ← Op.aside
    (makeCompilation (g.brief g.config.mergesReads) g.config.frameCount) ()
  match result with
  | .error failure =>
    releaseResidency
    Op.fail failure
  | .ok compilation =>
    Op.note .debug (g.compiledLine compilation.schedule.events.length)
    if g.config.tracesSchedule then
      Op.note .debug ("Frame graph schedule:\n" ++ compilation.schedule.text)
    Op.update ({ · with compilation := some compilation, dirty := false })

theorem build_eq : build = placeResources >>= fun _ => Op.read >>= assemble := rfl

theorem makes_assemble (g : Graph) : g.assemble.Makes Call.IsUpkeep := by
  apply ((makes_makeCompilation _ _).aside ()).bind
  rintro ⟨failure | compilation, ⟨⟩⟩
  · exact makes_releaseResidency.bind fun _ => Op.makes_fail _
  · apply (Op.makes_note _ _).bind
    intro _
    dsimp only
    split
    · exact (Op.makes_note _ _).bind fun _ => Op.makes_update _
    · exact Op.makes_update _

theorem makes_build : build.Makes Call.IsUpkeep := by
  rw [build_eq]
  apply makes_placeResources.bind
  intro _
  exact Op.makes_read.bind makes_assemble

end Graph

end Makes

end RenderGraph
