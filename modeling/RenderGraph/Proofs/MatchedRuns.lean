import RenderGraph.Proofs.CallsMade
import RenderGraph.Proofs.CompileResult

/-! Runs that come to the same. No operation goes by the lines that the journal has kept: on rigs
that differ in nothing else it makes the same calls with the same results. Two graphs that ask for
the same resources and get the same schedule compile alike, whatever their declarations are. -/

namespace RenderGraph

namespace Rig

/-- The rigs are the same but for the lines of the journal. -/
structure Alike (rig rig' : Rig) : Prop where
  device : rig'.device = rig.device
  faults : rig'.faults = rig.faults
  traffic : rig'.traffic = rig.traffic
  threshold : rig'.journal.threshold = rig.journal.threshold

variable {rig rig' : Rig}

theorem Alike.refl (rig : Rig) : rig.Alike rig := ⟨rfl, rfl, rfl, rfl⟩

theorem Alike.noted (alike : rig.Alike rig') {journal journal' : Journal}
    (kept : journal.threshold = rig.journal.threshold)
    (kept' : journal'.threshold = rig'.journal.threshold) :
    ({ rig with journal } : Rig).Alike { rig' with journal := journal' } :=
  ⟨alike.device, alike.faults, alike.traffic, kept'.trans (alike.threshold.trans kept.symm)⟩

theorem Alike.refusalNote (alike : rig.Alike rig') (c : Call) :
    (rig.refusalNote c).Alike (rig'.refusalNote c) := by
  cases c with
  | createResource request =>
    exact alike.noted (Journal.threshold_write ..) (Journal.threshold_write ..)
  | createList | destroyList | resetList | barrier | submit | destroyResource | createView
    | freeView | createFence | destroyFence | signal | wait | waitCpu => exact alike

theorem Alike.forward (alike : rig.Alike rig') (c : Call) :
    (rig'.forward c).1 = (rig.forward c).1 ∧ (rig.forward c).2.Alike (rig'.forward c).2 := by
  have overflows : rig'.overflows c = rig.overflows c := by
    cases c with
    | createResource request =>
      simp only [Rig.overflows, Journal.keeps, alike.device, alike.threshold]
    | _ => rfl
  rw [Rig.forward, Rig.forward, overflows, alike.device]
  split
  · exact ⟨rfl, rfl, alike.faults, alike.traffic, alike.threshold⟩
  · split
    · refine ⟨rfl, rfl, alike.faults, ?_, ?_⟩
      · simp only [Rig.note, Rig.record, alike.traffic]
      · simp only [Rig.note, Rig.record, Journal.threshold_write, alike.threshold]
    · exact ⟨rfl, alike.refusalNote c⟩

theorem Alike.call (alike : rig.Alike rig') (c : Call) :
    (rig'.call c).1 = (rig.call c).1 ∧ (rig.call c).2.Alike (rig'.call c).2 := by
  rw [Rig.call, Rig.call]
  split
  · exact alike.forward c
  · rw [alike.faults]
    split
    · refine ⟨rfl, alike.device, rfl, ?_, alike.threshold⟩
      simp only [Rig.record, alike.traffic]
    · rename_i faults _
      have left : ({ rig with faults } : Rig).Alike { rig' with faults } :=
        ⟨alike.device, rfl, alike.traffic, alike.threshold⟩
      exact left.forward c

end Rig

namespace Op

variable {σ τ α β υ : Type} {R : σ → τ → Prop}

/-- Both outcomes have the same result, values in the relation and rigs that are alike. -/
structure Agrees (R : σ → τ → Prop) (x : Except Failure α × σ × Rig)
    (y : Except Failure α × τ × Rig) : Prop where
  result : y.1 = x.1
  values : R x.2.1 y.2.1
  rigs : x.2.2.Alike y.2.2

def Matches (R : σ → τ → Prop) (op : Op σ α) (op' : Op τ α) : Prop :=
  ∀ s t rig rig', R s t → rig.Alike rig' → Agrees R (op.run s rig) (op'.run t rig')

theorem Agrees.mono {S : σ → τ → Prop} {x : Except Failure α × σ × Rig}
    {y : Except Failure α × τ × Rig} (agrees : Agrees R x y) (wider : ∀ s t, R s t → S s t) :
    Agrees S x y := ⟨agrees.result, wider _ _ agrees.values, agrees.rigs⟩

theorem matches_pure (a : α) : Matches R (pure a : Op σ α) (pure a : Op τ α) :=
  fun _ _ _ _ related alike => ⟨rfl, related, alike⟩

theorem matches_fail (failure : Failure) :
    Matches R (fail failure : Op σ α) (fail failure : Op τ α) :=
  fun _ _ _ _ related alike => ⟨rfl, related, alike⟩

theorem matches_call (c : Call) : Matches R (call c : Op σ c.Reply) (call c : Op τ c.Reply) :=
  fun _ _ _ _ related alike => ⟨(alike.call c).1, related, (alike.call c).2⟩

theorem matches_note (level level' : Level) (text text' : String) :
    Matches R (note level text : Op σ Unit) (note level' text' : Op τ Unit) :=
  fun _ _ _ _ related alike => ⟨rfl, related,
    alike.noted (Journal.threshold_write ..) (Journal.threshold_write ..)⟩

theorem matches_noteAll (lines lines' : List LogLine) :
    Matches R (onRig (·.noteAll lines) : Op σ Unit) (onRig (·.noteAll lines') : Op τ Unit) :=
  fun _ _ _ _ related alike => ⟨rfl, related,
    alike.noted (Journal.threshold_writeAll ..) (Journal.threshold_writeAll ..)⟩

theorem matches_update {f : σ → σ} {f' : τ → τ} (kept : ∀ s t, R s t → R (f s) (f' t)) :
    Matches R (update f) (update f') :=
  fun s t _ _ related alike => ⟨rfl, kept s t related, alike⟩

theorem Matches.bind {op : Op σ α} {op' : Op τ α} {next : α → Op σ β} {next' : α → Op τ β}
    (first : Matches R op op') (rest : ∀ a, Matches R (next a) (next' a)) :
    Matches R (op >>= next) (op' >>= next') := by
  intro s t rig rig' related alike
  have agrees := first s t rig rig' related alike
  rw [run_bind, run_bind]
  rcases ran : op.run s rig with ⟨result, mid, rigMid⟩
  rcases ran' : op'.run t rig' with ⟨result', mid', rigMid'⟩
  rw [ran, ran'] at agrees
  obtain ⟨same, related, alike⟩ := agrees
  obtain rfl : result' = result := same
  cases result' with
  | error failure => exact ⟨rfl, related, alike⟩
  | ok a => exact rest a mid mid' rigMid rigMid' related alike

theorem matches_read_bind {next : σ → Op σ β} {next' : τ → Op τ β}
    (rest : ∀ s t, R s t → Matches R (next s) (next' t)) :
    Matches R (read >>= next) (read >>= next') :=
  fun s t rig rig' related alike => rest s t related s t rig rig' related alike

theorem Matches.aside {op op' : Op υ α} (same : Matches Eq op op') (value : υ) :
    Matches R (aside op value : Op σ _) (aside op' value : Op τ _) := by
  intro s t rig rig' related alike
  have agrees := same value value rig rig' rfl alike
  rw [run_aside, run_aside]
  exact ⟨congrArg Except.ok (Prod.ext agrees.result agrees.values.symm), related, agrees.rigs⟩

theorem Matches.within {op op' : Op υ α} {part : σ → υ} {part' : τ → υ} {put : υ → σ → σ}
    {put' : υ → τ → τ} (same : Matches Eq op op') (parts : ∀ s t, R s t → part s = part' t)
    (puts : ∀ value s t, R s t → R (put value s) (put' value t)) :
    Matches R (within part put op) (within part' put' op') := by
  intro s t rig rig' related alike
  have agrees := same (part s) (part' t) rig rig' (parts s t related) alike
  rw [run_within, run_within]
  refine ⟨agrees.result, ?_, agrees.rigs⟩
  dsimp only
  rw [← agrees.values]
  exact puts _ s t related

theorem matches_forM (xs : List α) {f : α → Op σ Unit} {f' : α → Op τ Unit}
    (each : ∀ x, Matches R (f x) (f' x)) : Matches R (xs.forM f) (xs.forM f') := by
  induction xs with
  | nil => exact matches_pure ()
  | cons x xs ih => exact (each x).bind fun _ => ih

theorem matches_destroyLists (lists : List ListKey) :
    Matches R (destroyLists lists) (destroyLists lists) :=
  matches_forM lists fun _ => matches_call _

theorem matches_destroyFences (fences : List FenceSlot) :
    Matches R (destroyFences fences) (destroyFences fences) :=
  matches_forM fences fun _ => matches_call _

theorem matches_releaseCopies (copies : List Copy) :
    Matches R (releaseCopies copies) (releaseCopies copies) := by
  have views (copy : Copy) : Matches R (freeViews copy) (freeViews copy) := by
    apply matches_forM
    intro kind
    split
    · exact matches_call _
    · exact matches_pure ()
  exact (matches_forM copies views).bind fun _ => matches_forM copies fun _ => matches_call _

theorem matches_change (f : σ → σ) : Matches Eq (update f) (update f) :=
  matches_update fun _ _ => congrArg f

end Op

theorem Order.matches_addCopies (o : Order) (n : Nat) :
    Op.Matches Eq (o.addCopies n) (o.addCopies n) := by
  have view (native : ResourceKey) (kind : ViewKind) (spec : ViewSpec) :
      Op.Matches Eq (addView native kind spec) (addView native kind spec) :=
    (Op.matches_call _).bind fun _ => Op.matches_change _
  have copy : Op.Matches Eq o.addCopy o.addCopy := by
    apply (Op.matches_call _).bind
    intro native
    apply (Op.matches_change _).bind
    intro _
    exact Op.matches_forM o.views fun _ => view _ _ _
  induction n with
  | zero => exact Op.matches_pure ()
  | succ n ih => exact copy.bind fun _ => ih

namespace Residency

theorem matches_releaseAll : Op.Matches Eq releaseAll releaseAll := by
  apply Op.matches_read_bind
  rintro held _ rfl
  apply (Op.matches_forM held fun holding => Op.matches_releaseCopies holding.copies).bind
  exact fun _ => Op.matches_change _

theorem matches_place (o : Order) : Op.Matches Eq (place o) (place o) := by
  apply ((o.matches_addCopies o.count).aside []).bind
  rintro ⟨result, copies⟩
  dsimp only
  split
  · exact Op.matches_change _
  · apply (Op.matches_note _ _ _ _).bind
    intro _
    apply (Op.matches_releaseCopies copies).bind
    intro _
    exact matches_releaseAll.bind fun _ => Op.matches_fail _
  · exact (Op.matches_change _).bind fun _ => Op.matches_fail _

theorem matches_placeAll (orders : List Order) :
    Op.Matches Eq (placeAll orders) (placeAll orders) :=
  (Op.matches_forM orders matches_place).bind fun _ => Op.matches_note _ _ _ _

end Residency

namespace Player

variable {σ τ : Type} {R : σ → τ → Prop}

theorem matches_make (s : Schedule) (frameCount : Nat) :
    Op.Matches R (make s frameCount) (make s frameCount) := by
  have list (queue : Queue) : Op.Matches Eq (Kit.addList queue) (Kit.addList queue) :=
    (Op.matches_call _).bind fun _ => Op.matches_change _
  have fence (queue : Queue) : Op.Matches Eq (Kit.addFence queue) (Kit.addFence queue) :=
    (Op.matches_call _).bind fun _ => Op.matches_change _
  have fill (count : Nat) : Op.Matches Eq (Kit.fill s count) (Kit.fill s count) := by
    apply (Op.matches_forM _ list).bind
    intro _
    exact (Op.matches_forM _ fence).bind fun _ => Op.matches_call _
  apply ((fill (max frameCount 1)).aside {}).bind
  rintro ⟨result, kit⟩
  cases result with
  | ok frameFence => exact Op.matches_pure _
  | error failure =>
    apply (Op.matches_destroyLists kit.lists).bind
    intro _
    exact (Op.matches_destroyFences kit.fences).bind fun _ => Op.matches_fail failure

theorem matches_drain (p : Player) : Op.Matches R p.drain p.drain := by
  apply Op.matches_forM
  intro slot
  split
  · exact Op.matches_call _
  · exact Op.matches_pure ()

theorem matches_destroy (p : Player) : Op.Matches R p.destroy p.destroy :=
  (Op.matches_destroyLists _).bind fun _ => Op.matches_destroyFences _

end Player

namespace Graph

/-- The graphs hold the same, whatever their declarations and what culling left of them. -/
structure Alike (g g' : Graph) : Prop where
  config : g'.config = g.config
  residency : g'.residency = g.residency
  compilation : g'.compilation = g.compilation
  dirty : g'.dirty = g.dirty
  frameIndex : g'.frameIndex = g.frameIndex
  deviceData : g'.deviceData = g.deviceData

theorem matches_drain : Op.Matches Alike drain drain := by
  apply Op.matches_read_bind
  intro g g' alike
  rw [alike.compilation]
  cases g.compilation with
  | none => exact Op.matches_pure ()
  | some c => exact c.player.matches_drain

theorem matches_releaseResidency : Op.Matches Alike releaseResidency releaseResidency :=
  Residency.matches_releaseAll.within (fun _ _ alike => alike.residency.symm)
    fun _ _ _ alike => { alike with residency := rfl }

theorem matches_release : Op.Matches Alike release release := by
  apply matches_drain.bind
  intro _
  apply Op.matches_read_bind
  intro g g' alike
  have rest : Op.Matches Alike
      (do releaseResidency; Op.update fun g : Graph => { g with compilation := none })
      (do releaseResidency; Op.update fun g : Graph => { g with compilation := none }) :=
    matches_releaseResidency.bind fun _ => Op.matches_update fun _ _ alike =>
      { alike with compilation := rfl }
  rw [alike.compilation]
  cases g.compilation with
  | none => exact (Op.matches_pure ()).bind fun _ => rest
  | some c => exact c.player.matches_destroy.bind fun _ => rest

theorem matches_makeCompilation {b b' : Brief} (schedule : b'.schedule = b.schedule)
    (failures : ∀ reason, b.schedule = .error reason → b'.failure reason = b.failure reason)
    (frameCount : Nat) : Op.Matches Eq (makeCompilation b frameCount : Op Unit Compilation)
      (makeCompilation b' frameCount) := by
  have makes : Op.Matches Eq (makeSchedule b : Op Unit Schedule) (makeSchedule b') := by
    apply (Op.matches_noteAll _ _).bind
    intro _
    rw [schedule]
    cases made : b.schedule with
    | ok s => exact Op.matches_pure s
    | error reason =>
      dsimp only
      rw [failures reason made]
      exact Op.matches_fail _
  apply makes.bind
  intro s
  exact (Player.matches_make s frameCount).bind fun _ => Op.matches_pure _

structure PlansAlike (g g' : Graph) : Prop extends Alike g g' where
  orders : g'.declaration.orders g'.survival g'.config.frameCount =
    g.declaration.orders g.survival g.config.frameCount
  schedule : (g'.brief g'.config.mergesReads).schedule = (g.brief g.config.mergesReads).schedule
  failures : ∀ reason, (g.brief g.config.mergesReads).schedule = .error reason →
    (g'.brief g'.config.mergesReads).failure reason = (g.brief g.config.mergesReads).failure reason

theorem PlansAlike.residency_eq {g g' : Graph} (plans : g.PlansAlike g') (residency : Residency) :
    ({ g with residency } : Graph).PlansAlike { g' with residency } :=
  ⟨{ plans.toAlike with residency := rfl }, plans.orders, plans.schedule, plans.failures⟩

theorem matches_placeResources : Op.Matches PlansAlike placeResources placeResources := by
  apply Op.matches_read_bind
  intro g g' plans
  rw [plans.orders]
  exact (Residency.matches_placeAll _).within (fun _ _ plans => plans.residency.symm)
    fun residency _ _ plans => plans.residency_eq residency

theorem matches_build : Op.Matches PlansAlike build build := by
  rw [build_eq]
  apply matches_placeResources.bind
  intro _
  apply Op.matches_read_bind
  intro g g' plans
  have releases : Op.Matches PlansAlike releaseResidency releaseResidency :=
    Residency.matches_releaseAll.within (fun _ _ plans => plans.residency.symm)
      fun residency _ _ plans => plans.residency_eq residency
  have makes := matches_makeCompilation plans.schedule plans.failures g.config.frameCount
  rw [← plans.config] at makes
  rw [assemble, assemble, ← plans.config]
  apply (makes.aside ()).bind
  rintro ⟨result, _⟩
  cases result with
  | error failure => exact releases.bind fun _ => Op.matches_fail failure
  | ok c =>
    have compiles : Op.Matches PlansAlike
        (Op.update fun g : Graph => { g with compilation := some c, dirty := false })
        (Op.update fun g : Graph => { g with compilation := some c, dirty := false }) :=
      Op.matches_update fun _ _ plans =>
        ⟨{ plans.toAlike with compilation := rfl, dirty := rfl }, plans.orders, plans.schedule,
          plans.failures⟩
    apply (Op.matches_note _ _ _ _).bind
    intro _
    dsimp only
    split
    · exact (Op.matches_note _ _ _ _).bind fun _ => compiles
    · exact compiles

/-- Graphs that hold the same compile alike if what culling leaves of them asks for the same
resources and is scheduled alike. -/
theorem Alike.compile_agrees {g g' : Graph} {rig rig' : Rig} (alike : g.Alike g')
    (rigs : rig.Alike rig')
    (orders : g'.declaration.orders g'.declaration.cull.survival g'.config.frameCount =
      g.declaration.orders g.declaration.cull.survival g.config.frameCount)
    (schedule : g'.culledBrief.schedule = g.culledBrief.schedule)
    (failures : ∀ reason, g.culledBrief.schedule = .error reason →
      g'.culledBrief.failure reason = g.culledBrief.failure reason) :
    Op.Agrees Alike (compile.run g rig) (compile.run g' rig') := by
  have released := matches_release g g' rig rig' alike rigs
  have keeps : release.Keeps fun g => (g.declaration, g.config) := keeps_release fun _ _ _ => rfl
  have kept := keeps g rig
  have kept' := keeps g' rig'
  rw [compile, Op.run_bind, Op.run_bind]
  rcases ran : release.run g rig with ⟨result, mid, rigMid⟩
  rcases ran' : release.run g' rig' with ⟨result', mid', rigMid'⟩
  rw [ran] at kept
  rw [ran'] at kept'
  rw [ran, ran'] at released
  obtain ⟨same, alikeMid, rigsMid⟩ := released
  obtain rfl : result' = result := same
  cases result' with
  | error failure => exact ⟨rfl, alikeMid, rigsMid⟩
  | ok =>
    have culls (x : Graph) (rigX : Rig) : (cull >>= fun _ => build).run x rigX =
        build.run (x.culled x.declaration.cull)
          (rigX.noteAll (x.declaration.cullLines x.declaration.cull)) := rfl
    have declaration : mid.declaration = g.declaration := congrArg Prod.fst kept
    have declaration' : mid'.declaration = g'.declaration := congrArg Prod.fst kept'
    have config : mid.config = g.config := congrArg Prod.snd kept
    have config' : mid'.config = g'.config := congrArg Prod.snd kept'
    rw [← declaration, ← declaration', ← config, ← config'] at orders
    have brief : mid.culledBrief = g.culledBrief := by
      rw [culledBrief, culledBrief, declaration, config]
    have brief' : mid'.culledBrief = g'.culledBrief := by
      rw [culledBrief, culledBrief, declaration', config']
    rw [← brief, ← brief'] at schedule failures
    have plans : (mid.culled mid.declaration.cull).PlansAlike
        (mid'.culled mid'.declaration.cull) :=
      ⟨{ alikeMid with }, orders, schedule, failures⟩
    dsimp only
    rw [culls, culls]
    exact (matches_build _ _ _ _ plans (rigsMid.noted (Journal.threshold_writeAll ..)
      (Journal.threshold_writeAll ..))).mono fun _ _ plans => plans.toAlike

end Graph

end RenderGraph
