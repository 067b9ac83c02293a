import RenderGraph.Proofs.CallsMade
import RenderGraph.Proofs.CompilationSound

/-! What failures leave of a graph. Once everything is drained nothing can go wrong with releasing,
so that it gives up all there is on the device, or fails with everything as it was. Building that
fails leaves no compilation behind. -/

namespace RenderGraph

/-- A call that gives something up. No plan makes it fail. -/
def Call.IsDisposal : Call → Prop
  | destroyList _ | destroyResource _ | freeView .. | destroyFence _ => True
  | _ => False

theorem Rig.ok_of_disposal {rig : Rig} {c : Call} (disposal : c.IsDisposal) :
    ∃ reply, (rig.call c).1 = .ok reply := by
  cases c with
  | destroyList | destroyResource | freeView | destroyFence => exact ⟨(), rfl⟩
  | createList | resetList | barrier | submit | createResource | createView | createFence | signal
    | wait | waitCpu => cases disposal

namespace Op

variable {σ τ α β : Type}

def Succeeds (op : Op σ α) : Prop := ∀ s rig, ∃ a, (op.run s rig).1 = .ok a

theorem succeeds_pure (a : α) : (pure a : Op σ α).Succeeds := fun _ _ => ⟨a, rfl⟩

theorem succeeds_read : (read : Op σ σ).Succeeds := fun s _ => ⟨s, rfl⟩

theorem succeeds_update (f : σ → σ) : (update f).Succeeds := fun _ _ => ⟨(), rfl⟩

theorem succeeds_note (level : Level) (text : String) :
    (note level text : Op σ Unit).Succeeds := fun _ _ => ⟨(), rfl⟩

theorem succeeds_call {c : Call} (disposal : c.IsDisposal) :
    (call c : Op σ c.Reply).Succeeds := fun _ _ => Rig.ok_of_disposal disposal

theorem Succeeds.bind {op : Op σ α} {next : α → Op σ β} (first : op.Succeeds)
    (rest : ∀ a, (next a).Succeeds) : (op >>= next).Succeeds := by
  intro s rig
  obtain ⟨a, ok⟩ := first s rig
  rw [run_bind]
  rcases ran : op.run s rig with ⟨result, mid, rigMid⟩
  rw [ran] at ok
  cases ok
  exact rest a mid rigMid

theorem Succeeds.within {op : Op τ α} (succeeds : op.Succeeds) (part : σ → τ) (put : τ → σ → σ) :
    (within part put op).Succeeds := fun s rig => succeeds (part s) rig

theorem succeeds_forM (xs : List α) {f : α → Op σ Unit} (each : ∀ x, (f x).Succeeds) :
    (xs.forM f).Succeeds := by
  induction xs with
  | nil => exact succeeds_pure ()
  | cons x xs ih => exact (each x).bind fun _ => ih

theorem succeeds_destroyLists (lists : List ListKey) : (destroyLists lists : Op σ Unit).Succeeds :=
  succeeds_forM lists fun _ => succeeds_call trivial

theorem succeeds_destroyFences (fences : List FenceSlot) :
    (destroyFences fences : Op σ Unit).Succeeds :=
  succeeds_forM fences fun _ => succeeds_call trivial

theorem succeeds_releaseCopies (copies : List Copy) :
    (releaseCopies copies : Op σ Unit).Succeeds := by
  have views (copy : Copy) : (freeViews copy : Op σ Unit).Succeeds := by
    apply succeeds_forM
    intro kind
    split
    · exact succeeds_call trivial
    · exact succeeds_pure ()
  exact (succeeds_forM copies views).bind fun _ => succeeds_forM copies fun _ =>
    succeeds_call trivial

end Op

theorem Residency.succeeds_releaseAll : releaseAll.Succeeds := by
  apply Op.succeeds_read.bind
  intro held
  exact (Op.succeeds_forM held fun holding => Op.succeeds_releaseCopies holding.copies).bind
    fun _ => Op.succeeds_update _

namespace Graph

variable {g g' : Graph} {rig rig' : Rig} {failure : Failure}

theorem succeeds_giveUp : giveUp.Succeeds := by
  have rest : (do releaseResidency; Op.update ({ · with compilation := none })).Succeeds :=
    (Residency.succeeds_releaseAll.within _ _).bind fun _ => Op.succeeds_update _
  apply Op.succeeds_read.bind
  intro g
  cases g.compilation with
  | none => exact (Op.succeeds_pure ()).bind fun _ => rest
  | some c =>
    have destroys : (c.player.destroy : Op Graph Unit).Succeeds :=
      (Op.succeeds_destroyLists _).bind fun _ => Op.succeeds_destroyFences _
    exact destroys.bind fun _ => rest

theorem release_error (ran : release.run g rig = (.error failure, g', rig')) :
    g' = g ∧ drain.run g rig = (.error failure, g', rig') := by
  rw [release_eq] at ran
  rcases Op.run_bind_error.mp ran with drained | ⟨_, mid, rigMid, _, given⟩
  · have keeps : drain.Keeps id := keeps_drain
    exact ⟨keeps.of_run drained, drained⟩
  · obtain ⟨_, ok⟩ := succeeds_giveUp mid rigMid
    rw [given] at ok
    cases ok

theorem compilation_of_build_error
    (ran : build.run g rig = (.error failure, g', rig')) : g'.compilation = g.compilation := by
  have placing : placeResources.Keeps compilation := keeps_placeResources fun _ _ => rfl
  have releasing : releaseResidency.Keeps compilation := keeps_releaseResidency fun _ _ => rfl
  rw [build_eq] at ran
  rcases Op.run_bind_error.mp ran with failed | ⟨_, mid, rigMid, placed, ran⟩
  · exact placing.of_run failed
  rw [← placing.of_run placed]
  rw [Op.run_bind, Op.run_read] at ran
  obtain ⟨⟨result, ⟨⟩⟩, _, rigMade, made, ran⟩ :=
    (Op.run_bind_error.mp ran).resolve_left (by rw [Op.run_aside]; simp)
  obtain ⟨_, rfl⟩ := Op.run_aside_ok.mp made
  cases result with
  | error cause =>
    exact (releasing.bind fun _ => Op.keeps_fail cause).of_run ran
  | ok c =>
    dsimp only at ran
    split at ran <;> cases ran

theorem compile_error_cases (ran : compile.run g rig = (.error failure, g', rig')) :
    g' = g ∧ drain.run g rig = (.error failure, g', rig') ∨ g'.compilation = none := by
  rcases Op.run_bind_error.mp ran with failed | ⟨_, released, _, releasing, ran⟩
  · exact Or.inl (release_error failed)
  · obtain ⟨_, culled, _, culling, building⟩ :=
      (Op.run_bind_error.mp ran).resolve_left fun culling => by cases culling
    have keeps : cull.Keeps compilation := keeps_cull fun _ _ _ => rfl
    rw [compilation_of_build_error building, keeps.of_run culling]
    exact Or.inr (compilation_of_release releasing)

theorem upholds_of_release {I : Graph → Rig → Prop} {α : Type} {next : Op Graph α}
    (drains : drain.Upholds I)
    (ends : ∀ g rig g' rig', I g rig → release.run g rig = (.ok (), g', rig') →
      I (next.run g' rig').2.1 (next.run g' rig').2.2) :
    (release >>= fun _ => next).Upholds I := by
  intro g rig holds
  rw [Op.run_bind]
  rcases ran : release.run g rig with ⟨failure | ⟨⟩, g', rig'⟩
  · exact drains.of_run (release_error ran).2 holds
  · exact ends g rig g' rig' holds ran

end Graph

end RenderGraph
