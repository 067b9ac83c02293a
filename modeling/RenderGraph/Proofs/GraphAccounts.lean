import RenderGraph.Proofs.Ownership
import RenderGraph.Proofs.ReplaySteady

/-! The account of a graph. Whatever becomes of an operation, the graph holds what is on its device:
the copies of its resources with their views, and the lists and fences of its player. -/

namespace RenderGraph

namespace Rig

variable {rig after : Rig} {held : List Asset}

theorem Leads.accounts {may : Call → Prop} (leads : rig.Leads may after)
    (neutral : ∀ c, may c → ¬ c.IsUpkeep) (accounts : rig.Accounts held) :
    after.Accounts held := by
  induction leads with
  | refl => exact accounts
  | note _ _ _ ih => exact ih.congr rfl rfl rfl (Nat.le_refl _)
  | recording _ recording ih => exact ih.record rfl
  | call _ c allowed ih => exact ih.call (neutral c allowed)

end Rig

theorem Call.not_isUpkeep_of_isQuiet {c : Call} (quiet : c.IsQuiet) : ¬ c.IsUpkeep := by
  cases c <;> first | exact id | cases quiet

namespace Player

variable {held : List Asset}

theorem steady_accounts (held : List Asset) : Steady fun _ rig => rig.Accounts held where
  quiet _ quiet _ _ accounts := accounts.call (Call.not_isUpkeep_of_isQuiet quiet)
  recording _ _ _ accounts := accounts.record rfl
  raised _ _ _ accounts := accounts
  signal _ _ _ _ _ _ accounts := accounts.call id

theorem upholds_closeFrame_accounts (set : Nat) :
    (closeFrame set).Upholds fun _ rig => rig.Accounts held :=
  upholds_closeFrame_of set (fun _ _ accounts => accounts.call id) fun _ _ => id

theorem upholds_play_accounts (s : Schedule) (scene : Scene) (frameIndex : Nat) :
    (play s scene frameIndex).Upholds fun _ rig => rig.Accounts held :=
  (steady_accounts held).play upholds_closeFrame_accounts s scene frameIndex

theorem assets_of_rewound {p p' : Player} (same : p'.rewound = p.rewound) :
    p'.assets = p.assets := by
  have sets := sets_of_rewound same
  have frameFence := fence_of_rewound same
  have fences := congrArg (fun p : Player => p.fences.map fun slot => Asset.fence slot.fence) same
  simp only [rewound, List.map_map] at fences
  have keys : p'.fences.map (fun slot => Asset.fence slot.fence) =
      p.fences.map fun slot => Asset.fence slot.fence := fences
  simp only [assets, slots, sets, List.map_append, List.map_singleton, keys, frameFence]

end Player

namespace Graph

def playerAssets (g : Graph) : List Asset :=
  g.compilation.toList.flatMap fun c => c.player.assets

def assets (g : Graph) : List Asset := g.residency.assets ++ g.playerAssets

def Accounts (g : Graph) (rig : Rig) : Prop := rig.Accounts g.assets

variable {g g' : Graph} {rig rig' : Rig}

theorem upholds_drain_accounts : drain.Upholds Accounts := by
  intro g rig accounts
  have keeps : drain.Keeps id := keeps_drain
  have same : (drain.run g rig).2.1 = g := keeps g rig
  rw [same]
  exact (makes_drain g rig).accounts
    (fun c wait => Call.not_isUpkeep_of_isQuiet (Call.isQuiet_of_isWait wait)) accounts

theorem upholds_releaseResidency_accounts : releaseResidency.Upholds Accounts := by
  intro g rig accounts
  obtain ⟨after, ran, left⟩ := Residency.run_releaseAll accounts
  rw [releaseResidency, Op.run_within, ran]
  exact left

theorem run_giveUp (accounts : g.Accounts rig) :
    ∃ after, giveUp.run g rig = (.ok (), { g with residency := [], compilation := none }, after) ∧
      after.Accounts [] := by
  have rest {rig : Rig} (accounts : rig.Accounts (g.residency.assets ++ [])) :
      ∃ after, (do releaseResidency; Op.update fun g : Graph =>
        { g with compilation := none }).run g rig =
          (.ok (), { g with residency := [], compilation := none }, after) ∧ after.Accounts [] := by
    obtain ⟨after, ran, left⟩ := Residency.run_releaseAll accounts
    refine ⟨after, ?_, left⟩
    rw [Op.run_bind, releaseResidency, Op.run_within, ran]
    rfl
  unfold Accounts assets playerAssets at accounts
  unfold giveUp
  rw [Op.run_bind, Op.run_read]
  dsimp only
  cases held : g.compilation with
  | none =>
    rw [held] at accounts
    exact rest accounts
  | some c =>
    rw [held, Option.toList_some, List.flatMap_singleton] at accounts
    obtain ⟨_, mid, destroyed, left⟩ :=
      c.player.givesUp_destroy g rig _ (accounts.perm List.perm_append_comm)
    rw [List.append_nil] at rest
    obtain ⟨after, ran, none⟩ := rest left
    refine ⟨after, ?_, none⟩
    dsimp only
    rw [Op.run_bind, destroyed]
    exact ran

theorem accounts_release (accounts : g.Accounts rig)
    (ran : release.run g rig = (.ok (), g', rig')) : rig'.Accounts [] := by
  rw [release_eq] at ran
  obtain ⟨_, mid, rigMid, drained, given⟩ := Op.run_bind_ok.mp ran
  obtain ⟨after, gives, none⟩ := run_giveUp (upholds_drain_accounts.of_run drained accounts)
  cases gives.symm.trans given
  exact none

theorem upholds_release_accounts {α : Type} {next : Op Graph α}
    (ends : ∀ g rig, g.residency = [] → g.compilation = none → rig.Accounts [] →
      (next.run g rig).2.1.Accounts (next.run g rig).2.2) :
    (release >>= fun _ => next).Upholds Accounts :=
  upholds_of_release upholds_drain_accounts fun _ _ g' rig' accounts ran =>
    ends g' rig' (residency_of_release ran) (compilation_of_release ran)
      (accounts_release accounts ran)

theorem upholds_placeResources_accounts : placeResources.Upholds Accounts := by
  intro g rig accounts
  have proper : ∀ o ∈ g.declaration.orders g.survival g.config.frameCount, o.Proper := fun _ =>
    Declaration.proper_of_mem_orders
  have places := Residency.upholds_placeAll proper g.playerAssets g.residency rig accounts
  rw [placeResources, Op.run_bind, Op.run_read]
  dsimp only
  rw [Op.run_within]
  exact places

theorem upholds_makeSchedule_accounts {σ : Type} (b : Brief) {held : List Asset} :
    (makeSchedule b : Op σ Schedule).Upholds fun _ rig => rig.Accounts held := by
  intro s rig accounts
  have noted : (rig.noteAll b.lines).Accounts held := accounts.congr rfl rfl rfl (Nat.le_refl _)
  rw [makeSchedule, Op.run_bind, Op.run_onRig]
  dsimp only
  split <;> exact noted

theorem accounts_makeCompilation {b : Brief} {frameCount : Nat} {held : List Asset}
    {result : Except Failure Compilation} (accounts : rig.Accounts held)
    (ran : (makeCompilation b frameCount : Op Unit Compilation).run () rig = (result, (), rig')) :
    rig'.Accounts (result.toOption.toList.flatMap (fun c => c.player.assets) ++ held) := by
  rw [makeCompilation, Op.run_bind] at ran
  rcases scheduled : (makeSchedule b : Op Unit Schedule).run () rig with
    ⟨failure | schedule, ⟨⟩, mid⟩
  all_goals
    have held' := (upholds_makeSchedule_accounts b).of_run scheduled accounts
    rw [scheduled] at ran
    dsimp only at ran
  · cases ran
    exact held'
  · rw [Op.run_bind] at ran
    rcases made : (Player.make schedule frameCount : Op Unit Player).run () mid with
      ⟨failure | player, ⟨⟩, last⟩
    all_goals
      have owned := Player.accounts_make held' made
      rw [made] at ran
      cases ran
      exact owned

theorem accounts_assemble (none : g.compilation = none) (accounts : g.Accounts rig) :
    (g.assemble.run g rig).2.1.Accounts (g.assemble.run g rig).2.2 := by
  rw [assemble, Op.run_bind, Op.run_aside]
  rcases made : (makeCompilation (g.brief g.config.mergesReads) g.config.frameCount :
    Op Unit Compilation).run () rig with ⟨failure | c, ⟨⟩, mid⟩
  all_goals have held := accounts_makeCompilation accounts made
  · have fails : (Op.fail failure : Op Graph Unit).Upholds Accounts := fun _ _ accounts => accounts
    exact (upholds_releaseResidency_accounts.bind fun _ => fails) g mid held
  · have last {rig : Rig} (accounts : rig.Accounts (c.player.assets ++ g.assets)) :
        Accounts { g with compilation := some c, dirty := false } rig := by
      refine accounts.perm ?_
      simp only [assets, playerAssets, none, Option.toList_some, Option.toList_none,
        List.flatMap_singleton, List.flatMap_nil, List.append_nil]
      exact List.perm_append_comm
    have noted := held.note .debug (g.compiledLine c.schedule.events.length)
    rw [Except.toOption, Option.toList_some, List.flatMap_singleton] at noted
    dsimp only
    rw [Op.run_bind, Op.run_note]
    dsimp only
    split
    · rw [Op.run_bind, Op.run_note]
      exact last (noted.note _ _)
    · exact last noted

theorem accounts_of_nothing (empty : g.residency = []) (none : g.compilation = none)
    (accounts : rig.Accounts []) : g.Accounts rig := by
  unfold Accounts assets playerAssets
  rw [empty, none]
  exact accounts

theorem accounts_build (empty : g.residency = []) (none : g.compilation = none)
    (accounts : rig.Accounts []) :
    (build.run g rig).2.1.Accounts (build.run g rig).2.2 := by
  have start := accounts_of_nothing empty none accounts
  have keeps : placeResources.Keeps compilation := keeps_placeResources fun _ _ => rfl
  rw [build_eq, Op.run_bind]
  rcases placed : placeResources.run g rig with ⟨failure | ⟨⟩, mid, rigMid⟩
  all_goals have held := upholds_placeResources_accounts.of_run placed start
  · exact held
  · dsimp only
    rw [Op.run_bind, Op.run_read]
    exact accounts_assemble ((keeps.of_run placed).trans none) held

theorem upholds_compile_accounts : compile.Upholds Accounts := by
  refine upholds_release_accounts fun g rig empty none accounts => ?_
  have culls : cull.run g rig = (.ok g.declaration.cull, g.culled g.declaration.cull,
      rig.noteAll (g.declaration.cullLines g.declaration.cull)) := rfl
  rw [Op.run_bind, culls]
  exact accounts_build empty none (accounts.congr rfl rfl rfl (Nat.le_refl _))

theorem upholds_setFrameCount_accounts (n : Nat) : (setFrameCount n).Upholds Accounts :=
  upholds_release_accounts fun _ _ empty none accounts => accounts_of_nothing empty none accounts

theorem upholds_reset_accounts : reset.Upholds Accounts :=
  upholds_release_accounts fun _ _ empty none accounts =>
    accounts_of_nothing empty none (accounts.note _ _)

theorem upholds_execute_accounts : execute.Upholds Accounts := by
  refine upholds_execute_of_play fun g rig c executed accounts held => ?_
  have played := Player.upholds_play_accounts c.schedule g.scene g.frameIndex c.player rig accounts
  have keeps := Player.keeps_play_rewound c.schedule g.scene g.frameIndex c.player rig
  refine played.perm (List.Perm.of_eq ?_)
  simp only [assets, playerAssets, held, Option.toList_some, List.flatMap_singleton,
    Player.assets_of_rewound keeps]

end Graph

end RenderGraph
