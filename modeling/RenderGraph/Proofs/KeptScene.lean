import Mathlib.Data.List.Pairwise
import RenderGraph.Proofs.RequestedStates

/-! What stands behind the rows of a compiled graph while frames are played. Whatever the caller
does between two frames without the device noticing, the graph keeps its passes and the copies that
it holds, or the declaration has changed and no further frame is played. -/

namespace RenderGraph

theorem Declaration.resource?_of_imports {d d' : Declaration} (same : d'.imports = d.imports)
    {r : ResourceId} {resource : Resource} (held : d.resource? r = some resource) :
    ∃ other, d'.resource? r = some other ∧
      other.origin.isImported = resource.origin.isImported := by
  have present : d.imports[r.index]? = some resource.origin.isImported := by
    rw [Declaration.imports, List.getElem?_map]
    exact congrArg _ held
  rw [← same, Declaration.imports, List.getElem?_map] at present
  exact Option.map_eq_some_iff.mp present

theorem Scene.exists_copy_of_owned {s : Scene} {r : ResourceId} {resource : Resource}
    (held : s.declaration.resource? r = some resource)
    (owned : resource.origin.isImported = false) {i : Nat} {native : ResourceKey}
    (behind : s.native? r i = some native) :
    ∃ copy ∈ s.residency.copiesOf r, copy.native = native := by
  obtain ⟨copy, found, same⟩ := Option.map_eq_some_iff.mp behind
  have inside := List.mem_of_getElem? found
  rw [copies_of_owned held owned] at inside
  exact ⟨copy, inside, same⟩

namespace Graph

theorem row_unique {g : Graph} (once : g.rowAssets.Nodup) {q r : ResourceId}
    {first second : Resource} (held : g.declaration.resource? q = some first)
    (held' : g.declaration.resource? r = some second) (owned : first.origin.isImported = false)
    (owned' : second.origin.isImported = false) {i j : Nat} {native : ResourceKey}
    (behind : g.scene.native? q i = some native) (behind' : g.scene.native? r j = some native) :
    q = r := by
  have row {r : ResourceId} {resource : Resource} (held : g.declaration.resource? r = some resource)
      (owned : resource.origin.isImported = false) :
      r ∈ g.declaration.rowsWhere (!·.origin.isImported) :=
    Declaration.mem_rowsWhere.mpr ⟨resource, held, by rw [owned]; rfl⟩
  have asset {r : ResourceId} {resource : Resource} {i : Nat}
      (held : g.declaration.resource? r = some resource)
      (owned : resource.origin.isImported = false) (behind : g.scene.native? r i = some native) :
      .resource native ∈ (g.residency.copiesOf r).flatMap Copy.assets := by
    obtain ⟨copy, inside, rfl⟩ := Scene.exists_copy_of_owned held owned behind
    exact List.mem_flatMap.mpr ⟨copy, inside, List.mem_cons_self⟩
  have disjoint := (List.nodup_flatMap.mp once).2
  have symm : Std.Symm (Function.onFun List.Disjoint
      fun r => (g.residency.copiesOf r).flatMap Copy.assets) := ⟨fun _ _ apart => apart.symm⟩
  by_contra apart
  exact disjoint.forall (row held owned) (row held' owned') apart
    (asset held owned behind) (asset held' owned' behind')

/-- The passes are the same, and so is what the graph holds for the rows that it owns. -/
structure Stays (g g' : Graph) : Prop where
  passes : g'.declaration.passes = g.declaration.passes
  imports : g'.declaration.imports = g.declaration.imports
  residency : g'.residency = g.residency

namespace Stays

variable {g g' g'' : Graph}

theorem refl (g : Graph) : g.Stays g := ⟨rfl, rfl, rfl⟩

theorem trans (first : g.Stays g') (second : g'.Stays g'') : g.Stays g'' where
  passes := second.passes.trans first.passes
  imports := second.imports.trans first.imports
  residency := second.residency.trans first.residency

theorem native?_of_owned (stays : g.Stays g') {r : ResourceId} {resource : Resource}
    (held : g.declaration.resource? r = some resource)
    (owned : resource.origin.isImported = false) (i : Nat) :
    g'.scene.native? r i = g.scene.native? r i := by
  obtain ⟨other, held', same⟩ := Declaration.resource?_of_imports stays.imports held
  have copies : g'.scene.copies r = g.scene.copies r := by
    rw [Scene.copies_of_owned (s := g'.scene) held' (same.trans owned),
      Scene.copies_of_owned (s := g.scene) held owned]
    exact congrArg (Residency.copiesOf · r) stays.residency
  simp only [Scene.native?, Scene.copy?, copies]

end Stays

theorem stays_of_rebind {g g' : Graph} {r : ResourceId} {f : Copy → Copy}
    (rebound : g.rebind r f = .ok g') : g.Stays g' ∧ g'.dirty = g.dirty := by
  unfold rebind at rebound
  cases found : g.declaration.getResource r with
  | error misuse =>
    rw [found] at rebound
    cases rebound
  | ok resource =>
    rw [found] at rebound
    obtain ⟨name, origin, _⟩ := resource
    cases origin with
    | imported bound =>
      cases rebound
      refine ⟨⟨rfl, ?_, rfl⟩, rfl⟩
      refine g.declaration.imports_modifyResource r fun old held => ?_
      rw [Declaration.getResource, held] at found
      cases found
      rfl
    | managed | transient => cases rebound

end Graph

namespace Session

variable {s t : Session} {c : Compilation} {frames : List PlayedFrame}

/-- If the device does not notice an operation that releases everything first, the operation failed
while draining: the player's fence could not be given up unnoticed. -/
theorem graph_of_silent_release {next : Op Graph Unit} (makes : next.Makes fun _ => True)
    (accounts : t.graph.Accounts t.rig) (held : t.graph.compilation = some c)
    (silent : (t.after (Graph.release >>= fun _ => next)).rig.traffic = t.rig.traffic) :
    (t.after (Graph.release >>= fun _ => next)).graph = t.graph := by
  have leads := Graph.makes_release t.graph t.rig
  unfold after at silent ⊢
  rw [Op.run_bind] at silent ⊢
  rcases released : Graph.release.run t.graph t.rig with ⟨failure | ⟨⟩, g, rig⟩
  · exact (Graph.release_error released).1
  rw [released] at silent leads
  -- With the same traffic as many things have been given up, although nothing is held any more.
  have squeezed : rig.traffic.toList = t.rig.traffic.toList := by
    have later := (makes g rig).extends.length_le
    have same := congrArg (·.toList.length) silent
    exact (leads.extends.eq_of_length_le (later.trans (Nat.le_of_eq same))).symm
  have account := (Graph.accounts_release accounts released).account
  rw [squeezed, List.append_nil] at account
  have lengths := (accounts.account.symm.trans account).length_eq
  rw [List.length_append] at lengths
  have fence : Asset.fence c.player.frameFence.fence ∈ t.graph.assets := by
    simp [Graph.assets, Graph.playerAssets, held, Player.assets, Player.slots]
  have some := List.length_pos_of_mem fence
  omega

theorem rebound_stays (s : Session) (r : ResourceId) (f : Copy → Copy) :
    s.graph.Stays (s.rebound (s.graph.rebind r f)).graph ∧
      (s.rebound (s.graph.rebind r f)).graph.dirty = s.graph.dirty := by
  cases rebound : s.graph.rebind r f with
  | error misuse => exact ⟨.refl _, rfl⟩
  | ok g => exact Graph.stays_of_rebind rebound

theorem stays_after (t : Session) (op : Op Graph Unit)
    (keeps : op.Keeps fun g => (g.declaration, g.residency, g.dirty)) :
    t.graph.Stays (t.after op).graph ∧ (t.after op).graph.dirty = t.graph.dirty := by
  obtain ⟨declaration, rest⟩ := Prod.mk.inj (keeps t.graph t.rig)
  obtain ⟨residency, dirty⟩ := Prod.mk.inj rest
  exact ⟨⟨congrArg Declaration.passes declaration, congrArg Declaration.imports declaration,
    residency⟩, dirty⟩

theorem stays_of_silent (a : Action) (accounts : t.graph.Accounts t.rig)
    (held : t.graph.compilation = some c) (silent : (t.act a).rig.traffic = t.rig.traffic) :
    (t.act a).graph.dirty = true ∨
      t.graph.Stays (t.act a).graph ∧ (t.act a).graph.dirty = t.graph.dirty := by
  have released {next : Op Graph Unit} (makes : next.Makes fun _ => True)
      (silent : (t.after (Graph.release >>= fun _ => next)).rig.traffic = t.rig.traffic) :
      t.graph.Stays (t.after (Graph.release >>= fun _ => next)).graph ∧
        (t.after (Graph.release >>= fun _ => next)).graph.dirty = t.graph.dirty := by
    rw [graph_of_silent_release makes accounts held silent]
    exact ⟨.refl _, rfl⟩
  cases a with
  | importResource | manage | declare => exact Or.inl rfl
  | setFrameIndex | useData | clearData | plan | refuseResources =>
    exact Or.inr ⟨⟨rfl, rfl, rfl⟩, rfl⟩
  | update r native => exact Or.inr (t.rebound_stays r _)
  | updateView r kind view => exact Or.inr (t.rebound_stays r _)
  | setFrameCount n => exact Or.inr (released (Op.makes_update _) silent)
  | compile => exact Or.inr (released Graph.makes_rebuild silent)
  | execute =>
    have keeps : Graph.execute.Keeps fun g => (g.declaration, g.residency, g.dirty) :=
      Graph.keeps_execute fun _ _ => rfl
    exact Or.inr (t.stays_after Graph.execute keeps)
  | drain => exact Or.inr (t.stays_after Graph.drain Graph.keeps_drain)
  | reset => exact Or.inr (released ((Op.makes_update _).bind fun _ => Op.makes_note _ _) silent)

theorem Does.clean {t' : Session} (does : t.Does Graph.execute t') : t.graph.dirty = false := by
  obtain ⟨_, _, _, reading, ran⟩ := Op.run_bind_ok.mp does
  cases reading
  dsimp only at ran
  split at ran
  · rename_i dirty _
    exact dirty
  · cases ran

theorem Plays.stays (plays : s.Plays frames t) (reachable : s.Reachable)
    (held : s.graph.compilation = some c) :
    t.Reachable ∧ (t.graph.dirty = true ∨ s.graph.Stays t.graph) := by
  have fits := (reachable.upheld.2 c held).fits
  induction plays with
  | start => exact ⟨reachable, Or.inr (.refl _)⟩
  | @idle frames t plays a compilation silent ih =>
    obtain ⟨reached, kept⟩ := ih
    obtain ⟨player, executed, compiled, _⟩ := plays.turns held fits
    refine ⟨reached.act a, ?_⟩
    rcases stays_of_silent a reached.accounts compiled silent with changed | ⟨stays, dirty⟩
    · exact Or.inl changed
    · exact kept.imp (fun changed => dirty.trans changed) fun before => before.trans stays
  | @execute frames t t' traffic plays does made ih =>
    obtain ⟨reached, kept⟩ := ih
    have keeps : Graph.execute.Keeps fun g => (g.declaration, g.residency, g.dirty) :=
      Graph.keeps_execute fun _ _ => rfl
    have after := does.after_eq
    subst after
    have stays := t.stays_after Graph.execute keeps
    exact ⟨reached.act .execute,
      kept.imp (fun changed => stays.2.trans changed) fun before => before.trans stays.1⟩

theorem Plays.frame (plays : s.Plays frames t) (reachable : s.Reachable)
    (held : s.graph.compilation = some c) {n : Nat} {x : PlayedFrame}
    (played : frames[n]? = some x) :
    s.graph.Stays x.graph ∧ ∃ player after,
      Player.Turn c.schedule x.graph.scene x.graph.frameIndex player x.traffic after := by
  have fits := (reachable.upheld.2 c held).fits
  induction plays with
  | start => cases played
  | idle _ _ _ _ ih => exact ih played
  | @execute frames t t' traffic plays does made ih =>
    rcases Nat.lt_trichotomy n frames.length with inside | rfl | beyond
    · rw [List.getElem?_append_left inside] at played
      exact ih played
    · rw [List.getElem?_concat_length] at played
      cases played
      obtain ⟨_, _, kept, turns⟩ := plays.turns held fits
      obtain ⟨c', after, present, ran, _⟩ := does.executed
      cases present.symm.trans kept
      obtain ⟨more, added, turn⟩ := Player.play_ok (fits.of_rewound turns.rewound) ran
      obtain rfl : traffic = more := List.append_cancel_left (made.symm.trans added)
      refine ⟨(plays.stays reachable held).2.resolve_left fun changed => ?_, _, after, turn⟩
      cases does.clean.symm.trans changed
    · have bound := (List.getElem?_eq_some_iff.mp played).1
      rw [List.length_append, List.length_singleton] at bound
      omega

end Session

end RenderGraph
