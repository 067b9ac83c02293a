import RenderGraph.Proofs.CrossFrameOrder
import RenderGraph.Proofs.OwnedRows

/-! What is live on the device is what the rows that the graph owns and its player hold, each held
once, whatever a caller does and whatever fails. Only what the graph held before or made meanwhile
is given up, and nothing is given up twice. -/

namespace RenderGraph

theorem flatMap_of_sublist {α β : Type} {xs ys : List α} {f : α → List β} (sub : xs.Sublist ys)
    (distinct : ys.Nodup) (none : ∀ y ∈ ys, y ∉ xs → f y = []) : ys.flatMap f = xs.flatMap f := by
  induction sub with
  | slnil => rfl
  | cons y sub ih =>
    obtain ⟨absent, distinct⟩ := List.nodup_cons.mp distinct
    rw [List.flatMap_cons, none y List.mem_cons_self fun inside => absent (sub.subset inside),
      List.nil_append, ih distinct fun z member => none z (List.mem_cons_of_mem y member)]
  | cons_cons y sub ih =>
    obtain ⟨absent, distinct⟩ := List.nodup_cons.mp distinct
    rw [List.flatMap_cons, List.flatMap_cons, ih distinct fun z member outside => ?_]
    refine none z (List.mem_cons_of_mem y member) fun inside => ?_
    rcases List.mem_cons.mp inside with rfl | inside
    · exact absent member
    · exact outside inside

namespace Residency

variable {held : Residency}

theorem copiesOf_of_not_mem {r : ResourceId} (absent : r ∉ held.rows) : held.copiesOf r = [] := by
  have none : held.find? (·.resource == r) = none := by
    refine List.find?_eq_none.mpr fun holding member same => absent ?_
    rw [← eq_of_beq same]
    exact List.mem_map_of_mem member
  rw [copiesOf, none, Option.elim_none]

theorem copiesOf_of_mem (distinct : held.rows.Nodup) {holding : Holding}
    (member : holding ∈ held) : held.copiesOf holding.resource = holding.copies := by
  rw [copiesOf, find?_of_nodup_map distinct member, Option.elim_some]

theorem flatMap_copiesOf {owned : List ResourceId} (sub : held.rows.Sublist owned)
    (distinct : owned.Nodup) :
    (owned.flatMap fun r => (held.copiesOf r).flatMap Copy.assets) = held.assets := by
  rw [flatMap_of_sublist sub distinct fun r _ absent => by rw [copiesOf_of_not_mem absent]; rfl,
    rows, List.flatMap_map]
  exact List.flatMap_congr fun holding member => by
    rw [copiesOf_of_mem (distinct.sublist sub) member, Holding.assets]

end Residency

namespace Graph

def rowAssets (g : Graph) : List Asset :=
  g.declaration.owned.flatMap fun r => (g.residency.copiesOf r).flatMap Copy.assets

/-- What the rows that the graph owns and its player hold on the device. -/
def held (g : Graph) : List Asset := g.rowAssets ++ g.playerAssets

theorem Rowed.held_eq {g : Graph} (rowed : g.Rowed) : g.held = g.assets := by
  rw [held, rowAssets, Residency.flatMap_copiesOf rowed g.declaration.nodup_owned, assets]

end Graph

theorem Rig.accounts_start (faults : List Fault) (journal : Journal) :
    ({ faults, journal } : Rig).Accounts [] where
  numbered _ made := nomatch made
  distinct := List.nodup_nil
  account := List.Perm.nil
  alive := List.Perm.nil

namespace Graph

theorem run_drop (g : Graph) (rig : Rig) :
    (drop.run g rig).1 = .ok () ∧ (drop.run g rig).2.1 = (release.run g rig).2.1 ∧
      ((drop.run g rig).2.2 = (release.run g rig).2.2 ∨
        ∃ text, (drop.run g rig).2.2 = (release.run g rig).2.2.note .warn text) := by
  unfold drop
  rw [Op.run_bind, Op.run_read]
  dsimp only
  rw [Op.run_bind, Op.run_aside]
  rcases release.run g rig with ⟨failure | ⟨⟩, g', rig'⟩
  · exact ⟨rfl, rfl, Or.inr ⟨_, rfl⟩⟩
  · exact ⟨rfl, rfl, Or.inl rfl⟩

theorem upholds_drop_accounts : drop.Upholds Accounts := by
  have releases : (release >>= fun _ => pure () : Op Graph Unit).Upholds Accounts :=
    upholds_release_accounts fun _ _ empty none accounts => accounts_of_nothing empty none accounts
  rw [bind_pure_unit] at releases
  intro g rig accounts
  have released := releases g rig accounts
  obtain ⟨_, graph, same | ⟨text, same⟩⟩ := run_drop g rig <;> rw [graph, same]
  · exact released
  · exact released.note .warn text

theorem upholds_drop_rowed : drop.Upholds fun g _ => g.Rowed := by
  have releases : (release >>= fun _ => pure () : Op Graph Unit).Upholds fun g _ => g.Rowed :=
    upholds_release_rowed fun _ _ empty => rowed_of_empty empty
  rw [bind_pure_unit] at releases
  intro g rig rowed
  rw [(run_drop g rig).2.1]
  exact releases g rig rowed

theorem assets_of_drop {g mid : Graph} {rig rigMid : Rig} (accounts : g.Accounts rig)
    (drained : drain.run g rig = (.ok (), mid, rigMid)) :
    (drop.run g rig).2.2.device.assets = [] := by
  obtain ⟨after, gives, left⟩ := run_giveUp (upholds_drain_accounts.of_run drained accounts)
  have released : (release.run g rig).2.2 = after := by
    rw [release_eq, Op.run_bind, drained]
    dsimp only
    rw [gives]
  obtain ⟨_, _, same | ⟨text, same⟩⟩ := run_drop g rig
  · rw [same, released]
    exact left.alive.eq_nil
  · rw [same, released]
    exact left.alive.eq_nil

end Graph

def Rig.Extends (rig after : Rig) : Prop := rig.traffic.toList <+: after.traffic.toList

theorem Rig.Leads.extends {may : Call → Prop} {rig after : Rig} (leads : rig.Leads may after) :
    rig.Extends after := by
  obtain ⟨added, same, _⟩ := leads.traffic
  exact ⟨added, same.symm⟩

namespace Graph

theorem makes_rebuild : (cull >>= fun _ => build).Makes fun _ => True :=
  (makes_cull.bind fun _ => makes_build).mono fun _ _ => trivial

end Graph

namespace Session

variable {s t : Session}

theorem extends_execute : s.rig.Extends (s.after Graph.execute).rig := by
  have reaches {rig after : Rig} (leads : rig.Leads (fun _ => True) after)
      (extend : s.rig.Extends rig) : s.rig.Extends after := extend.trans leads.extends
  have lasting : Player.Lasting fun rig => s.rig.Extends rig :=
    ⟨fun _ c => reaches (Rig.Leads.refl.call c trivial),
      fun _ recording => reaches (Rig.Leads.refl.recording recording)⟩
  have executes : Graph.execute.Upholds fun _ rig => s.rig.Extends rig :=
    Graph.upholds_execute_of_play fun g rig c _ extend _ =>
      lasting.play c.schedule g.scene g.frameIndex c.player rig extend
  exact executes s.graph s.rig (List.prefix_refl _)

theorem extends_release {next : Op Graph Unit} (makes : next.Makes fun _ => True) :
    s.rig.Extends (s.after (Graph.release >>= fun _ => next)).rig :=
  (((Graph.makes_release.mono fun _ _ => trivial).bind fun _ => makes) s.graph s.rig).extends

theorem extends_act (s : Session) (a : Action) : s.rig.Extends (s.act a).rig := by
  have rebound (r : ResourceId) (f : Copy → Copy) :
      s.rig.Extends (s.rebound (s.graph.rebind r f)).rig := by
    obtain ⟨declaration, same⟩ := s.rebound_eq r f
    rw [same]
    exact List.prefix_refl _
  cases a with
  | importResource | manage | declare | setFrameIndex | useData | clearData | plan
    | refuseResources => exact List.prefix_refl _
  | update r native => exact rebound r _
  | updateView r kind view => exact rebound r _
  | setFrameCount n => exact extends_release (Op.makes_update _)
  | compile => exact extends_release Graph.makes_rebuild
  | execute => exact extends_execute
  | drain => exact (Graph.makes_drain s.graph s.rig).extends
  | reset => exact extends_release ((Op.makes_update _).bind fun _ => Op.makes_note _ _)

theorem extends_drop (s : Session) : s.rig.Extends (s.after Graph.drop).rig := by
  have extend := (Graph.makes_release s.graph s.rig).extends
  have dropped : (s.after Graph.drop).rig = (Graph.drop.run s.graph s.rig).2.2 := rfl
  obtain ⟨_, _, same | ⟨text, same⟩⟩ := Graph.run_drop s.graph s.rig <;> rw [dropped, same]
  · exact extend
  · exact extend

/-- What the graph holds is what is live on the device, each thing once, and nothing has been given
up twice. -/
structure Balances (s : Session) : Prop where
  live : s.rig.device.assets.Perm s.graph.held
  once : s.graph.held.Nodup
  never_twice : (givenUpIn s.rig.traffic.toList).Nodup

/-- What is given up from one session to the other the graph held before or made meanwhile. -/
def GivesUpOwn (s t : Session) : Prop :=
  ∃ traffic, t.rig.traffic.toList = s.rig.traffic.toList ++ traffic ∧
    ∀ x ∈ givenUpIn traffic, x ∈ s.graph.held ∨ x ∈ madeIn traffic

theorem balances_of_accounts (rowed : s.graph.Rowed) (accounts : s.graph.Accounts s.rig) :
    s.Balances := by
  have accounts : s.rig.Accounts s.graph.held := rowed.held_eq ▸ accounts
  exact ⟨accounts.alive, accounts.nodup_held, (List.nodup_append.mp accounts.nodup).1⟩

theorem givesUpOwn_of_accounts (rowed : s.graph.Rowed) (accounts : s.graph.Accounts s.rig)
    (accounts' : t.graph.Accounts t.rig) (extend : s.rig.Extends t.rig) : s.GivesUpOwn t := by
  obtain ⟨traffic, same⟩ := extend
  refine ⟨traffic, same.symm, fun x given => ?_⟩
  have distinct := (List.nodup_append.mp accounts'.nodup).1
  have made : x ∈ madeIn t.rig.traffic.toList := by
    refine accounts'.account.mem_iff.mpr (List.mem_append_left _ ?_)
    rw [← same, givenUpIn_append]
    exact List.mem_append_right _ given
  rw [← same, givenUpIn_append] at distinct
  rw [← same, madeIn_append] at made
  rcases List.mem_append.mp made with before | meanwhile
  · rcases List.mem_append.mp (accounts.account.mem_iff.mp before) with gone | held
    · exact absurd rfl ((List.nodup_append.mp distinct).2.2 x gone x given)
    · exact Or.inl (rowed.held_eq ▸ held)
  · exact Or.inr meanwhile

theorem accounts_rebound (accounts : s.graph.Accounts s.rig) {r : ResourceId} {f : Copy → Copy} :
    (s.rebound (s.graph.rebind r f)).graph.Accounts (s.rebound (s.graph.rebind r f)).rig := by
  obtain ⟨declaration, same⟩ := s.rebound_eq r f
  rw [same]
  exact accounts

theorem Reachable.accounts (reachable : s.Reachable) : s.graph.Accounts s.rig := by
  induction reachable with
  | start config faults journal =>
    exact Graph.accounts_of_nothing rfl rfl (Rig.accounts_start faults _)
  | @act s reachable a accounts =>
    cases a with
    | importResource | manage | declare | setFrameIndex | useData | clearData => exact accounts
    | plan | refuseResources => exact Rig.Accounts.congr accounts rfl rfl rfl (Nat.le_refl _)
    | update r native => exact accounts_rebound accounts
    | updateView r kind view => exact accounts_rebound accounts
    | setFrameCount n => exact Graph.upholds_setFrameCount_accounts n s.graph s.rig accounts
    | compile => exact Graph.upholds_compile_accounts s.graph s.rig accounts
    | execute => exact Graph.upholds_execute_accounts s.graph s.rig accounts
    | drain => exact Graph.upholds_drain_accounts s.graph s.rig accounts
    | reset => exact Graph.upholds_reset_accounts s.graph s.rig accounts

/-- Whatever a caller does and whatever fails, the rows that the graph owns and its player hold what
is live on the device, each thing once. Nothing is given up twice, and only what was held before or
made meanwhile is given up, so never for a row that is imported. The same holds when the graph is
dropped, and if the device can be drained then, nothing is left on it. -/
theorem owned_exactly (reachable : s.Reachable) :
    s.Balances ∧ (∀ a, s.GivesUpOwn (s.act a)) ∧
      (s.after Graph.drop).Balances ∧ s.GivesUpOwn (s.after Graph.drop) ∧
      ∀ t, s.Does Graph.drain t → ∃ t', s.Does Graph.drop t' ∧ t'.rig.device.lists = [] ∧
        t'.rig.device.resources = [] ∧ t'.rig.device.views = [] ∧ t'.rig.device.fences = [] := by
  have rowed := reachable.rowed
  have accounts := reachable.accounts
  have rowed' : (s.after Graph.drop).graph.Rowed := Graph.upholds_drop_rowed s.graph s.rig rowed
  have accounts' : (s.after Graph.drop).graph.Accounts (s.after Graph.drop).rig :=
    Graph.upholds_drop_accounts s.graph s.rig accounts
  refine ⟨balances_of_accounts rowed accounts, fun a => ?_, balances_of_accounts rowed' accounts',
    givesUpOwn_of_accounts rowed accounts accounts' s.extends_drop, fun t drained => ?_⟩
  · exact givesUpOwn_of_accounts rowed accounts (reachable.act a).accounts (s.extends_act a)
  · have empty : (s.after Graph.drop).rig.device.assets = [] :=
      Graph.assets_of_drop accounts drained
    refine ⟨s.after Graph.drop, does_after ?_, Device.eq_nil_of_assets empty⟩
    rw [(Graph.run_drop s.graph s.rig).1]
    rfl

theorem streamed_owned : streamedBuilt.graph.held = [
      .resource ⟨1⟩, .view .shaderRead ⟨2⟩,
      .list ⟨3⟩, .list ⟨4⟩, .list ⟨5⟩, .list ⟨6⟩, .fence ⟨7⟩, .fence ⟨8⟩] ∧
    streamedBuilt.rig.device.assets.Perm streamedBuilt.graph.held ∧
    ∃ t, streamedBuilt.Does Graph.drop t ∧ t.rig.device.lists = [] ∧
      t.rig.device.resources = [] ∧ t.rig.device.views = [] ∧ t.rig.device.fences = [] := by
  obtain ⟨balances, _, _, _, leaves⟩ := owned_exactly streamed_reachable
  exact ⟨by decide +kernel, balances.live, leaves _ (does_after (by decide +kernel))⟩

end Session

end RenderGraph
