import Mathlib.Data.List.Nodup
import RenderGraph.Proofs.DeviceTables

/-! What lives on a device, and the account of it in the traffic. Every call that makes something
leaves a command for it, and so does every call that gives something up: what has been made and not
been given up is what there is on the device. -/

namespace RenderGraph

/-- Something that lives on a device until it is given up. -/
inductive Asset where
  | list (key : ListKey)
  | resource (key : ResourceKey)
  | view (kind : ViewKind) (key : ViewKey)
  | fence (key : FenceKey)
  deriving DecidableEq, Repr

namespace Asset

def number : Asset → Nat
  | list key => key.raw
  | resource key => key.raw
  | view _ key => key.raw
  | fence key => key.raw

end Asset

namespace Command

def makes? : Command → Option Asset
  | createList list _ => some (.list list)
  | createResource resource _ => some (.resource resource)
  | createView _ kind view _ => some (.view kind view)
  | createFence fence => some (.fence fence)
  | _ => none

def givesUp? : Command → Option Asset
  | destroyList list => some (.list list)
  | destroyResource resource => some (.resource resource)
  | freeView kind view => some (.view kind view)
  | destroyFence fence => some (.fence fence)
  | _ => none

end Command

def madeIn (traffic : List Traffic) : List Asset :=
  traffic.filterMap fun sent => sent.command?.bind Command.makes?

def givenUpIn (traffic : List Traffic) : List Asset :=
  traffic.filterMap fun sent => sent.command?.bind Command.givesUp?

namespace Device

def assets (d : Device) : List Asset :=
  d.lists.map (fun entry => .list entry.1) ++ (d.resources.map .resource ++
    (d.views.map (fun entry => .view entry.1 entry.2) ++ d.fences.map fun entry => .fence entry.1))

variable {d after : Device} {c : Call} {reply : c.Reply} {command : Command} {x : Asset}

theorem eq_nil_of_assets (empty : d.assets = []) :
    d.lists = [] ∧ d.resources = [] ∧ d.views = [] ∧ d.fences = [] := by
  simpa [assets, and_assoc] using empty

theorem perm_append_cons {xs ys zs : List Asset} (perm : ys.Perm (x :: zs)) :
    (xs ++ ys).Perm (x :: (xs ++ zs)) :=
  (perm.append_left xs).trans List.perm_middle

theorem perm_of_makes (answered : d.respond c = .ok (reply, command, after))
    (makes : command.makes? = some x) :
    after.assets.Perm (x :: d.assets) ∧ x.number = d.nextKey ∧ after.lastKey = d.nextKey := by
  rw [command_of_respond answered] at makes
  cases c with
  | createList queue =>
    cases answered
    cases makes
    refine ⟨?_, rfl, rfl⟩
    simp only [assets, skipKey, List.map_append, List.append_assoc]
    exact List.perm_middle
  | createResource request =>
    simp only [respond] at answered
    split at answered <;> cases answered
    cases makes
    refine ⟨?_, rfl, rfl⟩
    simp only [assets, skipKey, List.map_append, List.append_assoc]
    exact perm_append_cons List.perm_middle
  | createView resource kind spec =>
    simp only [respond] at answered
    split at answered <;> cases answered
    cases makes
    refine ⟨?_, rfl, rfl⟩
    simp only [assets, skipKey, List.map_append, List.append_assoc]
    exact perm_append_cons (perm_append_cons List.perm_middle)
  | createFence =>
    cases answered
    cases makes
    refine ⟨?_, rfl, rfl⟩
    simp only [assets, skipKey, List.map_append]
    exact perm_append_cons (perm_append_cons (perm_append_cons (List.perm_append_singleton _ _)))
  | resetList | barrier | submit | destroyList | destroyResource | freeView | signal | wait
    | waitCpu | destroyFence => cases makes

theorem assets_of_givesUp (answered : d.respond c = .ok (reply, command, after))
    (gives : command.givesUp? = some x) :
    after.assets = d.assets.filter (· ≠ x) ∧ after.lastKey = d.lastKey := by
  rw [command_of_respond answered] at gives
  cases c with
  | destroyList | destroyResource | freeView | destroyFence =>
    cases answered
    cases gives
    refine ⟨?_, rfl⟩
    simp [assets, List.filter_map, Function.comp_def, Prod.ext_iff]
  | createList | resetList | barrier | submit | createResource | createView | createFence | signal
    | wait | waitCpu => cases gives

theorem assets_of_neither (answered : d.respond c = .ok (reply, command, after))
    (makes : command.makes? = none) (gives : command.givesUp? = none) :
    after.assets = d.assets ∧ after.lastKey = d.lastKey := by
  have logged := command_of_respond answered
  rw [logged] at makes gives
  cases c with
  | createList | createResource | createView | createFence => cases makes
  | destroyList | destroyResource | freeView | destroyFence => cases gives
  | resetList | barrier | submit | wait | waitCpu =>
    have same : after = d := eq_of_respond (by trivial) answered
    exact same ▸ ⟨rfl, rfl⟩
  | signal queue fence value =>
    simp only [respond] at answered
    split at answered
    · cases answered
    · split at answered <;> cases answered
      refine ⟨?_, rfl⟩
      simp only [assets, setFence, List.map_map]
      congr 3
      apply List.map_congr_left
      intro entry _
      rw [Function.comp_apply]
      split
      · rename_i same
        exact congrArg Asset.fence same.symm
      · rfl

end Device

theorem madeIn_append (xs ys : List Traffic) : madeIn (xs ++ ys) = madeIn xs ++ madeIn ys :=
  List.filterMap_append

theorem givenUpIn_append (xs ys : List Traffic) :
    givenUpIn (xs ++ ys) = givenUpIn xs ++ givenUpIn ys :=
  List.filterMap_append

theorem madeIn_command (sent : Command) : madeIn [.command sent] = sent.makes?.toList := by
  cases makes : sent.makes? <;> simp [madeIn, Traffic.command?, makes]

theorem givenUpIn_command (sent : Command) : givenUpIn [.command sent] = sent.givesUp?.toList := by
  cases gives : sent.givesUp? <;> simp [givenUpIn, Traffic.command?, gives]

/-- The account of a rig: what has been made was given up since or is held, each thing once, and
what is held is what there is on the device. -/
structure Rig.Accounts (rig : Rig) (held : List Asset) : Prop where
  numbered : ∀ x ∈ madeIn rig.traffic.toList, x.number ≤ rig.device.lastKey
  distinct : (madeIn rig.traffic.toList).Nodup
  account : (madeIn rig.traffic.toList).Perm (givenUpIn rig.traffic.toList ++ held)
  alive : rig.device.assets.Perm held

namespace Rig

variable {rig after : Rig} {held : List Asset} {x : Asset} {c : Call} {reply : c.Reply}

namespace Accounts

theorem perm {held' : List Asset} (accounts : rig.Accounts held) (same : held.Perm held') :
    rig.Accounts held' where
  numbered := accounts.numbered
  distinct := accounts.distinct
  account := accounts.account.trans (same.append_left _)
  alive := accounts.alive.trans same

theorem nodup (accounts : rig.Accounts held) :
    (givenUpIn rig.traffic.toList ++ held).Nodup :=
  accounts.account.nodup_iff.mp accounts.distinct

theorem nodup_held (accounts : rig.Accounts held) : held.Nodup :=
  (List.nodup_append.mp accounts.nodup).2.1

theorem mem_madeIn (accounts : rig.Accounts held) (member : x ∈ held) :
    x ∈ madeIn rig.traffic.toList :=
  accounts.account.mem_iff.mpr (List.mem_append_right _ member)

theorem number_le (accounts : rig.Accounts held) (member : x ∈ held) :
    x.number ≤ rig.device.lastKey :=
  accounts.numbered x (accounts.mem_madeIn member)

theorem congr (accounts : rig.Accounts held)
    (made : madeIn after.traffic.toList = madeIn rig.traffic.toList)
    (givenUp : givenUpIn after.traffic.toList = givenUpIn rig.traffic.toList)
    (assets : after.device.assets = rig.device.assets)
    (last : rig.device.lastKey ≤ after.device.lastKey) : after.Accounts held where
  numbered := made ▸ fun x member => Nat.le_trans (accounts.numbered x member) last
  distinct := made ▸ accounts.distinct
  account := made ▸ givenUp ▸ accounts.account
  alive := assets ▸ accounts.alive

theorem note (accounts : rig.Accounts held) (level : Level) (text : String) :
    (rig.note level text).Accounts held :=
  accounts.congr rfl rfl rfl (Nat.le_refl _)

theorem record {sent : Traffic} (accounts : rig.Accounts held) (other : sent.command? = none) :
    (rig.record sent).Accounts held := by
  refine accounts.congr ?_ ?_ rfl (Nat.le_refl _) <;>
    simp [Rig.record, madeIn, givenUpIn, other]

theorem call_error {failure : Failure} (accounts : rig.Accounts held)
    (ran : rig.call c = (.error failure, after)) : after.Accounts held := by
  obtain ⟨traffic, device⟩ := Rig.call_error ran
  have made : madeIn after.traffic.toList = madeIn rig.traffic.toList ∧
      givenUpIn after.traffic.toList = givenUpIn rig.traffic.toList := by
    rcases traffic with same | ⟨method, _, same⟩ <;> rw [same]
    · exact ⟨rfl, rfl⟩
    · simp [madeIn, givenUpIn, Traffic.command?]
  rcases device with same | same
  · exact accounts.congr made.1 made.2 (by rw [same]) (Nat.le_of_eq (by rw [same]))
  · exact accounts.congr made.1 made.2 (by rw [same]; rfl) (by rw [same]; exact Nat.le_succ _)

theorem traffic_of_call (ran : rig.call c = (.ok reply, after)) :
    madeIn after.traffic.toList = madeIn rig.traffic.toList ++ (c.logged reply).makes?.toList ∧
      givenUpIn after.traffic.toList =
        givenUpIn rig.traffic.toList ++ (c.logged reply).givesUp?.toList := by
  obtain ⟨_, _, _, traffic⟩ := call_ok ran
  rw [traffic, Array.toList_push, madeIn_append, givenUpIn_append, madeIn_command,
    givenUpIn_command]
  exact ⟨rfl, rfl⟩

theorem makes (accounts : rig.Accounts held) (ran : rig.call c = (.ok reply, after))
    (makes : (c.logged reply).makes? = some x) :
    after.Accounts (x :: held) ∧ rig.device.lastKey < x.number := by
  obtain ⟨made, givenUp⟩ := traffic_of_call ran
  obtain ⟨device, answered, recorded, _⟩ := call_ok ran
  obtain ⟨alive, number, last⟩ := Device.perm_of_makes answered makes
  have gives : (c.logged reply).givesUp? = none := by cases c <;> first | rfl | cases makes
  have fresh : rig.device.lastKey < x.number := number ▸ Nat.lt_succ_self _
  rw [makes, Option.toList_some] at made
  rw [gives, Option.toList_none, List.append_nil] at givenUp
  refine ⟨⟨?_, ?_, ?_, ?_⟩, fresh⟩
  · rw [made, recorded]
    intro y member
    have below : after.device.lastKey = device.lastKey := by rw [recorded]; rfl
    rcases List.mem_append.mp member with old | new
    · exact Nat.le_trans (accounts.numbered y old) (last ▸ Nat.le_succ _)
    · rw [List.mem_singleton.mp new, number]
      exact Nat.le_of_eq last.symm
  · rw [made]
    refine accounts.distinct.append (List.nodup_singleton x) ?_
    rintro y old new
    rw [List.mem_singleton.mp new] at old
    exact Nat.not_le_of_lt fresh (accounts.numbered x old)
  · rw [made, givenUp]
    exact (List.perm_append_singleton _ _).trans
      ((accounts.account.cons x).trans List.perm_middle.symm)
  · rw [recorded]
    exact alive.trans (accounts.alive.cons x)

theorem givesUp (accounts : rig.Accounts (x :: held)) (ran : rig.call c = (.ok reply, after))
    (gives : (c.logged reply).givesUp? = some x) : after.Accounts held := by
  obtain ⟨made, givenUp⟩ := traffic_of_call ran
  obtain ⟨device, answered, recorded, _⟩ := call_ok ran
  obtain ⟨assets, last⟩ := Device.assets_of_givesUp answered gives
  have makes : (c.logged reply).makes? = none := by cases c <;> first | rfl | cases gives
  rw [makes, Option.toList_none, List.append_nil] at made
  rw [gives, Option.toList_some] at givenUp
  have gone : x ∉ held := (List.nodup_cons.mp accounts.nodup_held).1
  refine ⟨?_, ?_, ?_, ?_⟩
  · rw [made, recorded]
    exact fun y member => last ▸ accounts.numbered y member
  · rw [made]
    exact accounts.distinct
  · rw [made, givenUp, List.append_assoc]
    exact accounts.account
  · rw [recorded]
    have left : ((x :: held).filter (· ≠ x)) = held := by
      rw [List.filter_cons_of_neg (by simp), List.filter_eq_self]
      exact fun y member => decide_eq_true fun same => gone (same ▸ member)
    have alive := accounts.alive.filter (· ≠ x)
    rw [left] at alive
    exact (List.Perm.of_eq assets).trans alive

theorem call (accounts : rig.Accounts held) (neutral : ¬ c.IsUpkeep) :
    (rig.call c).2.Accounts held := by
  rcases ran : rig.call c with ⟨failure | reply, after⟩
  · exact accounts.call_error ran
  · obtain ⟨made, givenUp⟩ := traffic_of_call ran
    obtain ⟨device, answered, recorded, _⟩ := call_ok ran
    have neither : (c.logged reply).makes? = none ∧ (c.logged reply).givesUp? = none := by
      cases c <;> first | exact ⟨rfl, rfl⟩ | exact absurd trivial neutral
    obtain ⟨assets, last⟩ := Device.assets_of_neither answered neither.1 neither.2
    rw [neither.1, Option.toList_none, List.append_nil] at made
    rw [neither.2, Option.toList_none, List.append_nil] at givenUp
    refine accounts.congr made givenUp ?_ ?_ <;> rw [recorded]
    · exact assets
    · exact Nat.le_of_eq last.symm

end Accounts

end Rig

end RenderGraph
