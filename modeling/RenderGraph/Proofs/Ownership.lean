import Mathlib.Data.List.Perm.Basic
import RenderGraph.Proofs.DeviceAssets
import RenderGraph.Proofs.PlayerMade
import RenderGraph.Proofs.ReleaseResult
import RenderGraph.Proofs.ResidencyPlaced

/-! What the parts of a graph own on the device. Whoever makes something holds it from then on, also
if a later call fails, and whoever lets go of something gives it up. The rest of what is held is not
touched. -/

namespace RenderGraph

namespace Copy

def viewAssets (copy : Copy) : List Asset :=
  ViewKind.all.filterMap fun kind => (copy.views.get kind).map (.view kind)

def assets (copy : Copy) : List Asset := .resource copy.native :: copy.viewAssets

end Copy

def Holding.assets (holding : Holding) : List Asset := holding.copies.flatMap Copy.assets

def Player.assets (p : Player) : List Asset :=
  p.sets.flatten.map .list ++ p.slots.map fun slot => .fence slot.fence

def Kit.assets (kit : Kit) : List Asset :=
  kit.lists.map .list ++ kit.fences.map fun slot => .fence slot.fence

namespace Op

variable {σ α β : Type} {xs ys : List Asset}

/-- The operation goes through and gives up the assets, whatever else is held. -/
def GivesUp (op : Op σ α) (assets : List Asset) : Prop :=
  ∀ s rig rest, rig.Accounts (assets ++ rest) →
    ∃ a after, op.run s rig = (.ok a, s, after) ∧ after.Accounts rest

theorem givesUp_pure (a : α) : (pure a : Op σ α).GivesUp [] := fun _ rig _ accounts =>
  ⟨a, rig, rfl, accounts⟩

theorem givesUp_call (c : Call) (disposal : c.IsDisposal) {x : Asset}
    (gives : ∀ reply, (c.logged reply).givesUp? = some x) :
    (call c : Op σ c.Reply).GivesUp [x] := by
  intro s rig rest accounts
  obtain ⟨reply, ok⟩ : ∃ reply, (rig.call c).1 = .ok reply := Rig.ok_of_disposal disposal
  have ran : rig.call c = (.ok reply, (rig.call c).2) := Prod.ext ok rfl
  exact ⟨reply, _, by rw [run_call, ok], accounts.givesUp ran (gives reply)⟩

theorem GivesUp.perm {op : Op σ α} (gives : op.GivesUp xs) (same : xs.Perm ys) :
    op.GivesUp ys := fun s rig rest accounts =>
  gives s rig rest (accounts.perm (same.symm.append_right rest))

theorem GivesUp.bind {op : Op σ α} {next : α → Op σ β} (first : op.GivesUp xs)
    (second : ∀ a, (next a).GivesUp ys) : (op >>= next).GivesUp (xs ++ ys) := by
  intro s rig rest accounts
  rw [List.append_assoc] at accounts
  obtain ⟨a, mid, ran, left⟩ := first s rig _ accounts
  rw [run_bind, ran]
  exact second a s mid rest left

theorem givesUp_forM {f : α → Op σ Unit} {assets : α → List Asset} (entries : List α)
    (each : ∀ x, (f x).GivesUp (assets x)) : (entries.forM f).GivesUp (entries.flatMap assets) := by
  induction entries with
  | nil => exact givesUp_pure ()
  | cons x entries ih => exact (each x).bind fun _ => ih

theorem givesUp_destroyLists (lists : List ListKey) :
    (destroyLists lists : Op σ Unit).GivesUp (lists.map .list) := by
  rw [List.map_eq_flatMap]
  exact givesUp_forM lists fun list => givesUp_call (.destroyList list) trivial fun _ => rfl

theorem givesUp_destroyFences (fences : List FenceSlot) :
    (destroyFences fences : Op σ Unit).GivesUp (fences.map fun slot => .fence slot.fence) := by
  rw [List.map_eq_flatMap]
  exact givesUp_forM fences fun slot => givesUp_call (.destroyFence slot.fence) trivial fun _ => rfl

theorem givesUp_freeViews (copy : Copy) :
    (freeViews copy : Op σ Unit).GivesUp copy.viewAssets := by
  rw [Copy.viewAssets, List.filterMap_eq_flatMap_toList]
  apply givesUp_forM
  intro kind
  cases copy.views.get kind with
  | none => exact givesUp_pure ()
  | some view => exact givesUp_call (.freeView kind view) trivial fun _ => rfl

theorem givesUp_releaseCopies (copies : List Copy) :
    (releaseCopies copies : Op σ Unit).GivesUp (copies.flatMap Copy.assets) := by
  have natives : (copies.forM fun copy => call (.destroyResource copy.native) : Op σ Unit).GivesUp
      (copies.flatMap fun copy => [.resource copy.native]) :=
    givesUp_forM copies fun copy => givesUp_call (.destroyResource copy.native) trivial fun _ => rfl
  refine ((givesUp_forM copies givesUp_freeViews).bind fun _ => natives).perm ?_
  exact List.perm_append_comm.trans (List.flatMap_append_perm copies _ Copy.viewAssets)

end Op

theorem Player.givesUp_destroy {σ : Type} (p : Player) :
    (p.destroy : Op σ Unit).GivesUp p.assets :=
  (Op.givesUp_destroyLists _).bind fun _ => Op.givesUp_destroyFences _

namespace Residency

def assets (held : Residency) : List Asset := held.flatMap Holding.assets

theorem run_releaseAll {held : Residency} {rig : Rig} {rest : List Asset}
    (accounts : rig.Accounts (assets held ++ rest)) :
    ∃ after, releaseAll.run held rig = (.ok (), [], after) ∧ after.Accounts rest := by
  have gives : (List.forM held fun holding => Op.releaseCopies holding.copies :
      Op Residency Unit).GivesUp (assets held) :=
    Op.givesUp_forM held fun holding => Op.givesUp_releaseCopies holding.copies
  obtain ⟨_, after, ran, left⟩ := gives held rig rest accounts
  refine ⟨after, ?_, left⟩
  unfold releaseAll
  rw [Op.run_bind, Op.run_read]
  dsimp only
  rw [Op.run_bind, ran]
  rfl

end Residency

theorem perm_filterMap_of_filled {κ β : Type} {places : List κ} {f g : κ → Option β} {k : κ} {y : β}
    (distinct : places.Nodup) (member : k ∈ places) (empty : f k = none) (filled : g k = some y)
    (same : ∀ j, j ≠ k → g j = f j) : (places.filterMap g).Perm (y :: places.filterMap f) := by
  obtain ⟨before, after, rfl⟩ := List.append_of_mem member
  obtain ⟨_, distinct', apart⟩ := List.nodup_append.mp distinct
  have early : before.filterMap g = before.filterMap f := List.filterMap_congr fun j inside =>
    same j fun here => apart j inside k List.mem_cons_self here
  have late : after.filterMap g = after.filterMap f := List.filterMap_congr fun j inside =>
    same j fun here => (List.nodup_cons.mp distinct').1 (here ▸ inside)
  rw [List.filterMap_append, List.filterMap_append, List.filterMap_cons_some filled,
    List.filterMap_cons_none empty, early, late]
  exact List.perm_middle

namespace Copy

theorem assets_fresh (native : ResourceKey) : assets { native } = [.resource native] := rfl

theorem assets_of_entered {copy : Copy} {kind : ViewKind} {view : ViewKey}
    (empty : copy.views.get kind = none) :
    (assets { copy with views := copy.views.set kind (some view) }).Perm
      (.view kind view :: copy.assets) := by
  have entered : (viewAssets { copy with views := copy.views.set kind (some view) }).Perm
      (.view kind view :: copy.viewAssets) := by
    apply perm_filterMap_of_filled (k := kind) (by decide) (ViewKind.mem_all kind)
    · rw [empty]
      rfl
    · simp [PerView.get_set]
    · intro other apart
      simp [PerView.get_set, apart]
  exact (entered.cons _).trans (List.Perm.swap _ _ _)

theorem map_addView {done : List Copy} {copy : Copy} {kind : ViewKind} {view : ViewKey}
    (apart : ∀ other ∈ done, other.native ≠ copy.native) :
    (done ++ [copy]).map (addView copy.native kind view) =
      done ++ [{ copy with views := copy.views.set kind (some view) }] := by
  have others : done.map (addView copy.native kind view) = done.map id :=
    List.map_congr_left fun other member => if_neg (apart other member)
  rw [List.map_append, others, List.map_id, List.map_singleton, addView, if_pos rfl]

end Copy

namespace Order

/-- The order asks for no kind of view twice. -/
def Proper (o : Order) : Prop := (o.views.map Prod.fst).Nodup

variable {o : Order} {rest : List Asset}

variable {rig after : Rig} {done copies : List Copy} {copy : Copy} {result : Except Failure Unit}

theorem accounts_addView {kind : ViewKind} {spec : ViewSpec}
    (accounts : rig.Accounts ((done ++ [copy]).flatMap Copy.assets ++ rest))
    (apart : ∀ other ∈ done, other.native ≠ copy.native) (empty : copy.views.get kind = none)
    (ran : (addView copy.native kind spec).run (done ++ [copy]) rig = (result, copies, after)) :
    ∃ copy', copies = done ++ [copy'] ∧ copy'.native = copy.native ∧
      (∀ other, other ≠ kind → copy'.views.get other = copy.views.get other) ∧
      after.Accounts ((done ++ [copy']).flatMap Copy.assets ++ rest) := by
  rw [addView, Op.run_bind, Op.run_call] at ran
  rcases called : rig.call (.createView copy.native kind spec) with ⟨failure | view, made⟩
  · rw [called] at ran
    cases ran
    exact ⟨copy, rfl, rfl, fun _ _ => rfl, accounts.call_error called⟩
  · rw [called] at ran
    dsimp only at ran
    rw [Op.run_update, Copy.map_addView apart] at ran
    cases ran
    refine ⟨_, rfl, rfl, fun other apart => by simp [PerView.get_set, apart], ?_⟩
    obtain ⟨held, _⟩ := accounts.makes called rfl
    refine held.perm (List.Perm.symm ?_)
    rw [List.flatMap_append, List.flatMap_append, List.flatMap_singleton, List.flatMap_singleton]
    exact (((Copy.assets_of_entered empty).append_left _).trans List.perm_middle).append_right rest

theorem accounts_addViews {views : List (ViewKind × ViewSpec)}
    (accounts : rig.Accounts ((done ++ [copy]).flatMap Copy.assets ++ rest))
    (apart : ∀ other ∈ done, other.native ≠ copy.native)
    (distinct : (views.map Prod.fst).Nodup)
    (empty : ∀ kind ∈ views.map Prod.fst, copy.views.get kind = none)
    (ran : (views.forM fun (kind, spec) => addView copy.native kind spec).run (done ++ [copy]) rig =
      (result, copies, after)) :
    after.Accounts (copies.flatMap Copy.assets ++ rest) := by
  induction views generalizing copy rig with
  | nil =>
    cases ran
    exact accounts
  | cons head views ih =>
    obtain ⟨kind, spec⟩ := head
    obtain ⟨new, distinct⟩ := List.nodup_cons.mp distinct
    have here := empty kind List.mem_cons_self
    change (addView copy.native kind spec >>= fun _ => views.forM _).run _ _ = _ at ran
    rw [Op.run_bind] at ran
    rcases first : (addView copy.native kind spec).run (done ++ [copy]) rig with
      ⟨failure | ⟨⟩, mid, rigMid⟩
    all_goals
      rw [first] at ran
      obtain ⟨copy', rfl, native, others, held⟩ := accounts_addView accounts apart here first
    · cases ran
      exact held
    · rw [← native] at ran apart
      refine ih held apart distinct (fun other member => ?_) ran
      rw [others other fun same => new (same ▸ member)]
      exact empty other (List.mem_cons_of_mem _ member)

theorem accounts_fresh {native : ResourceKey}
    (accounts : rig.Accounts (copies.flatMap Copy.assets ++ rest))
    (called : rig.call (.createResource o.request) = (.ok native, after)) :
    after.Accounts ((copies ++ [({ native } : Copy)]).flatMap Copy.assets ++ rest) ∧
      ∀ other ∈ copies, other.native ≠ native := by
  obtain ⟨held, fresh⟩ := accounts.makes called rfl
  refine ⟨held.perm ?_, fun other member same => ?_⟩
  · rw [List.flatMap_append, List.flatMap_singleton, Copy.assets_fresh, List.append_assoc]
    exact List.perm_middle.symm
  · have owned : .resource other.native ∈ copies.flatMap Copy.assets ++ rest :=
      List.mem_append_left _ (List.mem_flatMap.mpr ⟨other, member, List.mem_cons_self⟩)
    rw [same] at owned
    exact Nat.not_le_of_lt fresh (accounts.number_le owned)

theorem upholds_addCopy (proper : o.Proper) :
    o.addCopy.Upholds fun copies rig => rig.Accounts (copies.flatMap Copy.assets ++ rest) := by
  intro copies rig accounts
  rw [addCopy, Op.run_bind, Op.run_call]
  rcases called : rig.call (.createResource o.request) with ⟨failure | native, made⟩
  · exact accounts.call_error called
  · obtain ⟨held, apart⟩ := accounts_fresh accounts called
    exact accounts_addViews held apart proper (fun kind _ => PerView.get_fill _ kind) rfl

theorem upholds_addCopies (proper : o.Proper) (rest : List Asset) (n : Nat) :
    (o.addCopies n).Upholds fun copies rig =>
      rig.Accounts (copies.flatMap Copy.assets ++ rest) := by
  induction n with
  | zero => exact fun _ _ accounts => accounts
  | succ n ih => exact (upholds_addCopy proper).bind fun _ => ih

end Order

namespace Residency

theorem accounts_giveBack {copies : List Copy} {failure : Failure} {held : Residency} {rig : Rig}
    {rest : List Asset}
    (accounts : rig.Accounts (copies.flatMap Copy.assets ++ (assets held ++ rest))) :
    ((giveBack copies failure).run held rig).2.2.Accounts
      (assets ((giveBack copies failure).run held rig).2.1 ++ rest) := by
  obtain ⟨_, mid, released, left⟩ := Op.givesUp_releaseCopies copies held rig _ accounts
  obtain ⟨last, emptied, none⟩ := run_releaseAll left
  rw [giveBack, Op.run_bind, released]
  dsimp only
  rw [Op.run_bind, emptied]
  exact none

theorem upholds_place {o : Order} (proper : o.Proper) (rest : List Asset) :
    (place o).Upholds fun held rig => rig.Accounts (assets held ++ rest) := by
  intro held rig accounts
  have made := o.upholds_addCopies proper (assets held ++ rest) o.count [] rig accounts
  have kept {rig : Rig} {copies : List Copy}
      (made : rig.Accounts (copies.flatMap Copy.assets ++ (assets held ++ rest))) :
      rig.Accounts (assets (held ++ [⟨o.resource, copies⟩]) ++ rest) := by
    refine made.perm ?_
    rw [assets, assets, List.flatMap_append, List.flatMap_singleton, ← List.append_assoc]
    exact List.perm_append_comm.append_right rest
  rw [place, Op.run_bind, Op.run_aside]
  rcases ran : (o.addCopies o.count).run [] rig with ⟨failure | ⟨⟩, copies, after⟩
  all_goals rw [ran] at made
  · cases failure with
    | device error =>
      dsimp only
      rw [Op.run_bind, Op.run_note]
      exact accounts_giveBack (made.note _ _)
    | allPassesCulled | readBeforeCreate | unbound | notCompiled | misuse =>
      exact kept made
  · exact kept made

theorem upholds_placeAll {orders : List Order} (proper : ∀ o ∈ orders, o.Proper)
    (rest : List Asset) :
    (placeAll orders).Upholds fun held rig => rig.Accounts (assets held ++ rest) := by
  have places : (orders.forM place).Upholds fun held rig => rig.Accounts (assets held ++ rest) := by
    induction orders with
    | nil => exact fun _ _ accounts => accounts
    | cons o orders ih =>
      obtain ⟨first, others⟩ := List.forall_mem_cons.mp proper
      exact (upholds_place first rest).bind fun _ => ih others
  exact places.bind fun _ _ _ accounts => accounts.note _ _

end Residency

theorem Declaration.proper_of_mem_orders {d : Declaration} {s : Survival} {frameCount : Nat}
    {o : Order} (member : o ∈ d.orders s frameCount) : o.Proper := by
  obtain ⟨⟨resource, i⟩, _, made⟩ := List.mem_filterMap.mp member
  dsimp only at made
  split at made
  · cases made
    have kinds : (d.wantedViews s ⟨i⟩).kinds.Nodup := List.Nodup.filter _ (by decide)
    simpa [Order.Proper, order, Function.comp_def] using kinds
  · cases made

namespace Kit

variable {kit : Kit} {rig after : Rig} {rest : List Asset}

theorem upholds_addList (queue : Queue) :
    (addList queue).Upholds fun kit rig => rig.Accounts (kit.assets ++ rest) := by
  intro kit rig accounts
  rw [addList, Op.run_bind, Op.run_call]
  rcases called : rig.call (.createList queue) with ⟨failure | list, made⟩
  · exact accounts.call_error called
  · refine (accounts.makes called rfl).1.perm (List.Perm.symm ?_)
    simp only [assets, Op.run_update, List.map_append, List.append_assoc]
    exact List.perm_middle

theorem upholds_addFence (queue : Queue) :
    (addFence queue).Upholds fun kit rig => rig.Accounts (kit.assets ++ rest) := by
  intro kit rig accounts
  rw [addFence, Op.run_bind, Op.run_call]
  rcases called : rig.call .createFence with ⟨failure | fence, made⟩
  · exact accounts.call_error called
  · refine (accounts.makes called rfl).1.perm (List.Perm.symm ?_)
    simp only [assets, Op.run_update, List.map_append, List.append_assoc]
    exact Device.perm_append_cons List.perm_middle

theorem accounts_fill {s : Schedule} {count : Nat} {result : Except Failure FenceKey}
    (accounts : rig.Accounts rest) (ran : (fill s count).run {} rig = (result, kit, after)) :
    after.Accounts (result.toOption.toList.map Asset.fence ++ (kit.assets ++ rest)) := by
  have filled : ((List.replicate count s.lists).flatten.forM addList >>= fun _ =>
      s.fences.forM addFence).Upholds fun kit rig => rig.Accounts (kit.assets ++ rest) :=
    (Op.upholds_forM _ upholds_addList).bind fun _ => Op.upholds_forM _ upholds_addFence
  rw [fill, ← bind_assoc, Op.run_bind] at ran
  rcases made : ((List.replicate count s.lists).flatten.forM addList >>= fun _ =>
    s.fences.forM addFence).run {} rig with ⟨failure | ⟨⟩, mid, rigMid⟩
  all_goals
    have held := filled.of_run made accounts
    rw [made] at ran
  · cases ran
    exact held
  · rcases called : rigMid.call .createFence with ⟨failure | fence, rigLast⟩
    all_goals
      dsimp only at ran
      rw [Op.run_call, called] at ran
      cases ran
    · exact held.call_error called
    · exact (held.makes called rfl).1

end Kit

namespace Player

variable {σ : Type} {t t' : σ} {rig after : Rig} {rest : List Asset} {s : Schedule}
  {frameCount : Nat} {result : Except Failure Player}

theorem accounts_make (accounts : rig.Accounts rest)
    (ran : (make s frameCount : Op σ Player).run t rig = (result, t', after)) :
    after.Accounts (result.toOption.toList.flatMap Player.assets ++ rest) := by
  rw [make, Op.run_bind, Op.run_aside] at ran
  rcases filled : (Kit.fill s (max frameCount 1)).run {} rig with ⟨failure | fence, kit, made⟩
  all_goals
    have held := Kit.accounts_fill accounts filled
    rw [filled] at ran
    dsimp only at ran
  · have gives : (do Op.destroyLists kit.lists; Op.destroyFences kit.fences : Op σ Unit).GivesUp
        kit.assets :=
      (Op.givesUp_destroyLists _).bind fun _ => Op.givesUp_destroyFences _
    obtain ⟨_, mid, given, left⟩ := gives t made rest held
    rw [← bind_assoc, Op.run_bind, given] at ran
    cases ran
    exact left
  · cases ran
    obtain ⟨_, _, _, length, _⟩ := Kit.fill_ok filled
    have sets : (kit.sets s.lists.length (max frameCount 1)).flatten = kit.lists := by
      rw [Kit.flatten_sets, ← length, List.take_length]
    refine held.perm (List.Perm.symm ?_)
    simp only [Except.toOption, Option.toList_some, List.flatMap_singleton, assets, slots, sets,
      List.map_append, List.map_singleton, Kit.assets]
    rw [← List.append_assoc]
    exact (List.perm_append_singleton _ _).append_right rest

end Player

end RenderGraph
