import Mathlib.Data.Finset.Basic
import Mathlib.Data.Finset.Dedup
import Mathlib.Logic.Function.Basic
import RenderGraph.Proofs.DeviceAssets

/-! The history of a device. Every call that goes through is recorded, and the record alone tells
what there is on the device: the lists with their queues, the resources, the views of each kind and
the fences with their values. A call that the device turns down leaves no trace. -/

namespace RenderGraph

@[ext] structure Inventory where
  queueOf? : ListKey → Option Queue
  resources : Finset ResourceKey
  views : ViewKind → Finset ViewKey
  valueOf? : FenceKey → Option Nat

namespace Inventory

def bare : Inventory where
  queueOf? _ := none
  resources := ∅
  views _ := ∅
  valueOf? _ := none

/-- Goes by the command alone. To give up what is not there changes nothing. -/
def enter (held : Inventory) : Command → Inventory
  | .createList list queue => { held with queueOf? := Function.update held.queueOf? list queue }
  | .destroyList list => { held with queueOf? := Function.update held.queueOf? list none }
  | .createResource resource _ => { held with resources := insert resource held.resources }
  | .destroyResource resource => { held with resources := held.resources.erase resource }
  | .createView _ kind view _ =>
    { held with views := Function.update held.views kind (insert view (held.views kind)) }
  | .freeView kind view =>
    { held with views := Function.update held.views kind ((held.views kind).erase view) }
  | .createFence fence => { held with valueOf? := Function.update held.valueOf? fence (some 0) }
  | .signal _ fence value =>
    { held with valueOf? := Function.update held.valueOf? fence (some value) }
  | .destroyFence fence => { held with valueOf? := Function.update held.valueOf? fence none }
  | .resetList _ | .barrier .. | .submit .. | .wait .. | .waitCpu .. => held

/-- What a record of commands tells of a device that nothing was made on before. -/
def toldBy (commands : List Command) : Inventory := commands.foldl enter bare

theorem toldBy_concat (commands : List Command) (command : Command) :
    toldBy (commands ++ [command]) = (toldBy commands).enter command := by
  simp [toldBy]

end Inventory

def keysIn (commands : List Command) : List Nat :=
  commands.filterMap fun command => command.makes?.map Asset.number

theorem keysIn_concat (commands : List Command) (command : Command) :
    keysIn (commands ++ [command]) =
      keysIn commands ++ (command.makes?.map Asset.number).toList := by
  cases makes : command.makes? <;> simp [keysIn, makes]

namespace Device

def inventory (d : Device) : Inventory where
  queueOf? := d.queueOf?
  resources := d.resources.toFinset
  views kind := ((d.views.filter (·.1 = kind)).map Prod.snd).toFinset
  valueOf? := d.fenceValue?

variable {d after : Device} {c : Call} {reply : c.Reply} {command : Command}

theorem mem_inventory_views {kind : ViewKind} {view : ViewKey} :
    view ∈ d.inventory.views kind ↔ (kind, view) ∈ d.views := by
  simp [inventory]

theorem lookup_concat {κ β : Type} [DecidableEq κ] {entries : List (κ × β)} {raw : κ → Nat}
    {last : Nat} (below : ∀ entry ∈ entries, raw entry.1 ≤ last) {key : κ}
    (fresh : last < raw key) (value : β) :
    (fun other => (entries ++ [(key, value)]).lookup other) =
      Function.update (fun other => entries.lookup other) key (some value) := by
  funext other
  by_cases same : other = key
  · subst same
    rw [Function.update_self, lookup_concat_fresh below fresh]
  · have apart : (other == key) = false := beq_eq_false_iff_ne.mpr same
    simp [Function.update_of_ne same, List.lookup_append, List.lookup_cons, apart]

theorem lookup_filter_ne {κ β : Type} [DecidableEq κ] (entries : List (κ × β)) (key : κ) :
    (fun other => (entries.filter (·.1 ≠ key)).lookup other) =
      Function.update (fun other => entries.lookup other) key none := by
  funext other
  induction entries with
  | nil => by_cases same : other = key <;> simp [Function.update, same]
  | cons entry entries ih =>
    obtain ⟨own, value⟩ := entry
    by_cases gone : own = key
    · subst gone
      rw [List.filter_cons_of_neg (by simp), ih]
      by_cases same : other = own
      · simp [Function.update, same]
      · simp [Function.update, same, List.lookup_cons, beq_eq_false_iff_ne.mpr same]
    · rw [List.filter_cons_of_pos (by simpa using gone)]
      by_cases same : other = own
      · subst same
        simp [Function.update, gone]
      · have apart : (other == own) = false := beq_eq_false_iff_ne.mpr same
        simp only [List.lookup_cons, apart, ih, Function.update]

theorem inventory_respond (numbered : d.Numbered)
    (answered : d.respond c = .ok (reply, command, after)) :
    after.inventory = d.inventory.enter command := by
  have logged := command_of_respond answered
  subst logged
  cases c with
  | resetList | barrier | submit | wait | waitCpu =>
    have same : after = d := eq_of_respond (by trivial) answered
    exact same ▸ rfl
  | createList queue =>
    cases answered
    exact Inventory.ext (lookup_concat numbered.lists (Nat.lt_succ_self _) queue) rfl rfl rfl
  | destroyList list =>
    cases answered
    exact Inventory.ext (lookup_filter_ne d.lists list) rfl rfl rfl
  | createResource request =>
    simp only [respond] at answered
    split at answered <;> cases answered
    refine Inventory.ext rfl ?_ rfl rfl
    ext resource
    simp [inventory, Inventory.enter, Call.logged, or_comm]
  | destroyResource resource =>
    cases answered
    refine Inventory.ext rfl ?_ rfl rfl
    ext other
    simp [inventory, Inventory.enter, Call.logged, and_comm]
  | createView resource kind spec =>
    simp only [respond] at answered
    split at answered <;> cases answered
    refine Inventory.ext rfl rfl ?_ rfl
    funext other
    ext view
    by_cases same : other = kind
    · subst same
      simp [Inventory.enter, Call.logged, mem_inventory_views, or_comm]
    · simp [Inventory.enter, Call.logged, mem_inventory_views, same]
  | freeView kind view =>
    cases answered
    refine Inventory.ext rfl rfl ?_ rfl
    funext other
    ext own
    by_cases same : other = kind
    · subst same
      simp [Inventory.enter, Call.logged, mem_inventory_views, and_comm]
    · simp [Inventory.enter, Call.logged, mem_inventory_views, same]
  | createFence =>
    cases answered
    exact Inventory.ext rfl rfl rfl (lookup_concat numbered.fences (Nat.lt_succ_self _) 0)
  | destroyFence fence =>
    cases answered
    exact Inventory.ext rfl rfl rfl (lookup_filter_ne d.fences fence)
  | signal queue fence value =>
    simp only [respond] at answered
    split at answered
    · cases answered
    · rename_i current known
      split at answered <;> cases answered
      refine Inventory.ext rfl rfl rfl ?_
      funext other
      refine (d.fenceValue?_setFence fence other value).trans ?_
      by_cases same : other = fence
      · subst same
        simp [Inventory.enter, Call.logged, known]
      · simp [Inventory.enter, Call.logged, inventory, same]

structure IsTold (d : Device) : Prop where
  numbered : d.Numbered
  told : d.inventory = Inventory.toldBy d.history.toList
  distinct : d.assets.Nodup
  alive : ∀ x ∈ d.assets, x.number ≤ d.lastKey
  rising : (keysIn d.history.toList).Pairwise (· < ·)
  below : ∀ key ∈ keysIn d.history.toList, key ≤ d.lastKey

theorem isTold_new : ({} : Device).IsTold where
  numbered := ⟨by simp, by simp⟩
  told := rfl
  distinct := List.nodup_nil
  alive := by simp [assets]
  rising := List.Pairwise.nil
  below := by simp [keysIn]

namespace IsTold

theorem skipKey (isTold : d.IsTold) : d.skipKey.IsTold where
  numbered := isTold.numbered.skipKey
  told := isTold.told
  distinct := isTold.distinct
  alive x member := Nat.le_succ_of_le (isTold.alive x member)
  rising := isTold.rising
  below key member := Nat.le_succ_of_le (isTold.below key member)

theorem refuse (isTold : d.IsTold) (refuses : Bool) :
    { d with refusesResources := refuses }.IsTold where
  numbered := ⟨isTold.numbered.lists, isTold.numbered.fences⟩
  told := isTold.told
  distinct := isTold.distinct
  alive := isTold.alive
  rising := isTold.rising
  below := isTold.below

theorem keys_of_respond (isTold : d.IsTold) (answered : d.respond c = .ok (reply, command, after)) :
    after.assets.Nodup ∧ (∀ x ∈ after.assets, x.number ≤ after.lastKey) ∧
      d.lastKey ≤ after.lastKey ∧
      ∀ x, command.makes? = some x → d.lastKey < x.number ∧ x.number ≤ after.lastKey := by
  cases makes : command.makes? with
  | some x =>
    obtain ⟨alive, number, last⟩ := perm_of_makes answered makes
    have fresh : d.lastKey < x.number := number ▸ Nat.lt_succ_self _
    have handedOut : x.number ≤ after.lastKey := Nat.le_of_eq (number.trans last.symm)
    have kept : d.lastKey ≤ after.lastKey := Nat.le_trans (Nat.le_of_lt fresh) handedOut
    refine ⟨alive.nodup_iff.mpr (List.nodup_cons.mpr ⟨fun member => ?_, isTold.distinct⟩),
      fun y member => ?_, kept, ?_⟩
    · exact Nat.not_le_of_lt fresh (isTold.alive x member)
    · rcases List.mem_cons.mp (alive.mem_iff.mp member) with rfl | old
      · exact handedOut
      · exact Nat.le_trans (isTold.alive y old) kept
    · rintro _ ⟨⟩
      exact ⟨fresh, handedOut⟩
  | none =>
    have shrunk : after.assets ⊆ d.assets ∧ after.assets.Nodup ∧ after.lastKey = d.lastKey := by
      cases gives : command.givesUp? with
      | some x =>
        obtain ⟨assets, last⟩ := assets_of_givesUp answered gives
        rw [assets]
        exact ⟨List.filter_subset_self _, isTold.distinct.filter _, last⟩
      | none =>
        obtain ⟨assets, last⟩ := assets_of_neither answered makes gives
        rw [assets]
        exact ⟨List.Subset.refl _, isTold.distinct, last⟩
    obtain ⟨subset, distinct, last⟩ := shrunk
    exact ⟨distinct, fun x member => last ▸ isTold.alive x (subset member), Nat.le_of_eq last.symm,
      by simp⟩

theorem respond (isTold : d.IsTold) (answered : d.respond c = .ok (reply, command, after)) :
    (after.record command).IsTold := by
  obtain ⟨distinct, alive, kept, fresh⟩ := isTold.keys_of_respond answered
  have history : (after.record command).history.toList = d.history.toList ++ [command] := by
    rw [record, (kept_of_respond answered).1, Array.toList_push]
  have numbered := isTold.numbered.respond answered
  refine ⟨⟨numbered.lists, numbered.fences⟩, ?_, distinct, alive, ?_, ?_⟩
  · rw [history, Inventory.toldBy_concat, ← isTold.told]
    have entered : after.inventory = d.inventory.enter command :=
      inventory_respond isTold.numbered answered
    exact entered
  · rw [history, keysIn_concat]
    refine List.pairwise_append.mpr ⟨isTold.rising, ?_, fun old before new member => ?_⟩
    · cases command.makes? <;> simp
    · obtain ⟨x, makes, rfl⟩ := Option.map_eq_some_iff.mp (Option.mem_toList.mp member)
      exact Nat.lt_of_le_of_lt (isTold.below old before) (fresh x makes).1
  · rw [history, keysIn_concat]
    intro key member
    rcases List.mem_append.mp member with old | new
    · exact Nat.le_trans (isTold.below key old) kept
    · obtain ⟨x, makes, rfl⟩ := Option.map_eq_some_iff.mp (Option.mem_toList.mp new)
      exact (fresh x makes).2

end IsTold

end Device

/-- What can be asked of a device: to answer a call, or to refuse all resources from then on, or no
longer. -/
inductive Ask where
  | call (c : Call)
  | refuseResources (refuses : Bool)

namespace Rig

variable {rig after : Rig} {c : Call} {reply : c.Reply} {failure : Failure}

/-- A call that the device turns down changes nothing about it. A call can also break off, because
the journal cannot state a size: then a key is lost, and nothing else. -/
theorem device_of_forward_error (ran : rig.forward c = (.error failure, after)) :
    (∃ error, failure = .device error) ∧ after.device = rig.device ∨
      failure = .misuse .sizeOverflow ∧ rig.overflows c = true ∧
        after.device = rig.device.skipKey := by
  unfold forward at ran
  split at ran
  · rename_i overflows
    cases ran
    exact Or.inr ⟨rfl, overflows, rfl⟩
  · split at ran
    · cases ran
    · cases ran
      cases c <;> exact Or.inl ⟨⟨_, rfl⟩, rfl⟩

theorem device_of_call_error (ran : rig.call c = (.error failure, after)) :
    (∃ error, failure = .device error) ∧ after.device = rig.device ∨
      failure = .misuse .sizeOverflow ∧ rig.overflows c = true ∧
        after.device = rig.device.skipKey := by
  unfold call at ran
  split at ran
  · exact device_of_forward_error ran
  · split at ran
    · cases ran
      exact Or.inl ⟨⟨_, rfl⟩, rfl⟩
    · rename_i faults _
      have ran : { rig with faults }.forward c = (.error failure, after) := ran
      have forwarded := device_of_forward_error ran
      cases c <;> exact forwarded

def ask (rig : Rig) : Ask → Rig
  | .call c => (rig.call c).2
  | .refuseResources refuses =>
    { rig with device := { rig.device with refusesResources := refuses } }

def askAll (rig : Rig) (asked : List Ask) : Rig := asked.foldl ask rig

/-- The command of a call that goes through, with the key that the caller is given. -/
def answer? (rig : Rig) : Ask → Option Command
  | .call c => match (rig.call c).1 with
    | .ok reply => some (c.logged reply)
    | .error _ => none
  | .refuseResources _ => none

def answers (rig : Rig) : List Ask → List Command
  | [] => []
  | asked :: rest => (rig.answer? asked).toList ++ (rig.ask asked).answers rest

theorem isTold_ask (isTold : rig.device.IsTold) (asked : Ask) : (rig.ask asked).device.IsTold := by
  cases asked with
  | refuseResources refuses => exact isTold.refuse refuses
  | call c =>
    rcases ran : rig.call c with ⟨failure | reply, after⟩
    · simp only [ask, ran]
      rcases device_of_call_error ran with ⟨_, same⟩ | ⟨_, _, skipped⟩
      · exact same ▸ isTold
      · exact skipped ▸ isTold.skipKey
    · obtain ⟨device, answered, recorded, _⟩ := call_ok ran
      simp only [ask, ran, recorded]
      exact isTold.respond answered

theorem isTold_askAll (isTold : rig.device.IsTold) (asked : List Ask) :
    (rig.askAll asked).device.IsTold := by
  induction asked generalizing rig with
  | nil => exact isTold
  | cons first rest ih => exact ih (isTold_ask isTold first)

theorem history_ask (rig : Rig) (asked : Ask) :
    (rig.ask asked).device.history.toList =
      rig.device.history.toList ++ (rig.answer? asked).toList := by
  cases asked with
  | refuseResources refuses => simp [ask, answer?]
  | call c =>
    rcases ran : rig.call c with ⟨failure | reply, after⟩
    · have kept : after.device.history = rig.device.history := by
        rcases device_of_call_error ran with ⟨_, same⟩ | ⟨_, _, skipped⟩
        · rw [same]
        · rw [skipped]
          rfl
      simp [ask, answer?, ran, kept]
    · obtain ⟨device, answered, recorded, _⟩ := call_ok ran
      simp [ask, answer?, ran, recorded, Device.record, (Device.kept_of_respond answered).1]

theorem history_askAll (rig : Rig) (asked : List Ask) :
    (rig.askAll asked).device.history.toList = rig.device.history.toList ++ rig.answers asked := by
  induction asked generalizing rig with
  | nil => simp [askAll, answers]
  | cons first rest ih =>
    calc ((rig.ask first).askAll rest).device.history.toList
      _ = (rig.ask first).device.history.toList ++ (rig.ask first).answers rest := ih _
      _ = rig.device.history.toList ++ rig.answers (first :: rest) := by
        rw [history_ask, List.append_assoc, answers]

/-- Whatever is asked of a new device, and whatever calls are made to fail: it has recorded exactly
the calls that went through; the record tells what there is on it, and its tables list nothing
twice; no key was handed out twice; and a call that is turned down leaves the device as it is, keys
included. Only a call that breaks off because the journal cannot state a size uses up its key. -/
theorem history_tells (faults : List Fault) (journal : Journal) (asked : List Ask) :
    let start : Rig := { faults, journal }
    let rig := start.askAll asked
    rig.device.history.toList = start.answers asked ∧
      Inventory.toldBy rig.device.history.toList = rig.device.inventory ∧
      rig.device.assets.Nodup ∧
      (keysIn (start.answers asked)).Nodup ∧
      ∀ c failure after, rig.call c = (.error failure, after) →
        (∃ error, failure = .device error) ∧ after.device = rig.device ∨
          failure = .misuse .sizeOverflow ∧ rig.overflows c = true ∧
            after.device = rig.device.skipKey := by
  intro start rig
  have recorded : rig.device.history.toList = start.answers asked := history_askAll start asked
  have isTold : rig.device.IsTold := isTold_askAll Device.isTold_new asked
  have rising : (keysIn (start.answers asked)).Pairwise (· < ·) := recorded ▸ isTold.rising
  exact ⟨recorded, isTold.told.symm, isTold.distinct, rising.imp Nat.ne_of_lt,
    fun _ _ _ ran => device_of_call_error ran⟩

/-! A device that is also asked for what it cannot do: to signal a fence with a value it has
reached, to make a resource while it refuses them, and to give up a view of another kind. -/

def request : ResourceRequest where
  name := "image"
  blueprint := { extent := .texture 8 8, format := .rgba8Unorm }
  views := .ofBits 1
  state := .common

def handled : List Ask := [
  .call (.createList .copy),
  .call .createFence,
  .call (.signal .copy ⟨2⟩ 3),
  .call (.signal .graphics ⟨2⟩ 3),
  .refuseResources true,
  .call (.createResource request),
  .refuseResources false,
  .call (.createResource request),
  .call (.createView ⟨3⟩ .shaderRead {}),
  .call (.freeView .unorderedAccess ⟨4⟩),
  .call (.destroyList ⟨1⟩)]

theorem handled_told :
    let rig := ({} : Rig).askAll handled
    rig.device.history.toList = [.createList ⟨1⟩ .copy, .createFence ⟨2⟩, .signal .copy ⟨2⟩ 3,
        .createResource ⟨3⟩ request, .createView ⟨3⟩ .shaderRead ⟨4⟩ {},
        .freeView .unorderedAccess ⟨4⟩, .destroyList ⟨1⟩] ∧
      Inventory.toldBy rig.device.history.toList = rig.device.inventory ∧
      (rig.call (.signal .copy ⟨2⟩ 3)).2.device = rig.device := by
  intro rig
  obtain ⟨_, told, _, _, failed⟩ := history_tells [] {} handled
  refine ⟨by decide +kernel, told, ?_⟩
  refine ((failed (.signal .copy ⟨2⟩ 3) (.device (Refusal.staleSignal ⟨2⟩ 3 3).error) _
    ?_).resolve_right ?_).2
  · exact Prod.ext (by decide +kernel) rfl
  · rintro ⟨misuse, _⟩
    cases misuse

end Rig

end RenderGraph
