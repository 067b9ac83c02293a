import Mathlib.Data.List.Nodup
import RenderGraph.Proofs.Compiled
import RenderGraph.Proofs.DeviceCalls

/-! Players as they are made for a schedule. Each set has a list of its own for every list of the
schedule, every fence has its queue's place in the schedule, and no key is used twice. -/

namespace RenderGraph

/-! Making the kit. -/

namespace Kit

structure Numbered (kit : Kit) (last : Nat) : Prop where
  lists : (kit.lists.map (·.raw)).Pairwise (· < ·)
  below : ∀ list ∈ kit.lists, list.raw ≤ last
  fences : (kit.fences.map (·.fence.raw)).Pairwise (· < ·)
  under : ∀ slot ∈ kit.fences, slot.fence.raw ≤ last

variable {kit after : Kit} {rig rig' : Rig} {queue : Queue} {queues : List Queue} {last : Nat}

theorem numbered_empty (last : Nat) : ({} : Kit).Numbered last := by
  constructor <;> simp

theorem addList_ok (ran : (addList queue).run kit rig = (.ok (), after, rig')) :
    after = { kit with lists := kit.lists ++ [⟨rig.device.lastKey + 1⟩] } ∧
      rig'.device.lastKey = rig.device.lastKey + 1 := by
  obtain ⟨list, _, _, called, ran⟩ := Op.run_bind_ok.mp ran
  rcases Op.run_call_ok called with ⟨rfl, device, answered, recorded, _⟩
  cases answered
  cases ran
  exact ⟨rfl, by rw [recorded]; rfl⟩

theorem addFence_ok (ran : (addFence queue).run kit rig = (.ok (), after, rig')) :
    after = { kit with fences := kit.fences ++ [⟨⟨rig.device.lastKey + 1⟩, queue, 0⟩] } ∧
      rig'.device.lastKey = rig.device.lastKey + 1 := by
  obtain ⟨fence, _, _, called, ran⟩ := Op.run_bind_ok.mp ran
  rcases Op.run_call_ok called with ⟨rfl, device, answered, recorded, _⟩
  cases answered
  cases ran
  exact ⟨rfl, by rw [recorded]; rfl⟩

theorem pairwise_concat {keys : List Nat} (growing : keys.Pairwise (· < ·))
    (below : ∀ key ∈ keys, key ≤ last) : (keys ++ [last + 1]).Pairwise (· < ·) := by
  apply List.pairwise_append.mpr
  refine ⟨growing, List.pairwise_singleton _ _, ?_⟩
  intro key member next same
  rw [List.mem_singleton.mp same]
  exact Nat.lt_succ_of_le (below key member)

theorem Numbered.addList (numbered : kit.Numbered last) :
    ({ kit with lists := kit.lists ++ [⟨last + 1⟩] } : Kit).Numbered (last + 1) where
  lists := by
    rw [List.map_append]
    exact pairwise_concat numbered.lists (by simpa using numbered.below)
  below := by
    intro list member
    rcases List.mem_append.mp member with old | new
    · exact Nat.le_succ_of_le (numbered.below list old)
    · exact Nat.le_of_eq (congrArg ListKey.raw (List.mem_singleton.mp new))
  fences := numbered.fences
  under slot member := Nat.le_succ_of_le (numbered.under slot member)

theorem Numbered.addFence (numbered : kit.Numbered last) (queue : Queue) :
    ({ kit with fences := kit.fences ++ [⟨⟨last + 1⟩, queue, 0⟩] } : Kit).Numbered (last + 1) where
  lists := numbered.lists
  below list member := Nat.le_succ_of_le (numbered.below list member)
  fences := by
    rw [List.map_append]
    exact pairwise_concat numbered.fences (by simpa using numbered.under)
  under := by
    intro slot member
    rcases List.mem_append.mp member with old | new
    · exact Nat.le_succ_of_le (numbered.under slot old)
    · exact Nat.le_of_eq (congrArg (·.fence.raw) (List.mem_singleton.mp new))

theorem addLists_ok (numbered : kit.Numbered rig.device.lastKey)
    (ran : (queues.forM addList).run kit rig = (.ok (), after, rig')) :
    after.Numbered rig'.device.lastKey ∧ after.fences = kit.fences ∧
      after.lists.length = kit.lists.length + queues.length := by
  induction queues generalizing kit rig with
  | nil =>
    cases ran
    exact ⟨numbered, rfl, rfl⟩
  | cons queue queues ih =>
    obtain ⟨_, _, _, first, rest⟩ := Op.run_bind_ok.mp ran
    rcases addList_ok first with ⟨rfl, next⟩
    rcases ih (next ▸ numbered.addList) rest with ⟨numbered', fences, length⟩
    refine ⟨numbered', fences, ?_⟩
    simp only [length, List.length_append, List.length_cons, List.length_nil]
    omega

theorem addFences_ok (numbered : kit.Numbered rig.device.lastKey)
    (ran : (queues.forM addFence).run kit rig = (.ok (), after, rig')) :
    after.Numbered rig'.device.lastKey ∧ after.lists = kit.lists ∧
      after.fences.map (·.queue) = kit.fences.map (·.queue) ++ queues := by
  induction queues generalizing kit rig with
  | nil =>
    cases ran
    exact ⟨numbered, rfl, (List.append_nil _).symm⟩
  | cons queue queues ih =>
    obtain ⟨_, _, _, first, rest⟩ := Op.run_bind_ok.mp ran
    rcases addFence_ok first with ⟨rfl, next⟩
    rcases ih (next ▸ numbered.addFence queue) rest with ⟨numbered', lists, fences⟩
    refine ⟨numbered', lists, ?_⟩
    simp only [fences, List.map_append, List.map_cons, List.map_nil, List.append_assoc,
      List.singleton_append]

theorem fill_ok {s : Schedule} {count : Nat} {fence : FenceKey}
    (ran : (fill s count).run {} rig = (.ok fence, kit, rig')) :
    ∃ last, kit.Numbered last ∧ last < fence.raw ∧
      kit.lists.length = count * s.lists.length ∧ kit.fences.map (·.queue) = s.fences := by
  obtain ⟨_, _, _, lists, ran⟩ := Op.run_bind_ok.mp ran
  obtain ⟨_, _, rigFences, fences, called⟩ := Op.run_bind_ok.mp ran
  rcases addLists_ok (numbered_empty _) lists with ⟨numbered, none, length⟩
  rcases addFences_ok numbered fences with ⟨numbered', same, queues⟩
  rcases Op.run_call_ok called with ⟨rfl, device, answered, _⟩
  cases answered
  refine ⟨rigFences.device.lastKey, numbered', Nat.lt_succ_self _, ?_, ?_⟩
  · rw [same, length]
    simp
  · rw [queues, none]
    rfl

theorem Numbered.nodup_lists (numbered : kit.Numbered last) : kit.lists.Nodup := by
  apply List.Nodup.of_map (·.raw)
  exact numbered.lists.imp fun less => Nat.ne_of_lt less

theorem flatten_sets (kit : Kit) (size count : Nat) :
    (kit.sets size count).flatten = kit.lists.take (count * size) := by
  induction count with
  | zero => simp [sets]
  | succ count ih =>
    have snoc : kit.sets size (count + 1) =
        kit.sets size count ++ [(kit.lists.drop (count * size)).take size] := by
      simp only [sets, List.range_succ, List.map_append, List.map_cons, List.map_nil]
    rw [snoc, List.flatten_append, ih, List.flatten_singleton, Nat.succ_mul, List.take_add]

theorem of_mem_sets (numbered : kit.Numbered last) {size count : Nat}
    (length : kit.lists.length = count * size) {set : List ListKey}
    (member : set ∈ kit.sets size count) : set.length = size ∧ set.Nodup := by
  obtain ⟨i, inside, rfl⟩ := List.mem_map.mp member
  have room : size ≤ count * size - i * size := by
    rw [← Nat.sub_mul]
    exact Nat.le_mul_of_pos_left size (Nat.sub_pos_of_lt (List.mem_range.mp inside))
  constructor
  · rw [List.length_take, List.length_drop, length]
    exact Nat.min_eq_left room
  · have part := (List.take_sublist size _).trans (List.drop_sublist (i * size) kit.lists)
    exact numbered.nodup_lists.sublist part

end Kit

structure Player.Fits (p : Player) (s : Schedule) : Prop where
  some : 0 < p.sets.length
  full : ∀ set ∈ p.sets, set.length = s.lists.length ∧ set.Nodup
  distinct : p.sets.flatten.Nodup
  queues : p.fences.map (·.queue) = s.fences
  apart : (p.slots.map (·.fence)).Nodup
  graphics : p.frameFence.queue = .graphics

/-- Every set of lists has a value of the frame fence that has been given. -/
structure Player.Counted (p : Player) : Prop where
  length : p.setValues.length = p.sets.length
  given : ∀ value ∈ p.setValues, value ≤ p.frameFence.value

theorem Kit.Numbered.apart {kit : Kit} {last : Nat} (numbered : kit.Numbered last)
    {fence : FenceKey} (beyond : last < fence.raw) :
    (kit.fences.map (·.fence) ++ [fence]).Nodup := by
  have growing : ((kit.fences.map (·.fence) ++ [fence]).map (·.raw)).Pairwise (· < ·) := by
    rw [List.map_append, List.map_map]
    apply List.pairwise_append.mpr
    refine ⟨numbered.fences, List.pairwise_singleton _ _, ?_⟩
    intro key member next same
    obtain ⟨slot, present, rfl⟩ := List.mem_map.mp member
    rw [List.mem_singleton.mp same]
    exact Nat.lt_of_le_of_lt (numbered.under slot present) beyond
  apply List.Nodup.of_map (·.raw)
  exact growing.imp fun less => Nat.ne_of_lt less

namespace Player

variable {p : Player} {s : Schedule} {frameCount : Nat} {rig : Rig}

theorem MadeFor.exists_kit (made : p.MadeFor s frameCount rig) :
    ∃ (kit : Kit) (last : Nat) (fence : FenceKey), kit.Numbered last ∧ last < fence.raw ∧
      kit.lists.length = max frameCount 1 * s.lists.length ∧
      kit.fences.map (·.queue) = s.fences ∧
      p = {
        sets := kit.sets s.lists.length (max frameCount 1)
        setValues := List.replicate (max frameCount 1) 0
        fences := kit.fences
        frameFence := { fence, queue := .graphics } } := by
  obtain ⟨before, ran⟩ := made
  obtain ⟨⟨result, kit⟩, _, _, aside, ran⟩ := Op.run_bind_ok.mp ran
  obtain ⟨filled, _⟩ := Op.run_aside_ok.mp aside
  cases result with
  | ok fence =>
    cases ran
    obtain ⟨last, numbered, beyond, length, queues⟩ := Kit.fill_ok filled
    exact ⟨kit, last, fence, numbered, beyond, length, queues, rfl⟩
  | error failure =>
    obtain ⟨_, _, _, _, ran⟩ := Op.run_bind_ok.mp ran
    obtain ⟨_, _, _, _, failed⟩ := Op.run_bind_ok.mp ran
    cases failed

theorem MadeFor.length_sets (made : p.MadeFor s frameCount rig) :
    p.sets.length = max frameCount 1 := by
  obtain ⟨kit, last, fence, _, _, _, _, rfl⟩ := made.exists_kit
  simp [Kit.sets]

theorem MadeFor.fits (made : p.MadeFor s frameCount rig) : p.Fits s := by
  have sets := made.length_sets
  obtain ⟨kit, last, fence, numbered, beyond, length, queues, rfl⟩ := made.exists_kit
  constructor
  · rw [sets]
    exact Nat.lt_of_lt_of_le Nat.zero_lt_one (Nat.le_max_right frameCount 1)
  · exact fun set member => Kit.of_mem_sets numbered length member
  · dsimp only
    rw [Kit.flatten_sets]
    exact numbered.nodup_lists.sublist (List.take_sublist _ _)
  · exact queues
  · rw [slots, List.map_append]
    exact numbered.apart beyond
  · rfl

theorem MadeFor.counted (made : p.MadeFor s frameCount rig) : p.Counted := by
  have sets := made.length_sets
  obtain ⟨kit, last, fence, _, _, _, _, rfl⟩ := made.exists_kit
  constructor
  · rw [sets]
    exact List.length_replicate
  · intro value member
    exact Nat.le_of_eq (List.eq_of_mem_replicate member)

end Player

end RenderGraph
