import RenderGraph.Proofs.CompilationSound
import RenderGraph.Proofs.DeviceTables
import RenderGraph.Proofs.ReleaseResult
import RenderGraph.Proofs.ReplaySteady

/-! What a player has on the device. Every list is one of its queue, no fence is further than the
values given to it, and the frame fence is at least where it was at the end of any frame that used a
set of lists last. This holds of the player of a graph at all times, whatever fails. -/

namespace RenderGraph

namespace Player

structure Backed (p : Player) (s : Schedule) (d : Device) : Prop where
  fits : p.Fits s
  lists : ∀ set ∈ p.sets, set.map d.queueOf? = s.lists.map some
  fences : ∀ slot ∈ p.slots, ∃ reached ≤ slot.value, d.fenceValue? slot.fence = some reached
  waits : ∃ reached, d.fenceValue? p.frameFence.fence = some reached ∧
    ∀ value ∈ p.setValues, value ≤ reached

variable {p p' : Player} {s : Schedule} {d d' : Device} {rig rig' : Rig} {slot : FenceSlot}

theorem Backed.congr (backed : p.Backed s d) (lists : d'.lists = d.lists)
    (fences : d'.fences = d.fences) : p.Backed s d' where
  fits := backed.fits
  lists := by
    have queues : d'.queueOf? = d.queueOf? := funext fun list => congrArg (List.lookup list) lists
    exact queues ▸ backed.lists
  fences := by
    simpa only [Device.fenceValue?, fences] using backed.fences
  waits := by
    simpa only [Device.fenceValue?, fences] using backed.waits

theorem Backed.grow (backed : p.Backed s d) (same : p'.rewound = p.rewound)
    (setValues : p'.setValues = p.setValues) (grows : ∀ later ∈ p'.slots, ∃ slot ∈ p.slots,
      slot.fence = later.fence ∧ slot.value ≤ later.value) : p'.Backed s d where
  fits := backed.fits.of_rewound same
  lists := sets_of_rewound same ▸ backed.lists
  fences later member := by
    obtain ⟨slot, owned, fence, le⟩ := grows later member
    obtain ⟨reached, below, known⟩ := backed.fences slot owned
    exact ⟨reached, Nat.le_trans below le, fence ▸ known⟩
  waits := by
    rw [fence_of_rewound same, setValues]
    exact backed.waits

theorem Backed.raised (backed : p.Backed s d) (fence : Nat) : (p.raised fence).Backed s d := by
  refine backed.grow (rewound_raised p fence) rfl fun later member => ?_
  rcases List.mem_append.mp member with own | frame
  · obtain ⟨i, held⟩ := List.mem_iff_getElem?.mp own
    rw [Player.raised, List.getElem?_modify, Option.map_eq_map, Option.map_eq_some_iff] at held
    obtain ⟨slot, held, rfl⟩ := held
    refine ⟨slot, List.mem_append_left _ (List.mem_of_getElem? held), ?_⟩
    split
    · exact ⟨rfl, Nat.le_succ _⟩
    · exact ⟨rfl, Nat.le_refl _⟩
  · exact ⟨later, List.mem_append_right _ frame, rfl, Nat.le_refl _⟩

theorem Backed.signal (backed : p.Backed s rig.device) (member : slot ∈ p.slots) (queue : Queue) :
    p.Backed s (rig.call (.signal queue slot.fence slot.value)).2.device := by
  rcases ran : rig.call (.signal queue slot.fence slot.value) with ⟨failure | ⟨⟩, rig'⟩
  · obtain ⟨lists, fences⟩ := Rig.tables_of_call_error ran
    exact backed.congr lists fences
  · obtain ⟨lists, current, known, fresh, moved⟩ := Rig.fenceValue?_of_signal ran
    have queues : rig'.device.queueOf? = rig.device.queueOf? :=
      funext fun list => congrArg (List.lookup list) lists
    refine ⟨backed.fits, queues ▸ backed.lists, fun other owned => ?_, ?_⟩
    · rw [moved]
      split
      · rename_i same
        obtain rfl := List.inj_on_of_nodup_map backed.fits.apart owned member same
        exact ⟨other.value, Nat.le_refl _, rfl⟩
      · exact backed.fences other owned
    · obtain ⟨reached, here, waits⟩ := backed.waits
      rw [moved]
      split
      · rename_i same
        rw [same, known] at here
        cases here
        refine ⟨slot.value, rfl, fun value given => ?_⟩
        exact Nat.le_trans (waits value given) (Nat.le_of_lt fresh)
      · exact ⟨reached, here, waits⟩

theorem steady_backed (s : Schedule) : Steady fun p rig => p.Backed s rig.device where
  quiet _ quiet _ _ backed :=
    backed.congr (Rig.tables_of_quiet quiet).1 (Rig.tables_of_quiet quiet).2
  recording _ _ _ backed := backed
  raised _ _ fence backed := backed.raised fence
  signal _ _ fence _ queue found backed :=
    (backed.raised fence).signal (raised_mem_slots found) queue

theorem Backed.raiseFrame (backed : p.Backed s d) :
    ({ p with frameFence := p.frameFence.raised } : Player).Backed s d := by
  refine backed.grow rfl rfl fun later member => ?_
  rcases List.mem_append.mp member with own | frame
  · exact ⟨later, List.mem_append_left _ own, rfl, Nat.le_refl _⟩
  · rw [List.mem_singleton.mp frame]
    exact ⟨p.frameFence, p.frameFence_mem_slots, rfl, Nat.le_succ _⟩

theorem upholds_closeFrame_backed (set : Nat) :
    (closeFrame set).Upholds fun p rig => p.Backed s rig.device := by
  intro p rig backed
  have signalled := backed.raiseFrame.signal (frameFence_mem_slots _) p.frameFence.queue
  rw [run_closeFrame]
  split
  · rename_i rig' called
    have signal : rig.call (.signal p.frameFence.queue p.frameFence.raised.fence
        p.frameFence.raised.value) = (.ok (), rig') := called
    rw [signal] at signalled
    obtain ⟨_, _, known, fresh, moved⟩ := Rig.fenceValue?_of_signal signal
    refine ⟨signalled.fits.of_rewound rfl, signalled.lists, signalled.fences,
      p.frameFence.raised.value, ?_, ?_⟩
    · exact (moved p.frameFence.fence).trans (if_pos rfl)
    · obtain ⟨reached, here, waits⟩ := backed.waits
      cases here.symm.trans known
      intro value given
      rcases List.mem_or_eq_of_mem_set given with old | rfl
      · exact Nat.le_trans (waits value old) (Nat.le_of_lt fresh)
      · exact Nat.le_refl _
  · rename_i called
    have signal : rig.call (.signal p.frameFence.queue p.frameFence.raised.fence
        p.frameFence.raised.value) = _ := called
    rw [signal] at signalled
    exact signalled

theorem upholds_play_backed (s : Schedule) (scene : Scene) (frameIndex : Nat) :
    (play s scene frameIndex).Upholds fun p rig => p.Backed s rig.device :=
  (steady_backed s).play upholds_closeFrame_backed s scene frameIndex

end Player

/-! Making a player. -/

structure Kit.Backed (kit : Kit) (queues : List Queue) (d : Device) : Prop where
  numbered : d.Numbered
  lists : kit.lists.map d.queueOf? = queues.map some
  fences : ∀ slot ∈ kit.fences, d.fenceValue? slot.fence = some slot.value

namespace Kit

variable {kit after : Kit} {queues more : List Queue} {queue : Queue} {rig rig' : Rig}

theorem Backed.queueOf? {d : Device} (backed : kit.Backed queues d) {list : ListKey}
    (member : list ∈ kit.lists) : ∃ queue, d.queueOf? list = some queue := by
  have held : d.queueOf? list ∈ queues.map some := backed.lists ▸ List.mem_map_of_mem member
  obtain ⟨queue, _, same⟩ := List.mem_map.mp held
  exact ⟨queue, same.symm⟩

theorem Backed.addList (backed : kit.Backed queues rig.device)
    (ran : (Kit.addList queue).run kit rig = (.ok (), after, rig')) :
    after.Backed (queues ++ [queue]) rig'.device := by
  obtain ⟨list, _, _, called, ran⟩ := Op.run_bind_ok.mp ran
  rcases Op.run_call_ok called with ⟨rfl, device, answered, recorded, _⟩
  have numbered := backed.numbered.respond answered
  cases answered
  cases ran
  rw [recorded]
  refine ⟨⟨numbered.lists, numbered.fences⟩, ?_, backed.fences⟩
  dsimp only
  rw [List.map_append, List.map_append, List.map_singleton, List.map_singleton, ← backed.lists]
  congr 1
  · apply List.map_congr_left
    intro list member
    obtain ⟨queue, known⟩ := backed.queueOf? member
    rw [known]
    exact Device.lookup_append_of_some known _
  · exact congrArg List.singleton
      (Device.lookup_concat_fresh backed.numbered.lists (Nat.lt_succ_self _) queue)

theorem Backed.createFence {fence : FenceKey} (backed : kit.Backed queues rig.device)
    (ran : (Op.call .createFence : Op Kit FenceKey).run kit rig = (.ok fence, after, rig')) :
    after = kit ∧ kit.Backed queues rig'.device ∧ rig'.device.fenceValue? fence = some 0 := by
  rcases Op.run_call_ok ran with ⟨rfl, device, answered, recorded, _⟩
  have numbered := backed.numbered.respond answered
  cases answered
  rw [recorded]
  refine ⟨rfl, ⟨⟨numbered.lists, numbered.fences⟩, backed.lists, fun slot member => ?_⟩, ?_⟩
  · exact Device.lookup_append_of_some (backed.fences slot member) _
  · exact Device.lookup_concat_fresh backed.numbered.fences (Nat.lt_succ_self _) 0

theorem Backed.addFence (backed : kit.Backed queues rig.device)
    (ran : (Kit.addFence queue).run kit rig = (.ok (), after, rig')) :
    after.Backed queues rig'.device := by
  obtain ⟨fence, _, _, called, update⟩ := Op.run_bind_ok.mp ran
  obtain ⟨rfl, made, known⟩ := backed.createFence called
  cases update
  refine ⟨made.numbered, made.lists, fun slot member => ?_⟩
  rcases List.mem_append.mp member with old | new
  · exact made.fences slot old
  · exact List.mem_singleton.mp new ▸ known

theorem Backed.addLists (backed : kit.Backed queues rig.device)
    (ran : (more.forM Kit.addList).run kit rig = (.ok (), after, rig')) :
    after.Backed (queues ++ more) rig'.device := by
  induction more generalizing kit rig queues with
  | nil =>
    cases ran
    rwa [List.append_nil]
  | cons queue more ih =>
    obtain ⟨_, _, _, first, rest⟩ := Op.run_bind_ok.mp ran
    rw [← List.singleton_append, ← List.append_assoc]
    exact ih (backed.addList first) rest

theorem Backed.addFences (backed : kit.Backed queues rig.device)
    (ran : (more.forM Kit.addFence).run kit rig = (.ok (), after, rig')) :
    after.Backed queues rig'.device := by
  induction more generalizing kit rig with
  | nil =>
    cases ran
    exact backed
  | cons queue more ih =>
    obtain ⟨_, _, _, first, rest⟩ := Op.run_bind_ok.mp ran
    exact ih (backed.addFence first) rest

theorem backed_fill {s : Schedule} {count : Nat} {fence : FenceKey}
    (numbered : rig.device.Numbered)
    (ran : (fill s count).run {} rig = (.ok fence, kit, rig')) :
    kit.Backed (List.replicate count s.lists).flatten rig'.device ∧
      rig'.device.fenceValue? fence = some 0 := by
  have empty : ({} : Kit).Backed [] rig.device := ⟨numbered, rfl, by simp⟩
  obtain ⟨_, _, _, lists, ran⟩ := Op.run_bind_ok.mp ran
  obtain ⟨_, _, _, fences, called⟩ := Op.run_bind_ok.mp ran
  obtain ⟨rfl, made, known⟩ := ((empty.addLists lists).addFences fences).createFence called
  exact ⟨made, known⟩

theorem take_drop_flatten_replicate {α : Type} (xs : List α) {i count : Nat} (inside : i < count) :
    ((List.replicate count xs).flatten.drop (i * xs.length)).take xs.length = xs := by
  obtain ⟨rest, rfl⟩ := Nat.exists_eq_add_of_lt inside
  have front : (List.replicate i xs).flatten.length = i * xs.length := by simp
  rw [Nat.add_assoc, List.replicate_add, List.flatten_append, ← front, List.drop_left,
    List.replicate_succ, List.flatten_cons, List.take_left]

end Kit

namespace Player

variable {p : Player} {s : Schedule} {frameCount : Nat} {rig rig' : Rig}

theorem backed_make (numbered : rig.device.Numbered)
    (ran : (make s frameCount : Op Unit Player).run () rig = (.ok p, (), rig')) :
    p.Backed s rig'.device := by
  have made : p.MadeFor s frameCount rig' := ⟨rig, ran⟩
  have fits := made.fits
  obtain ⟨⟨result, kit⟩, _, _, aside, ran⟩ := Op.run_bind_ok.mp ran
  obtain ⟨filled, _⟩ := Op.run_aside_ok.mp aside
  cases result with
  | error failure =>
    obtain ⟨_, _, _, _, ran⟩ := Op.run_bind_ok.mp ran
    obtain ⟨_, _, _, _, failed⟩ := Op.run_bind_ok.mp ran
    cases failed
  | ok fence =>
    cases ran
    obtain ⟨backed, known⟩ := Kit.backed_fill numbered filled
    refine ⟨fits, fun set member => ?_, fun slot member => ?_, 0, known, fun value given => ?_⟩
    · obtain ⟨i, inside, rfl⟩ := List.mem_map.mp member
      rw [List.map_take, List.map_drop, backed.lists, ← List.map_drop, ← List.map_take,
        Kit.take_drop_flatten_replicate s.lists (List.mem_range.mp inside)]
    · rcases List.mem_append.mp member with own | frame
      · exact ⟨slot.value, Nat.le_refl _, backed.fences slot own⟩
      · rw [List.mem_singleton.mp frame]
        exact ⟨0, Nat.le_refl _, known⟩
    · exact Nat.le_of_eq (List.eq_of_mem_replicate given)

end Player

namespace Graph

structure Backed (g : Graph) (rig : Rig) : Prop where
  numbered : rig.device.Numbered
  player : ∀ c, g.compilation = some c → c.player.Backed c.schedule rig.device

variable {g g' : Graph} {rig rig' : Rig}

theorem backed_of_none (numbered : rig.device.Numbered) (none : g.compilation = none) :
    g.Backed rig where
  numbered := numbered
  player c held := by
    rw [none] at held
    cases held

theorem Backed.congr (backed : g.Backed rig) (compilation : g'.compilation = g.compilation)
    (numbered : rig'.device.Numbered) (lists : rig'.device.lists = rig.device.lists)
    (fences : rig'.device.fences = rig.device.fences) : g'.Backed rig' where
  numbered := numbered
  player c held := (backed.player c (compilation ▸ held)).congr lists fences

theorem upholds_drain_backed : drain.Upholds Backed := by
  intro g rig backed
  have leads := makes_drain g rig
  obtain ⟨lists, fences⟩ := leads.tables_of_quiet fun _ => Call.isQuiet_of_isWait
  exact backed.congr (keeps_drain g rig) (leads.numbered backed.numbered) lists fences

theorem backed_makeCompilation {b : Brief} {frameCount : Nat} {c : Compilation}
    (numbered : rig.device.Numbered)
    (ran : (makeCompilation b frameCount : Op Unit Compilation).run () rig = (.ok c, (), rig')) :
    c.player.Backed c.schedule rig'.device := by
  obtain ⟨schedule, _, rigMid, scheduled, ran⟩ := Op.run_bind_ok.mp ran
  obtain ⟨player, _, _, made, last⟩ := Op.run_bind_ok.mp ran
  have same : rigMid.device = rig.device := by
    obtain ⟨_, _, _, noted, rest⟩ := Op.run_bind_ok.mp scheduled
    cases noted
    split at rest <;> cases rest
    rfl
  cases last
  exact Player.backed_make (same ▸ numbered) made

theorem backed_build (numbered : rig.device.Numbered) (none : g.compilation = none) :
    (build.run g rig).2.1.Backed (build.run g rig).2.2 := by
  have built := (makes_build g rig).numbered numbered
  have placed := (makes_placeResources g rig).numbered numbered
  rcases ran : build.run g rig with ⟨failure | ⟨⟩, g', rig'⟩
  all_goals rw [ran] at built
  · exact backed_of_none built ((compilation_of_build_error ran).trans none)
  rw [build_eq] at ran
  obtain ⟨_, mid, rigMid, placing, ran⟩ := Op.run_bind_ok.mp ran
  rw [placing] at placed
  rw [Op.run_bind, Op.run_read] at ran
  obtain ⟨⟨result, ⟨⟩⟩, _, rigMade, aside, ran⟩ := Op.run_bind_ok.mp ran
  obtain ⟨making, rfl⟩ := Op.run_aside_ok.mp aside
  cases result with
  | error failure =>
    obtain ⟨_, _, _, _, failed⟩ := Op.run_bind_ok.mp ran
    cases failed
  | ok c =>
    refine ⟨built, fun c' held => ?_⟩
    have backed := backed_makeCompilation placed making
    dsimp only at ran
    split at ran <;> cases ran <;> cases held <;> exact backed.congr rfl rfl

theorem upholds_release_backed {α : Type} {next : Op Graph α}
    (ends : ∀ g rig, rig.device.Numbered → g.compilation = none →
      (next.run g rig).2.1.Backed (next.run g rig).2.2) :
    (release >>= fun _ => next).Upholds Backed := by
  refine upholds_of_release upholds_drain_backed fun g rig g' rig' backed ran => ?_
  have numbered := (makes_release g rig).numbered backed.numbered
  rw [ran] at numbered
  exact ends g' rig' numbered (compilation_of_release ran)

theorem upholds_compile_backed : compile.Upholds Backed := by
  refine upholds_release_backed fun g rig numbered none => ?_
  rw [Op.run_bind]
  exact backed_build numbered none

theorem upholds_setFrameCount_backed (n : Nat) : (setFrameCount n).Upholds Backed :=
  upholds_release_backed fun _ _ numbered none => backed_of_none numbered none

theorem upholds_reset_backed : reset.Upholds Backed :=
  upholds_release_backed fun _ _ numbered none => backed_of_none numbered none

theorem upholds_execute_backed : execute.Upholds Backed := by
  refine upholds_execute_of_play fun g rig c executed backed held => ?_
  have played := Player.upholds_play_backed c.schedule g.scene g.frameIndex c.player rig
    (backed.player c held)
  have lasting : Player.Lasting fun rig => rig.device.Numbered :=
    ⟨fun _ c numbered => Rig.numbered_call numbered c, fun _ _ numbered => numbered⟩
  refine ⟨lasting.play c.schedule g.scene g.frameIndex c.player rig backed.numbered, ?_⟩
  rintro _ ⟨⟩
  exact played

end Graph

namespace Session

variable {s : Session}

theorem backed_rebound (backed : s.graph.Backed s.rig) {r : ResourceId} {f : Copy → Copy} :
    (s.rebound (s.graph.rebind r f)).graph.Backed (s.rebound (s.graph.rebind r f)).rig := by
  obtain ⟨declaration, same⟩ := s.rebound_eq r f
  rw [same]
  exact ⟨backed.numbered, backed.player⟩

theorem Reachable.backed (reachable : s.Reachable) : s.graph.Backed s.rig := by
  induction reachable with
  | start config faults journal =>
    have empty : Device.Numbered {} := ⟨by simp, by simp⟩
    exact Graph.backed_of_none empty rfl
  | @act s reachable a backed =>
    cases a with
    | importResource | manage | declare | setFrameIndex | useData | clearData | plan
      | refuseResources =>
      exact backed.congr rfl ⟨backed.numbered.lists, backed.numbered.fences⟩ rfl rfl
    | update r native => exact backed_rebound backed
    | updateView r kind view => exact backed_rebound backed
    | setFrameCount n => exact Graph.upholds_setFrameCount_backed n s.graph s.rig backed
    | compile => exact Graph.upholds_compile_backed s.graph s.rig backed
    | execute => exact Graph.upholds_execute_backed s.graph s.rig backed
    | drain => exact Graph.upholds_drain_backed s.graph s.rig backed
    | reset => exact Graph.upholds_reset_backed s.graph s.rig backed

end Session

end RenderGraph
