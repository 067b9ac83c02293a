import RenderGraph.Proofs.CallsAccepted
import RenderGraph.Proofs.FrameOrder
import RenderGraph.Proofs.PlayerBacked
import RenderGraph.Proofs.SceneStaged
import RenderGraph.Proofs.ScheduleGrammar

/-! What executing comes to. A compiled graph has everything that a frame takes: its lists and
fences on the device, copies of what it has barriers for, and every pass that is recorded. Only a
call that is made to fail or a recorder keeps it from going through. -/

namespace RenderGraph

def Event.Within (e : Event) (s : Schedule) : Prop :=
  match e with
  | openList _ list | barriers list _ | record list _ | submit list => list.index < s.lists.length
  | sync _ _ fence => fence.index < s.fences.length

section

variable {s : Schedule} {live : List (PassId × Pass)} {blocks : List Block} {e : Event}

theorem Block.mem_layout (member : e ∈ layout blocks) :
    ∃ (i : Nat) (block : Block), blocks[i]? = some block ∧
      (e = .openList block.queue ⟨i⟩ ∨ e ∈ block.body ∨ e = .submit ⟨i⟩) := by
  obtain ⟨_, listed, member⟩ := List.mem_flatten.mp member
  obtain ⟨i, inside, rfl⟩ := List.mem_mapIdx.mp listed
  refine ⟨i, blocks[i], List.getElem?_eq_getElem inside, ?_⟩
  simpa [events, opened, or_assoc] using member

theorem Block.Admits.within {i : Nat} {queue : Queue} (inside : i < s.lists.length)
    (admits : Admits s.lists s.fences live i queue e) : e.Within s := by
  cases e with
  | openList | submit => exact absurd admits id
  | barriers list batch =>
    obtain ⟨rfl, _⟩ := admits
    exact inside
  | record list p =>
    obtain ⟨rfl, _⟩ := admits
    exact inside
  | sync signal wait fence =>
    obtain ⟨_, _, _, owner⟩ := admits
    exact (List.getElem?_eq_some_iff.mp owner).1

theorem Schedule.ConsistsOf.within (consists : s.ConsistsOf live blocks) (member : e ∈ s.cycle) :
    e.Within s := by
  rcases List.mem_append.mp member with event | gather
  · rw [consists.events] at event
    obtain ⟨i, block, held, part⟩ := Block.mem_layout event
    have inside : i < s.lists.length := by
      rw [consists.lists, List.length_map]
      exact (List.getElem?_eq_some_iff.mp held).1
    rcases part with rfl | body | rfl
    · exact inside
    · exact Block.Admits.within inside (consists.admits i block held e body)
    · exact inside
  · obtain ⟨⟨queue, i⟩, listed, rfl⟩ := List.mem_map.mp gather
    exact (List.getElem?_eq_some_iff.mp (List.mk_mem_zipIdx_iff_getElem?.mp listed)).1

end

namespace Player

namespace Frame

/-- What the recorders of the frame look up in vain. -/
def mishaps (f : Frame) : List Misuse :=
  f.schedule.recordedPasses.flatMap fun p =>
    ((f.scene.declaration.pass? p).bind (·.recorder)).elim [] fun resources =>
      resources.filterMap fun r => match f.scene.binding f.frameIndex r with
        | .ok _ => none
        | .error misuse => some misuse

def Baffles (f : Frame) (failure : Failure) : Prop :=
  ∃ misuse ∈ f.mishaps, failure = .misuse misuse

variable {f : Frame} {p : Player} {rig : Rig}

theorem mem_mishaps {list : ListId} {id : PassId} {pass : Pass} {resources : List ResourceId}
    {r : ResourceId} {misuse : Misuse} (recorded : .record list id ∈ f.schedule.events)
    (found : f.scene.declaration.pass? id = some pass) (bound : pass.recorder = some resources)
    (looked : r ∈ resources) (absent : f.scene.binding f.frameIndex r = .error misuse) :
    misuse ∈ f.mishaps := by
  refine List.mem_flatMap.mpr ⟨id, List.mem_filterMap.mpr ⟨_, recorded, rfl⟩, ?_⟩
  rw [found, Option.bind_some, bound]
  exact List.mem_filterMap.mpr ⟨r, looked, by rw [absent]⟩

theorem fares_record {list : ListId} {id : PassId} {pass : Pass}
    (recorded : .record list id ∈ f.schedule.events)
    (found : f.scene.declaration.pass? id = some pass) (key : ListKey) :
    (f.record key id pass).Fares f.Baffles p rig := by
  unfold record
  split
  · exact Op.fares_of_ok ⟨(), rfl⟩
  · rename_i resources bound
    refine (Op.fares_mapM_allow fun r looked misuse absent => ?_).bind fun bindings _ _ ran => ?_
    · exact ⟨misuse, mem_mishaps recorded found bound looked absent, rfl⟩
    · obtain ⟨_, rfl, rfl⟩ := Op.run_mapM_ok (R := f.Binds) (fun ran => Op.run_allow_ok.mp ran) ran
      exact ⟨Nat.le_refl _, Op.fares_of_ok ⟨(), rfl⟩⟩

theorem exists_run_resolve {x : Barrier} (some : f.scene.copies x.resource ≠ []) :
    ∃ made, (f.resolve x : Op Player DeviceBarrier).run p rig = (.ok made, p, rig) := by
  obtain ⟨resource, found⟩ := Scene.resource?_of_copies some
  obtain ⟨native, bound⟩ := Scene.native?_of_copies some f.frameIndex
  have allowed : f.scene.declaration.getResource x.resource = .ok resource := by
    rw [Declaration.getResource, found]
  unfold resolve
  rw [allowed, bound]
  cases x <;> exact ⟨_, rfl⟩

end Frame

variable {p : Player} {s : Schedule} {d : Device} {f : Frame} {rig : Rig}

theorem Backed.list (backed : p.Backed s d) {set : List ListKey} (owned : set ∈ p.sets) {i : Nat}
    (inside : i < s.lists.length) : ∃ list queue, set[i]? = some list ∧
      s.lists[i]? = some queue ∧ d.queueOf? list = some queue := by
  have same : (set.map d.queueOf?)[i]? = (s.lists.map some)[i]? := by rw [backed.lists set owned]
  have room : i < set.length := by rwa [(backed.fits.full set owned).1]
  rw [List.getElem?_map, List.getElem?_map, List.getElem?_eq_getElem inside,
    List.getElem?_eq_getElem room] at same
  exact ⟨set[i], s.lists[i], List.getElem?_eq_getElem room, List.getElem?_eq_getElem inside,
    Option.some.inj same⟩

theorem Backed.fence (backed : p.Backed s d) {i : Nat} (inside : i < s.fences.length) :
    ∃ slot, p.fences[i]? = some slot := by
  rw [← backed.fits.queues, List.length_map] at inside
  exact ⟨_, List.getElem?_eq_getElem inside⟩

structure Frame.Ready (f : Frame) : Prop where
  within : ∀ e ∈ f.schedule.cycle, e.Within f.schedule
  staged : f.schedule.StagedOn f.scene

theorem fares_handOver (backed : p.Backed s rig.device) {fence : Nat}
    (inside : fence < s.fences.length) (signaller : FenceSlot → Queue) (waiting : Queue) :
    (do
      let slot ← raise fence
      Op.call (.signal (signaller slot) slot.fence slot.value)
      Op.call (.wait waiting slot.fence slot.value)).Fares f.Baffles p rig := by
  obtain ⟨slot, found⟩ := backed.fence inside
  have member := raised_mem_slots found
  have raised := backed.raised fence
  have raising : (raise fence).run p rig = (.ok slot.raised, p.raised fence, rig) := by
    rw [run_raise, found]
  intro failure p' rig' failed
  rw [Op.run_bind, raising] at failed
  obtain ⟨reached, below, known⟩ := backed.fences slot
    (List.mem_append_left _ (List.mem_of_getElem? found))
  have accepts : rig.Accepts (.signal (signaller slot.raised) slot.fence slot.raised.value) :=
    Rig.accepts_signal known (Nat.lt_succ_of_le below)
  refine (Op.fares_call accepts).bind (fun _ mid rigMid signalling => ?_) failure p' rig' failed
  obtain ⟨signalled, rest⟩ := Prod.mk.inj signalling
  obtain ⟨rfl, rfl⟩ := Prod.mk.inj rest
  obtain ⟨_, _, known⟩ := (raised.signal member _).fences slot.raised member
  exact ⟨rig.refusals_le_call (.signal _ _ _), Op.fares_call (Rig.accepts_wait known)⟩

theorem fares_step (ready : f.Ready) (backed : p.Backed f.schedule rig.device)
    (owned : f.lists ∈ p.sets) {e : Event} (member : e ∈ f.schedule.cycle) :
    (step f e).Fares f.Baffles p rig := by
  have within := ready.within e member
  have played (other : ∀ signal wait fence, e ≠ .sync signal wait fence) :
      e ∈ f.schedule.events := by
    rcases List.mem_append.mp member with event | gather
    · exact event
    · obtain ⟨_, _, rfl⟩ := List.mem_map.mp gather
      exact absurd rfl (other _ _ _)
  cases e with
  | openList queue list =>
    obtain ⟨key, _, own, _, known⟩ := backed.list owned within
    exact .of_run (Op.run_entry own) (Op.fares_call (Rig.accepts_resetList known))
  | barriers list batch =>
    obtain ⟨key, _, own, _⟩ := backed.list owned within
    have copies := ready.staged.copies list batch (played fun _ _ _ => nofun)
    obtain ⟨made, resolved⟩ : ∃ made, (batch.mapM f.resolve : Op Player _).run p rig =
        (.ok made, p, rig) :=
      Op.exists_run_mapM fun x named => Frame.exists_run_resolve (copies x named)
    exact .of_run resolved <| .of_run (Op.run_entry own) <| Op.fares_call (rig.accepts_barrier _ _)
  | record list id =>
    obtain ⟨key, _, own, _⟩ := backed.list owned within
    have recorded := played fun _ _ _ => nofun
    obtain ⟨pass, declared⟩ := ready.staged.passes list id recorded
    have allowed : f.scene.declaration.getPass id = .ok pass := by
      rw [Declaration.getPass, declared]
    have found : (Op.allow (f.scene.declaration.getPass id) : Op Player Pass).run p rig =
        (.ok pass, p, rig) := by
      rw [allowed, Op.run_allow]
    exact .of_run found <| .of_run (Op.run_entry own) <| Frame.fares_record recorded declared key
  | submit list =>
    obtain ⟨key, queue, own, opened, known⟩ := backed.list owned within
    exact .of_run (Op.run_entry opened) <| .of_run (Op.run_entry own) <|
      Op.fares_call (Rig.accepts_submit known)
  | sync signal wait fence => exact fares_handOver backed within (fun _ => signal) wait

theorem fares_cycle (ready : f.Ready) (backed : p.Backed f.schedule rig.device)
    (owned : f.lists ∈ p.sets) : (f.schedule.cycle.forM (step f)).Fares f.Baffles p rig := by
  have steady := (steady_backed f.schedule).and (steady_sets fun sets => f.lists ∈ sets)
  exact Op.fares_forM (fun e => steady.step f e)
    (fun e n => (lasting_refusals n).steady.step f e)
    (fun e member p rig holds => fares_step ready holds.1 holds.2 member) ⟨backed, owned⟩

theorem fares_reclaim (backed : p.Backed s rig.device) (set : Nat) :
    (reclaim set).Fares f.Baffles p rig := by
  obtain ⟨reached, known, waits⟩ := backed.waits
  refine .of_run (Op.run_read p rig) ?_
  dsimp only
  split
  · rename_i positive
    refine Op.fares_call (Rig.accepts_waitCpu known ?_)
    rw [List.getD_eq_getElem?_getD] at positive ⊢
    cases found : p.setValues[set]? with
    | none => exact Nat.zero_le _
    | some value => exact waits value (List.mem_of_getElem? found)
  · exact Op.fares_of_ok ⟨(), rfl⟩

theorem fares_closeFrame (backed : p.Backed s rig.device) (set : Nat) :
    (closeFrame set).Fares f.Baffles p rig := by
  intro failure p' rig' failed
  obtain ⟨reached, below, known⟩ := backed.fences p.frameFence p.frameFence_mem_slots
  have accepts : rig.Accepts
      (.signal p.frameFence.queue p.frameFence.fence p.frameFence.raised.value) :=
    Rig.accepts_signal known (Nat.lt_succ_of_le below)
  rw [run_closeFrame] at failed
  split at failed
  · cases failed
  · rename_i called
    cases failed
    exact Or.inr (Rig.refused_of_accepts accepts called)

theorem fares_play {scene : Scene} {frameIndex : Nat} (backed : p.Backed s rig.device)
    (ready : Frame.Ready ⟨s, scene, frameIndex, p.nextLists⟩) :
    (play s scene frameIndex).Fares (Frame.Baffles ⟨s, scene, frameIndex, p.nextLists⟩) p rig := by
  have steady := steady_backed s
  intro failure p' rig' failed
  rw [run_play backed.fits] at failed
  refine (fares_reclaim backed _).bind (fun _ mid rigMid reclaiming => ⟨?_, ?_⟩)
    failure p' rig' failed
  · exact ((lasting_refusals _).steady.reclaim _).of_run reclaiming (Nat.le_refl _)
  · obtain ⟨rfl, _⟩ := reclaim_ok reclaiming
    have backed := (steady.reclaim _).of_run reclaiming backed
    have cycles := fares_cycle ready backed backed.fits.nextLists_mem
    refine cycles.bind fun _ last rigLast stepping => ⟨?_, ?_⟩
    · have counts := Op.upholds_forM s.cycle fun e =>
        (lasting_refusals rigMid.refusals).steady.step ⟨s, scene, frameIndex, p.nextLists⟩ e
      exact counts.of_run stepping (Nat.le_refl _)
    · have upholds := Op.upholds_forM s.cycle fun e =>
        steady.step ⟨s, scene, frameIndex, p.nextLists⟩ e
      exact fares_closeFrame (upholds.of_run stepping backed) _

end Player

namespace Graph

def mishaps (g : Graph) : List Misuse :=
  match g.compilation with
  | some c => Player.Frame.mishaps ⟨c.schedule, g.scene, g.frameIndex, c.player.nextLists⟩
  | none => []

theorem fares_execute {g : Graph} {rig : Rig} (compiled : g.isCompiled = true) (sound : g.Sound)
    (backed : g.Backed rig) (staged : g.Staged) :
    execute.Fares (fun failure => ∃ misuse ∈ g.mishaps, failure = .misuse misuse) g rig := by
  obtain ⟨some, clean⟩ : g.compilation.isSome = true ∧ g.dirty = false := by
    simpa [isCompiled] using compiled
  obtain ⟨c, held⟩ := Option.isSome_iff_exists.mp some
  obtain ⟨b, closed, made⟩ := (sound c held).scheduled
  obtain ⟨blocks, consists⟩ := Brief.consists_of_schedule closed made
  have ready : Player.Frame.Ready ⟨c.schedule, g.scene, g.frameIndex, c.player.nextLists⟩ :=
    ⟨fun e => consists.within, staged clean c held⟩
  have plays := Player.fares_play (backed.player c held) ready
  intro failure g' rig' failed
  rw [run_execute clean held] at failed
  rcases ran : (Player.play c.schedule g.scene g.frameIndex).run c.player rig with
    ⟨result, player, after⟩
  rw [ran] at failed
  cases failed
  unfold mishaps
  rw [held]
  exact plays failure player _ ran

end Graph

namespace Session

variable {s : Session}

/-- Executing a compiled graph goes through, whatever has been done and has failed before, provided
that no call is made to fail. The one exception is a misuse by a recorder, which looks up something
that is not declared or has no size. -/
theorem execute_goes_through (reachable : s.Reachable) (compiled : s.graph.isCompiled = true)
    (spared : (s.act .execute).rig.refusals = s.rig.refusals) :
    (Graph.execute.run s.graph s.rig).1 = .ok () ∨
      ∃ misuse ∈ s.graph.mishaps,
        (Graph.execute.run s.graph s.rig).1 = .error (.misuse misuse) := by
  have fares := Graph.fares_execute compiled reachable.upheld.2 reachable.backed reachable.staged
  rcases ran : Graph.execute.run s.graph s.rig with ⟨failure | ⟨⟩, g, rig⟩
  · have left : (s.act .execute).rig = rig := congrArg (·.2.2) ran
    rcases fares failure g rig ran with ⟨misuse, mishap, rfl⟩ | ⟨more, _⟩
    · exact Or.inr ⟨misuse, mishap, rfl⟩
    · rw [← left, spared] at more
      exact absurd more (Nat.lt_irrefl _)
  · exact Or.inl rfl

/-! The image from before, which is looked up where it is drawn. The device has lost a signal in a
frame already. -/

def displayed : Session := [
  .manage "image" { extent := .texture 8 8, format := .rgba8Unorm } .shaderRead,
  .declare "blur" .compute [.write ⟨0⟩ "image" .unorderedWrite []] none,
  .declare "draw" .graphics
    [.read ⟨0⟩ "image" .pixelShaderRead [], .sideEffects true]
    (some [⟨0⟩])].foldl act (start {} [] {})

def displayedCull : CullResult :=
  ⟨{ passRefs := [1, 0], resourceRefs := [1], live := [true] }, []⟩

theorem displayed_cull : displayed.graph.declaration.cull = displayedCull := by
  unfold displayed displayedCull
  cbv

def displayedBuilt : Session := displayed.built displayedCull

theorem displayed_compiles : displayed.Does Graph.compile displayedBuilt :=
  does_compile_of_fresh (by decide +kernel) (by decide +kernel) displayed_cull (by decide +kernel)

def faltered : Session := [
  .plan [{ method := .signal, error := .fence "device lost" }],
  .execute].foldl act displayedBuilt

theorem faltered_reachable : faltered.Reachable := by
  have reachable : displayed.Reachable := (Reachable.start {} [] {}).foldl _
  have built : displayedBuilt.Reachable := displayed_compiles.after_eq ▸ reachable.act .compile
  exact built.foldl _

theorem faltered_executes : faltered.Reachable ∧ faltered.graph.isCompiled = true ∧
    faltered.rig.refusals = 1 ∧ (faltered.act .execute).rig.refusals = faltered.rig.refusals ∧
    (Graph.execute.run faltered.graph faltered.rig).1 = .ok () := by
  have compiled : faltered.graph.isCompiled = true := by decide +kernel
  have spared : (faltered.act .execute).rig.refusals = faltered.rig.refusals := by decide +kernel
  have found : faltered.graph.mishaps = [] := by decide +kernel
  refine ⟨faltered_reachable, compiled, by decide +kernel, spared, ?_⟩
  rcases execute_goes_through faltered_reachable compiled spared with ok | ⟨misuse, mishap, _⟩
  · exact ok
  · rw [found] at mishap
    cases mishap

end Session

end RenderGraph
