import RenderGraph.Proofs.AttemptTraffic
import RenderGraph.Proofs.CurrentSchedule
import RenderGraph.Proofs.ListWindows
import RenderGraph.Proofs.PlayerBacked

/-! A frame replays its schedule faithfully. On the lists of the next set the device gets what the
schedule has for its lists, each thing once and in the same order, and every list is used between
its reset and its submission only. -/

namespace RenderGraph

def Event.batched? : Event → Option (ListId × List Barrier)
  | barriers list batch => some (list, batch)
  | _ => none

namespace Traffic

def resets? : Traffic → Option ListKey
  | command (.resetList list) => some list
  | _ => none

def submits? : Traffic → Option (Queue × ListKey)
  | command (.submit queue list) => some (queue, list)
  | _ => none

def batched? : Traffic → Option (ListKey × List DeviceBarrier)
  | command (.barrier list barriers) => some (list, barriers)
  | _ => none

def recording? : Traffic → Option Recording
  | recording run => some run
  | _ => none

def uses? : Traffic → Option ListKey
  | command (.barrier list _) => some list
  | command (.submit _ list) => some list
  | recording run => some run.list
  | _ => none

def Paces : Traffic → Prop
  | command (.signal ..) | command (.wait ..) | command (.waitCpu ..) => True
  | _ => False

theorem unseen_of_paces {x : Traffic} (paces : x.Paces) :
    x.resets? = none ∧ x.submits? = none ∧ x.batched? = none ∧ x.recording? = none ∧
      x.uses? = none := by
  cases x with
  | command sent => cases sent <;> first | exact ⟨rfl, rfl, rfl, rfl, rfl⟩ | exact paces.elim
  | refused | recording => exact paces.elim

end Traffic

theorem eq_of_forall₂_range {α : Type} {xs ys : List α}
    (looked : List.Forall₂ (fun (list : ListId) x => xs[list.index]? = some x)
      ((List.range xs.length).map ListId.mk) ys) : ys = xs := by
  rw [List.forall₂_map_left_iff] at looked
  have same : List.Forall₂ Eq ((List.range xs.length).map (xs[·]?)) (ys.map some) :=
    List.forall₂_map_left_iff.mpr (List.forall₂_map_right_iff.mpr looked)
  rw [List.forall₂_eq_eq_eq] at same
  have whole : (List.range xs.length).map (xs[·]?) = xs.map some := by
    refine List.ext_getElem (by simp) fun i _ bound => ?_
    simp [List.getElem?_eq_getElem (by simpa using bound : i < xs.length)]
  exact (List.map_injective_iff.mpr (Option.some_injective α) (whole.symm.trans same)).symm

namespace Player

namespace Frame

variable {f : Frame} {p after : Player} {e : Event} {events done : List Event}
  {traffic before late sent : List Traffic} {x : Traffic} {key : ListKey}

theorem Replays.views {γ δ : Type} {view : Event → Option γ} {seen : Traffic → Option δ}
    {R : γ → δ → Prop} (replays : f.Replays p events traffic after)
    (each : ∀ e ∈ events, ∀ p sent after, f.Carries p e sent after →
      List.Forall₂ R (view e).toList (sent.filterMap seen)) :
    List.Forall₂ R (events.filterMap view) (traffic.filterMap seen) := by
  induction replays with
  | nil => exact .nil
  | @cons _ _ _ e events _ _ one _ ih =>
    have rest := ih fun e member => each e (List.mem_cons_of_mem _ member)
    rw [List.filterMap_eq_flatMap_toList, List.flatMap_cons, ← List.filterMap_eq_flatMap_toList,
      List.filterMap_append]
    exact List.rel_append (each e List.mem_cons_self _ _ _ one) rest

theorem Carries.resets (carries : f.Carries p e sent after) :
    List.Forall₂ (fun (list : ListId) key => f.lists[list.index]? = some key) e.opened?.toList
      (sent.filterMap Traffic.resets?) := by
  cases carries with
  | openList own => exact .cons own .nil
  | barriers | silent | record | submit | sync => exact .nil

theorem Carries.submits (carries : f.Carries p e sent after) :
    List.Forall₂ (fun (list : ListId) x => (f.schedule.lists.zip f.lists)[list.index]? = some x)
      e.submitted?.toList (sent.filterMap Traffic.submits?) := by
  cases carries with
  | submit opened own => exact .cons (List.getElem?_zip_eq_some.mpr ⟨opened, own⟩) .nil
  | openList | barriers | silent | record | sync => exact .nil

def Issues (f : Frame) (planned : ListId × List Barrier)
    (issued : ListKey × List DeviceBarrier) : Prop :=
  f.lists[planned.1.index]? = some issued.1 ∧ List.Forall₂ f.Resolves planned.2 issued.2

theorem Carries.batches (carries : f.Carries p e sent after) :
    List.Forall₂ f.Issues e.batched?.toList (sent.filterMap Traffic.batched?) := by
  cases carries with
  | barriers own resolved => exact .cons ⟨own, resolved⟩ .nil
  | openList | silent | record | submit | sync => exact .nil

def records (f : Frame) (p : PassId) : Bool :=
  match f.scene.declaration.getPass p with
  | .ok pass => pass.recorder.isSome
  | .error _ => false

/-- The recorder of the pass runs on the key of the list. -/
def Runs (f : Frame) (list : ListId) (p : PassId) (run : Recording) : Prop :=
  ∃ pass resources bindings, f.scene.declaration.getPass p = .ok pass ∧
    pass.recorder = some resources ∧ List.Forall₂ f.Binds resources bindings ∧
    f.lists[list.index]? = some run.list ∧
    run = ⟨p, pass.name, pass.queue, run.list, f.frameIndex, bindings⟩

theorem Carries.recordings (carries : f.Carries p e sent after) :
    List.Forall₂ (fun q run => ∃ list, e = .record list q ∧ f.Runs list q run)
      (e.recorded?.filter f.records).toList (sent.filterMap Traffic.recording?) := by
  cases carries with
  | @silent list id key pass own found unbound =>
    have none : f.records id = false := by
      rw [records, found]
      simp [unbound]
    simp [Event.recorded?, none]
  | @record list id key pass resources bindings own found bound looked =>
    have some : f.records id = true := by
      rw [records, found]
      simp [bound]
    simp only [Event.recorded?, Option.filter_some, some, if_true, Option.toList_some]
    exact .cons ⟨list, rfl, pass, resources, bindings, found, bound, looked, own, rfl⟩ .nil
  | openList | barriers | submit | sync => exact .nil

theorem Carries.alone_of_uses (carries : f.Carries p e sent after) (inside : x ∈ sent)
    (uses : x.uses? = some key) : sent = [x] := by
  cases carries with
  | openList | barriers | record | submit => rw [List.mem_singleton.mp inside]
  | silent => cases inside
  | sync =>
    rcases List.mem_cons.mp inside with rfl | last
    · cases uses
    · rw [List.mem_singleton.mp last] at uses
      cases uses

theorem Carries.uses (carries : f.Carries p e [x] after) (uses : x.uses? = some key) :
    ∃ list, e.uses? = some list ∧ f.lists[list.index]? = some key := by
  cases carries with
  | openList => cases uses
  | barriers own | record own | submit _ own =>
    cases uses
    exact ⟨_, rfl, own⟩

theorem Replays.reset_of_openList (replays : f.Replays p events traffic after) {queue : Queue}
    {list : ListId} (opened : .openList queue list ∈ events)
    (own : f.lists[list.index]? = some key) : .command (.resetList key) ∈ traffic := by
  obtain ⟨done, rest, rfl⟩ := List.append_of_mem opened
  obtain ⟨mid, first, second, _, later, rfl⟩ := replays.split
  cases later with
  | cons one _ =>
    cases one with
    | openList own' =>
      cases own.symm.trans own'
      simp

end Frame

variable {s : Schedule} {scene : Scene} {frameIndex : Nat} {p after : Player}
  {traffic before late : List Traffic} {x : Traffic} {key : ListKey}
  {live : List (PassId × Pass)} {blocks : List Block}

theorem Frame.Replays.window {f : Frame} (replays : f.Replays p f.schedule.events traffic after)
    (distinct : f.lists.Nodup) (consists : f.schedule.ConsistsOf live blocks)
    (split : traffic = before ++ x :: late) (uses : x.uses? = some key) :
    .command (.resetList key) ∈ before ∧ ∀ queue, .command (.submit queue key) ∉ before := by
  obtain ⟨done, e, rest, mid, last, cut, replayed, carries, _⟩ :=
    replays.cut (fun carries inside => carries.alone_of_uses inside uses) split
  obtain ⟨list, used, own⟩ := carries.uses uses
  rw [consists.events] at cut
  obtain ⟨⟨queue, opened⟩, unsubmitted⟩ := consists.tidy.window cut used
  exact ⟨replayed.reset_of_openList opened own, replayed.submit_notMem distinct own unsubmitted⟩

theorem paces_of_closing {f : Frame} (gathers : f.Replays p s.closing traffic after) :
    ∀ x ∈ traffic, x.Paces := by
  intro x member
  obtain ⟨e, gather, mid, sent, next, carries, inside, _⟩ := gathers.exists_carries member
  obtain ⟨_, _, rfl⟩ := List.mem_map.mp gather
  cases carries with
  | sync =>
    rcases List.mem_cons.mp inside with rfl | inside
    · trivial
    · rw [List.mem_singleton.mp inside]
      trivial

theorem Turn.exists_replays (turn : p.Turn s scene frameIndex traffic after) :
    ∃ first body last mid, traffic = first ++ (body ++ last) ∧
      Frame.Replays ⟨s, scene, frameIndex, p.nextLists⟩ p s.events body mid ∧
      (∀ x ∈ first, x.Paces) ∧ ∀ x ∈ last, x.Paces := by
  cases turn with
  | @mk traffic mid replays =>
    obtain ⟨between, body, gathering, events, gathers, rfl⟩ := replays.split
    refine ⟨p.reclaims, body, gathering ++ [mid.closes], between, ?_, events, ?_, ?_⟩
    · simp only [List.append_assoc]
    · intro x wait
      simp only [reclaims] at wait
      split at wait
      · rw [List.mem_singleton.mp wait]
        trivial
      · cases wait
    · intro x member
      rcases List.mem_append.mp member with gather | close
      · exact paces_of_closing gathers x gather
      · rw [List.mem_singleton.mp close]
        trivial

theorem Turn.views {γ δ : Type} (view : Event → Option γ) (seen : Traffic → Option δ)
    {R : γ → δ → Prop} (turn : p.Turn s scene frameIndex traffic after)
    (unseen : ∀ x : Traffic, x.Paces → seen x = none)
    (each : ∀ e ∈ s.events, ∀ start sent after,
      Frame.Carries ⟨s, scene, frameIndex, p.nextLists⟩ start e sent after →
      List.Forall₂ R (view e).toList (sent.filterMap seen)) :
    List.Forall₂ R (s.events.filterMap view) (traffic.filterMap seen) := by
  obtain ⟨first, body, last, mid, rfl, replays, before, later⟩ := turn.exists_replays
  have none {xs : List Traffic} (paces : ∀ x ∈ xs, x.Paces) : xs.filterMap seen = [] :=
    List.filterMap_eq_nil_iff.mpr fun x member => unseen x (paces x member)
  rw [List.filterMap_append, List.filterMap_append, none before, none later, List.nil_append,
    List.append_nil]
  exact replays.views each

theorem Turn.window (turn : p.Turn s scene frameIndex traffic after) (fits : p.Fits s)
    (consists : s.ConsistsOf live blocks) (split : traffic = before ++ x :: late)
    (uses : x.uses? = some key) :
    .command (.resetList key) ∈ before ∧ ∀ queue, .command (.submit queue key) ∉ before := by
  obtain ⟨first, body, last, mid, rfl, replays, early, later⟩ := turn.exists_replays
  have unpaced (paces : x.Paces) : False := by
    rw [(Traffic.unseen_of_paces paces).2.2.2.2] at uses
    cases uses
  obtain ⟨between, rfl, inside⟩ := cut_append_right split fun member => unpaced (early x member)
  obtain ⟨_, here, _⟩ := cut_append inside fun member => unpaced (later x member)
  obtain ⟨reset, unsubmitted⟩ := replays.window fits.nextLists.2 consists here uses
  refine ⟨List.mem_append_right _ reset, fun queue member => ?_⟩
  rcases List.mem_append.mp member with wait | inside
  · exact early _ wait
  · exact unsubmitted queue inside

end Player

namespace Session

variable {s t : Session} {c : Compilation}

/-- The next frame of the session. -/
def frame (s : Session) (c : Compilation) : Player.Frame :=
  ⟨c.schedule, s.graph.scene, s.graph.frameIndex, c.player.nextLists⟩

/-- The recorder of a pass runs on a list of its queue, and finds for every resource that it looks
up what stands behind the resource in the frame. -/
def Runs (s : Session) (entry : PassId × Pass) (run : Recording) : Prop :=
  s.rig.device.queueOf? run.list = some entry.2.queue ∧
    ∃ resources bindings, entry.2.recorder = some resources ∧
      List.Forall₂ (fun r binding => s.graph.scene.binding s.graph.frameIndex r = .ok binding)
        resources bindings ∧
      run = ⟨entry.1, entry.2.name, entry.2.queue, run.list, s.graph.frameIndex, bindings⟩

/-- The traffic of a frame is that of the compilation's schedule on the next set of lists. -/
structure ReplaysFaithfully (s : Session) (c : Compilation) (traffic : List Traffic) : Prop where
  set : c.player.sets[c.player.frames % c.player.sets.length]? = some c.player.nextLists
  distinct : c.player.nextLists.Nodup
  queues : c.player.nextLists.map s.rig.device.queueOf? = c.schedule.lists.map some
  resets : traffic.filterMap Traffic.resets? = c.player.nextLists
  submits : traffic.filterMap Traffic.submits? = c.schedule.lists.zip c.player.nextLists
  window : ∀ before x late key, traffic = before ++ x :: late → x.uses? = some key →
    .command (.resetList key) ∈ before ∧ ∀ queue, .command (.submit queue key) ∉ before
  recordings : List.Forall₂ s.Runs
    (s.graph.declaration.surviving.filter (·.2.recorder.isSome))
    (traffic.filterMap Traffic.recording?)
  declared : (traffic.filterMap Traffic.recording?).Pairwise fun a b => a.pass.index < b.pass.index
  batches : List.Forall₂ (s.frame c).Issues (c.schedule.events.filterMap Event.batched?)
    (traffic.filterMap Traffic.batched?)

theorem Does.consists (reachable : s.Reachable) (does : s.Does Graph.execute t)
    (held : s.graph.compilation = some c) :
    ∃ blocks, c.schedule.ConsistsOf s.graph.declaration.surviving blocks := by
  have clean : s.graph.dirty = false := by
    cases dirty : s.graph.dirty with
    | false => rfl
    | true =>
      have uncompiled : s.graph.isCompiled = false := by
        rw [Graph.isCompiled, dirty, Bool.not_true, Bool.and_false]
      cases (Graph.run_execute_of_not_isCompiled uncompiled s.rig).symm.trans does
  have made : s.graph.culledBrief.schedule = .ok c.schedule := reachable.isCurrent clean c held
  have closed : s.graph.culledBrief.declaration.Closed := reachable.closed
  obtain ⟨blocks, consists⟩ := Brief.consists_of_schedule closed made
  exact ⟨blocks, consists⟩

theorem filter_recordedPasses {s : Session} {live : List (PassId × Pass)}
    (declared : ∀ entry ∈ live, s.graph.declaration.pass? entry.1 = some entry.2) :
    (live.map Prod.fst).filter (s.frame c).records =
      (live.filter (·.2.recorder.isSome)).map Prod.fst := by
  rw [List.filter_map]
  congr 1
  refine List.filter_congr fun entry member => ?_
  simp [Player.Frame.records, frame, Graph.scene, Declaration.getPass, declared entry member]

theorem recordings_of_turn {live : List (PassId × Pass)} {blocks : List Block}
    {traffic : List Traffic} {after : Player} (consists : c.schedule.ConsistsOf live blocks)
    (declared : ∀ entry ∈ live, s.graph.declaration.pass? entry.1 = some entry.2)
    (queues : c.player.nextLists.map s.rig.device.queueOf? = c.schedule.lists.map some)
    (turn : c.player.Turn c.schedule s.graph.scene s.graph.frameIndex traffic after) :
    List.Forall₂ s.Runs (live.filter (·.2.recorder.isSome))
      (traffic.filterMap Traffic.recording?) := by
  have seen := turn.views (fun e => e.recorded?.filter (s.frame c).records)
    Traffic.recording?
    (fun x paces => (Traffic.unseen_of_paces paces).2.2.2.1)
    (R := fun q run => ∃ list, .record list q ∈ c.schedule.events ∧ (s.frame c).Runs list q run)
    fun e member start sent last carries => carries.recordings.imp fun q run => by
      rintro ⟨list, rfl, runs⟩
      exact ⟨list, member, runs⟩
  have recorded : c.schedule.events.filterMap (fun e => e.recorded?.filter (s.frame c).records) =
      (live.filter (·.2.recorder.isSome)).map Prod.fst := by
    rw [← filter_recordedPasses declared, ← consists.recorded, Schedule.recordedPasses,
      List.filter_filterMap]
  rw [recorded, List.forall₂_map_left_iff] at seen
  have both := (List.forall₂_and_left _ _).mpr
    ⟨fun entry member => (List.mem_filter.mp member).1, seen⟩
  refine both.imp fun entry run => ?_
  rintro ⟨member, list, event, pass, resources, bindings, found, bound, looked, own, same⟩
  have here : pass = entry.2 := by
    have held := declared entry member
    have found : s.graph.declaration.getPass entry.1 = .ok pass := found
    rw [Declaration.getPass, held] at found
    cases found
    rfl
  obtain ⟨other, survives, queue⟩ := consists.queue_of_record event
  have again : other = entry.2 :=
    Option.some.inj ((declared _ survives).symm.trans (declared entry member))
  subst here again
  refine ⟨?_, resources, bindings, bound, looked, same⟩
  have known : (c.player.nextLists.map s.rig.device.queueOf?)[list.index]? =
      (c.schedule.lists.map some)[list.index]? := by rw [queues]
  have own : c.player.nextLists[list.index]? = some run.list := own
  have queue : c.schedule.lists[list.index]? = some entry.2.queue := queue
  rw [List.getElem?_map, List.getElem?_map, own, queue] at known
  exact Option.some.inj known

theorem lists_of_turn {live : List (PassId × Pass)} {blocks : List Block} {traffic : List Traffic}
    {after : Player} (consists : c.schedule.ConsistsOf live blocks)
    (fits : c.player.Fits c.schedule)
    (turn : c.player.Turn c.schedule s.graph.scene s.graph.frameIndex traffic after) :
    traffic.filterMap Traffic.resets? = c.player.nextLists ∧
      traffic.filterMap Traffic.submits? = c.schedule.lists.zip c.player.nextLists := by
  have resets := turn.views Event.opened? Traffic.resets?
    (fun _ paces => (Traffic.unseen_of_paces paces).1) fun _ _ _ _ _ carries => carries.resets
  have submits := turn.views Event.submitted? Traffic.submits?
    (fun _ paces => (Traffic.unseen_of_paces paces).2.1) fun _ _ _ _ _ carries => carries.submits
  have count : c.player.nextLists.length = blocks.length :=
    fits.nextLists.1.trans consists.length_lists
  have zipped : (c.schedule.lists.zip c.player.nextLists).length = blocks.length := by
    rw [List.length_zip, count, consists.length_lists, Nat.min_self]
  rw [consists.events, consists.tidy.opened, ← count] at resets
  rw [consists.events, consists.tidy.submitted, ← zipped] at submits
  exact ⟨eq_of_forall₂_range resets, eq_of_forall₂_range submits⟩

theorem passes_of_runs {entries : List (PassId × Pass)} {runs : List Recording}
    (related : List.Forall₂ s.Runs entries runs) : runs.map (·.pass) = entries.map Prod.fst := by
  have same : List.Forall₂ Eq (entries.map Prod.fst) (runs.map (·.pass)) := by
    rw [List.forall₂_map_left_iff, List.forall₂_map_right_iff]
    refine related.imp fun entry run => ?_
    rintro ⟨_, _, _, _, _, same⟩
    rw [same]
  rw [List.forall₂_eq_eq_eq] at same
  exact same.symm

/-- Whatever a caller has done before, a frame that goes through replays the schedule faithfully:
every list of the next set is reset once and then submitted once, to its own queue; the recorders
of the surviving passes run once each, in the order of declaration, and no others do; the batches
of the schedule are issued once each, in order, for what is behind their resources in the frame; and
all of it happens on the lists while they are open. -/
theorem replay_faithful (reachable : s.Reachable) (does : s.Does Graph.execute t) :
    ∃ c traffic, s.graph.compilation = some c ∧
      t.rig.traffic.toList = s.rig.traffic.toList ++ traffic ∧ s.ReplaysFaithfully c traffic := by
  obtain ⟨c, player, held, played, _⟩ := does.executed
  have fits := (reachable.upheld.2 c held).fits
  obtain ⟨traffic, added, turn⟩ := Player.play_ok fits played
  obtain ⟨blocks, consists⟩ := does.consists reachable held
  have inside : c.player.frames % c.player.sets.length < c.player.sets.length :=
    Nat.mod_lt _ fits.some
  have declared : ∀ entry ∈ s.graph.declaration.surviving,
      s.graph.declaration.pass? entry.1 = some entry.2 := fun entry member =>
    (Declaration.mem_survivors.mp member).1
  have queues := (reachable.backed.player c held).lists _ fits.nextLists_mem
  have recordings := recordings_of_turn consists declared queues turn
  have lists := lists_of_turn consists fits turn
  refine ⟨c, traffic, held, added, ?_, fits.nextLists.2, queues, lists.1, lists.2,
    fun _ _ _ _ => turn.window fits consists, recordings, ?_, ?_⟩
  · rw [Player.nextLists, Player.nextSet, List.getD_eq_getElem?_getD,
      List.getElem?_eq_getElem inside, Option.getD_some]
  · have rising : (s.graph.declaration.surviving.map Prod.fst).Pairwise fun p q =>
        p.index < q.index :=
      List.pairwise_map.mpr (s.graph.declaration.pairwise_survivors _)
    have passes : ((traffic.filterMap Traffic.recording?).map (·.pass)).Pairwise fun p q =>
        p.index < q.index := by
      rw [passes_of_runs recordings]
      exact rising.sublist (List.filter_sublist.map Prod.fst)
    rw [List.pairwise_map] at passes
    exact passes
  · exact turn.views Event.batched? Traffic.batched?
      (fun _ paces => (Traffic.unseen_of_paces paces).2.2.1)
      fun _ _ _ _ _ carries => carries.batches

/-! An image with a copy for each of two frames, which one pass uploads and another one draws from.
The pass between them is culled. -/

def looped : Session := [
  .declare "upload" .copy
    [.create { extent := .texture 8 8, format := .rgba8Unorm, buffered := true } "image" .copyDest
      []]
    (some [⟨0⟩]),
  .declare "unused" .graphics
    [.create { extent := .texture 8 8, format := .rgba8Unorm } "scratch" .colorTarget []]
    (some []),
  .declare "draw" .graphics
    [.read ⟨0⟩ "image" .pixelShaderRead [], .sideEffects true]
    (some [⟨0⟩]),
  .setFrameIndex 1].foldl act (start {} [] {})

def loopedCull : CullResult :=
  ⟨{ passRefs := [1, 0, 0], resourceRefs := [1, 0], live := [true, false] }, [.culled ⟨1⟩]⟩

theorem looped_cull : looped.graph.declaration.cull = loopedCull := by
  unfold looped loopedCull
  cbv

def loopedBuilt : Session := looped.built loopedCull

theorem looped_compiles : looped.Does Graph.compile loopedBuilt :=
  does_compile_of_fresh (by decide +kernel) (by decide +kernel) looped_cull (by decide +kernel)

def loopedOnce : Session := loopedBuilt.act .execute

def loopedBinding : Binding where
  resource := ⟨0⟩
  native := some ⟨3⟩
  views := (PerView.fill none).set .shaderRead (some ⟨4⟩)
  bytes := 256

def loopedTraffic : List Traffic := [
  .command (.resetList ⟨7⟩),
  .recording ⟨⟨0⟩, "upload", .copy, ⟨7⟩, 1, [loopedBinding]⟩,
  .command (.submit .copy ⟨7⟩),
  .command (.resetList ⟨8⟩),
  .command (.signal .copy ⟨9⟩ 3),
  .command (.wait .graphics ⟨9⟩ 3),
  .command (.barrier ⟨8⟩ [.transition ⟨3⟩ .copyDest .pixelShaderResource {}]),
  .recording ⟨⟨2⟩, "draw", .graphics, ⟨8⟩, 1, [loopedBinding]⟩,
  .command (.submit .graphics ⟨8⟩),
  .command (.signal .copy ⟨9⟩ 4),
  .command (.wait .graphics ⟨9⟩ 4),
  .command (.signal .graphics ⟨10⟩ 2)]

theorem looped_replayed : loopedOnce.Reachable ∧
    loopedOnce.Does Graph.execute (loopedOnce.after Graph.execute) ∧
    ∃ c, loopedOnce.graph.compilation = some c ∧ c.player.nextLists = [⟨7⟩, ⟨8⟩] ∧
      loopedOnce.ReplaysFaithfully c loopedTraffic := by
  have reachable : looped.Reachable := (Reachable.start {} [] {}).foldl _
  have built : loopedBuilt.Reachable := looped_compiles.after_eq ▸ reachable.act .compile
  have once : loopedOnce.Reachable := built.act .execute
  have does : loopedOnce.Does Graph.execute (loopedOnce.after Graph.execute) :=
    does_after (by decide +kernel)
  obtain ⟨c, traffic, held, added, faithful⟩ := replay_faithful once does
  have sent : (loopedOnce.after Graph.execute).rig.traffic.toList =
      loopedOnce.rig.traffic.toList ++ loopedTraffic := by decide +kernel
  obtain rfl : loopedTraffic = traffic := List.append_cancel_left (sent.symm.trans added)
  refine ⟨once, does, c, held, ?_, faithful⟩
  rw [← faithful.resets]
  decide +kernel

end Session

end RenderGraph
