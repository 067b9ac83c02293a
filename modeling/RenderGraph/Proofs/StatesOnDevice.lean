import RenderGraph.Proofs.KeptScene
import RenderGraph.Proofs.StatesNamed

/-! The states that natives are in on the device while a compiled graph is played frame after frame.
The schedule names the same states before its transitions in every frame, so that they are those on
the device only if a frame leaves a resource in the state that it was assumed to find it in. -/

namespace RenderGraph

theorem Declaration.moves_congr {d d' : Declaration} (passes : d'.passes = d.passes)
    (names : ResourceId → Bool) : d'.moves names = d.moves names := by
  funext e
  cases e with
  | record list p => simp only [Declaration.moves, Declaration.pass?, passes]
  | openList | barriers | submit | sync => rfl

theorem Declaration.moves_of_no_names (d : Declaration) {names : ResourceId → Bool}
    (none : ∀ q, names q = false) (e : Event) : d.moves names e = [] := by
  cases e with
  | barriers list batch =>
    refine List.filterMap_eq_nil_iff.mpr fun barrier _ => ?_
    cases barrier <;> simp [none]
  | record list p => simp [moves, none]
  | openList | submit | sync => rfl

theorem getLast?_flatMap_ite {α β : Type} (xs : List α) (P : α → Bool) (ys : List β) :
    (xs.flatMap fun x => if P x then ys else []).getLast? =
      if xs.any P then ys.getLast? else none := by
  induction xs with
  | nil => rfl
  | cons x xs ih =>
    rw [List.flatMap_cons, List.getLast?_append, ih, List.any_cons]
    cases P x with
    | true => cases xs.any P <;> simp
    | false => simp

theorem Player.Turn.issues {s : Schedule} {scene : Scene} {frameIndex : Nat} {p after : Player}
    {traffic : List Traffic} (turn : p.Turn s scene frameIndex traffic after)
    {done rest : List Event} {list : ListId} {batch : List Barrier}
    (split : s.events = done ++ .barriers list batch :: rest) {barrier : Barrier}
    (named : barrier ∈ batch) :
    ∃ native key made, scene.native? barrier.resource frameIndex = some native ∧
      .command (.barrier key made) ∈ traffic ∧ barrier.onNative native ∈ made := by
  cases turn with
  | mk replays =>
    rw [Schedule.cycle, split, List.append_assoc] at replays
    obtain ⟨mid, first, second, _, later, rfl⟩ := replays.split
    cases later with
    | cons one _ =>
      cases one with
      | @barriers _ _ key made own resolved =>
        obtain ⟨_, inside, native, behind, rfl⟩ := exists_related resolved named
        exact ⟨native, key, made, behind, by simp, inside⟩

theorem Player.Frame.Replays.barriers {f : Player.Frame} {p after : Player} {events : List Event}
    {traffic : List Traffic} (replays : f.Replays p events traffic after) {key : ListKey}
    {made : List DeviceBarrier} (member : .command (.barrier key made) ∈ traffic) :
    ∃ list batch, .barriers list batch ∈ events ∧ List.Forall₂ f.Resolves batch made := by
  induction replays with
  | nil => cases member
  | cons one _ ih =>
    rcases List.mem_append.mp member with here | later
    · cases one with
      | openList | silent | record | submit | sync => simp at here
      | barriers own resolved =>
        cases List.mem_singleton.mp here
        exact ⟨_, _, List.mem_cons_self, resolved⟩
    · obtain ⟨list, batch, inside, resolved⟩ := ih later
      exact ⟨list, batch, List.mem_cons_of_mem _ inside, resolved⟩

theorem Player.Turn.issued {s : Schedule} {scene : Scene} {frameIndex : Nat} {p after : Player}
    {traffic : List Traffic} (turn : p.Turn s scene frameIndex traffic after) {key : ListKey}
    {made : List DeviceBarrier} (member : .command (.barrier key made) ∈ traffic)
    {issued : DeviceBarrier} (inside : issued ∈ made) :
    ∃ list batch barrier native, .barriers list batch ∈ s.events ∧ barrier ∈ batch ∧
      scene.native? barrier.resource frameIndex = some native ∧
      issued = barrier.onNative native := by
  cases turn with
  | @mk body last replays =>
    have body : .command (.barrier key made) ∈ body := by
      rcases List.mem_append.mp member with early | close
      · rcases List.mem_append.mp early with wait | body
        · simp only [reclaims] at wait
          split at wait <;> simp at wait
        · exact body
      · simp [closes] at close
    obtain ⟨list, batch, event, resolved⟩ := replays.barriers body
    obtain ⟨barrier, named, native, behind, same⟩ := exists_related resolved.flip inside
    refine ⟨list, batch, barrier, native, ?_, named, behind, same⟩
    refine (List.mem_append.mp event).resolve_right fun gather => ?_
    obtain ⟨⟨queue, i⟩, _, sync⟩ := List.mem_map.mp gather
    cases sync

namespace PlayedFrame

/-- The native behind a row in the frame. -/
def native? (x : PlayedFrame) (r : ResourceId) : Option ResourceKey :=
  x.graph.scene.native? r x.graph.frameIndex

/-- The states that events bring a native into when they are played in the frame. -/
def moves (x : PlayedFrame) (native : ResourceKey) (events : List Event) : List ResourceState :=
  events.flatMap (x.graph.declaration.moves fun q => x.native? q == some native)

/-- The caller has not bound the native to a row of its own. -/
def LeavesAlone (x : PlayedFrame) (native : ResourceKey) : Prop :=
  ∀ q resource, x.graph.declaration.resource? q = some resource →
    resource.origin.isImported = true → x.native? q ≠ some native

/-- The frame has the device bring the native of the transition's resource from the one state into
the other. -/
structure Issues (x : PlayedFrame) (native : ResourceKey) (tr : Transition) : Prop where
  behind : x.native? tr.resource = some native
  issued : ∃ key made, .command (.barrier key made) ∈ x.traffic ∧
    .transition native tr.before tr.after tr.hints ∈ made

/-- All transitions that the frame has the device make are transitions of the schedule. -/
def IssuesOnly (x : PlayedFrame) (s : Schedule) : Prop :=
  ∀ key made native before after hints, .command (.barrier key made) ∈ x.traffic →
    .transition native before after hints ∈ made →
    ∃ list batch tr, .barriers list batch ∈ s.events ∧ .transition tr ∈ batch ∧
      x.Issues native tr ∧ tr.before = before ∧ tr.after = after

variable {x : PlayedFrame} {g : Graph} {r q : ResourceId} {resource : Resource}
  {native : ResourceKey} {events : List Event}

theorem issuesOnly {s : Schedule} {p p' : Player}
    (turn : p.Turn s x.graph.scene x.graph.frameIndex x.traffic p') : x.IssuesOnly s := by
  intro key made native before after hints member inside
  obtain ⟨list, batch, barrier, other, event, named, behind, same⟩ := turn.issued member inside
  cases barrier with
  | unordered r => cases same
  | transition tr =>
    cases same
    exact ⟨list, batch, tr, event, named, ⟨behind, key, made, member, inside⟩, rfl, rfl⟩

theorem leavesAlone (owns : true ∉ x.graph.declaration.imports) : x.LeavesAlone native := by
  intro q resource held imported
  refine absurd (List.mem_map.mpr ⟨resource, ?_, imported⟩) owns
  exact List.mem_of_getElem? held

theorem native?_iff (stays : g.Stays x.graph) (once : g.rowAssets.Nodup)
    (held : g.declaration.resource? r = some resource)
    (owned : resource.origin.isImported = false) {i : Nat}
    (behind : g.scene.native? r i = some native) (alone : x.LeavesAlone native) :
    x.native? q = some native ↔ q = r ∧ x.native? r = some native := by
  constructor
  · -- An imported row is excluded by the caller, and two owned rows hold nothing in common.
    intro here
    have copies : x.graph.scene.copies q ≠ [] := fun none => by
      simp [native?, Scene.native?, Scene.copy?, none] at here
    cases declared : x.graph.declaration.resource? q with
    | none =>
      refine absurd ?_ copies
      have absent : x.graph.scene.declaration.resource? q = none := declared
      rw [Scene.copies, absent]
    | some other =>
      cases imported : other.origin.isImported with
      | true => exact absurd here (alone q other declared imported)
      | false =>
        obtain ⟨first, declared', same⟩ := Declaration.resource?_of_imports
          stays.imports.symm declared
        have owned' := same.trans imported
        have before := here
        rw [native?, stays.native?_of_owned declared' owned'] at before
        obtain rfl := Graph.row_unique once declared' held owned' owned before behind
        exact ⟨rfl, here⟩
  · rintro ⟨rfl, here⟩
    exact here

theorem moves_eq (stays : g.Stays x.graph) (once : g.rowAssets.Nodup)
    (held : g.declaration.resource? r = some resource)
    (owned : resource.origin.isImported = false) {i : Nat}
    (behind : g.scene.native? r i = some native) (alone : x.LeavesAlone native) :
    x.moves native events =
      if x.native? r == some native then g.declaration.movesOf r events else [] := by
  have names {q : ResourceId} := native?_iff (q := q) stays once held owned behind alone
  rw [moves, Declaration.moves_congr stays.passes]
  cases here : x.native? r == some native with
  | true =>
    have same : (fun q => x.native? q == some native) = (· == r) := by
      funext q
      rw [Bool.eq_iff_iff, beq_iff_eq, beq_iff_eq, names, and_iff_left (eq_of_beq here)]
    rw [same, if_pos rfl, Declaration.movesOf]
  | false =>
    have none (q : ResourceId) : (x.native? q == some native) = false := by
      refine Bool.eq_false_iff.mpr fun found => ?_
      rw [(names.mp (eq_of_beq found)).2, beq_self_eq_true] at here
      cases here
    rw [if_neg Bool.false_ne_true]
    exact List.flatMap_eq_nil_iff.mpr fun e _ => g.declaration.moves_of_no_names none e

end PlayedFrame

/-- The state of a native on the device when some of the events of a frame have been played: the
last one that it has been brought into in this frame or in an earlier one, or else the one that it
was made in. -/
def stateOnDevice (s : Schedule) (native : ResourceKey) (initial : ResourceState)
    (earlier : List PlayedFrame) (x : PlayedFrame) (done : List Event) : ResourceState :=
  ((earlier.flatMap (·.moves native s.events)) ++ x.moves native done).getLast?.getD initial

theorem eq_stateOnDevice_iff {s : Schedule} {native : ResourceKey} {initial state : ResourceState}
    {earlier : List PlayedFrame} {x : PlayedFrame} {done : List Event}
    {assumed : Option ResourceState}
    (explains : (x.moves native done).getLast?.or assumed = some state) :
    state = stateOnDevice s native initial earlier x done ↔
      x.moves native done ≠ [] ∨ assumed = some (stateOnDevice s native initial earlier x []) := by
  have start : x.moves native [] = [] := rfl
  unfold stateOnDevice
  rw [start, List.append_nil]
  cases last : (x.moves native done).getLast? with
  | none =>
    rw [last, Option.none_or] at explains
    rw [List.getLast?_eq_none_iff.mp last, List.append_nil, explains, Option.some.injEq]
    exact (or_iff_right fun apart => apart rfl).symm
  | some final =>
    rw [last, Option.some_or, Option.some.injEq] at explains
    have moved : x.moves native done ≠ [] := fun none => by
      rw [none] at last
      cases last
    rw [List.getLast?_append, last, explains]
    exact iff_of_true rfl (Or.inl moved)

theorem Declaration.movesOf_ne_nil {d : Declaration} {events done rest : List Event} {list : ListId}
    {early late : List Barrier} {tr : Transition}
    (split : events = done ++ .barriers list (early ++ .transition tr :: late) :: rest) :
    d.movesOf tr.resource events ≠ [] := by
  rw [split, ← List.singleton_append, movesOf_append, movesOf_append, movesOf_barriers,
    Brief.transitionsOf_split]
  simp

/-- The state that events leave a resource in which they find in the given one. -/
def Declaration.leaves (d : Declaration) (r : ResourceId) (events : List Event)
    (found : ResourceState) : ResourceState :=
  (d.movesOf r events).getLast?.getD found

theorem stateOnDevice_start {d : Declaration} {r : ResourceId} {s : Schedule} {native : ResourceKey}
    {earlier : List PlayedFrame} (initial : ResourceState) (x : PlayedFrame)
    (each : ∀ y ∈ earlier, y.moves native s.events =
      if y.native? r == some native then d.movesOf r s.events else []) :
    stateOnDevice s native initial earlier x [] =
      if earlier.any (·.native? r == some native) then d.leaves r s.events initial
      else initial := by
  have start : x.moves native [] = [] := rfl
  rw [stateOnDevice, start, List.append_nil, List.flatMap_congr each, getLast?_flatMap_ite]
  split <;> rfl

namespace Session

variable {s s' t : Session} {c : Compilation} {frames : List PlayedFrame} {r : ResourceId}
  {resource : Resource} {native : ResourceKey}

theorem Reachable.compiled (reachable : s.Reachable) (does : s.Does Graph.compile s') :
    s'.Reachable := does.after_eq ▸ reachable.act .compile

theorem Plays.issues (plays : s.Plays frames t) (reachable : s.Reachable)
    (held : s.graph.compilation = some c) {n : Nat} {x : PlayedFrame}
    (played : frames[n]? = some x) {done rest : List Event} {list : ListId}
    {early late : List Barrier} {tr : Transition}
    (split : c.schedule.events = done ++ .barriers list (early ++ .transition tr :: late) :: rest) :
    ∃ native, x.Issues native tr := by
  obtain ⟨_, _, _, turn⟩ := plays.frame reachable held played
  have named : .transition tr ∈ early ++ .transition tr :: late :=
    List.mem_append_right _ List.mem_cons_self
  obtain ⟨native, key, made, behind, issued, inside⟩ := turn.issues split named
  exact ⟨native, behind, key, made, issued, inside⟩

theorem Plays.moves_eq (plays : s.Plays frames t) (reachable : s.Reachable)
    (compiled : s.graph.compilation = some c)
    (held : s.graph.declaration.resource? r = some resource)
    (owned : resource.origin.isImported = false) {i : Nat}
    (behind : s.graph.scene.native? r i = some native) {y : PlayedFrame} (member : y ∈ frames)
    (alone : y.LeavesAlone native) (events : List Event) : y.moves native events =
      if y.native? r == some native then s.graph.declaration.movesOf r events else [] := by
  have once := (balances_of_accounts reachable.rowed reachable.accounts).once
  obtain ⟨k, played⟩ := List.mem_iff_getElem?.mp member
  exact PlayedFrame.moves_eq (plays.frame reachable compiled played).1
    (List.nodup_append.mp once).1 held owned behind alone

/-- A frame issues the transitions of the schedule and no others. Every transition of a resource
that the graph owns is issued for a native that the device made in the resource's initial state. It
names the state that the native is in on the device exactly if the frame has moved the native
before, or if the resource is assumed to be in the initial state as long as no frame has used the
native, and in the state that a frame leaves it in from then on. This holds for natives that the
caller leaves alone, and of resources that are settled or not moved yet. A settled resource is left
in the state that is to be restored. -/
theorem before_on_device_iff (reachable : s.Reachable) (does : s.Does Graph.compile s')
    (plays : s'.Plays frames t) :
    ∃ c b, s'.graph.compilation = some c ∧ b = s'.graph.brief s'.graph.config.mergesReads ∧
      ∀ (n : Nat) x, frames[n]? = some x → x.IssuesOnly c.schedule ∧
        ∀ done list early tr late rest resource,
          c.schedule.events = done ++ .barriers list (early ++ .transition tr :: late) :: rest →
          s'.graph.declaration.resource? tr.resource = some resource →
          resource.origin.isImported = false →
          ∃ native request, s'.rig.MadeFor request native ∧
            request.state = resource.initialState ∧ x.Issues native tr ∧
            ((∀ y ∈ frames.take (n + 1), y.LeavesAlone native) →
              b.SettledBefore b.live.length tr.resource ∨
                x.moves native (done ++ [.barriers list early]) = [] →
              (tr.before = stateOnDevice c.schedule native request.state (frames.take n) x
                  (done ++ [.barriers list early]) ↔
                x.moves native (done ++ [.barriers list early]) ≠ [] ∨
                  s'.graph.declaration.assumedState tr.resource = some
                    (if (frames.take n).any (·.native? tr.resource == some native) then
                      s'.graph.declaration.leaves tr.resource c.schedule.events request.state
                    else request.state))) ∧
            (b.SettledBefore b.live.length tr.resource →
              ∀ target, resource.restoreState = some target →
                s'.graph.declaration.leaves tr.resource c.schedule.events request.state =
                  target) := by
  obtain ⟨c, _, compiled, _, declaration, _⟩ := does.compiled
  have closed : s'.graph.declaration.Closed := declaration ▸ reachable.closed
  have reachable' := reachable.compiled does
  have once := reachable'.createsOnce
  refine ⟨c, _, compiled.compilation, rfl, ?_⟩
  intro n x played
  obtain ⟨stays, _, _, turn⟩ := plays.frame reachable' compiled.compilation played
  refine ⟨PlayedFrame.issuesOnly turn, ?_⟩
  intro done list early tr late rest resource split held owned
  obtain ⟨native, issues⟩ := plays.issues reachable' compiled.compilation played split
  have behind := (stays.native?_of_owned held owned _).symm.trans issues.behind
  obtain ⟨request, made, state⟩ := does.requested held owned behind
  refine ⟨native, request, made, state, issues, fun alone linked => ?_,
    fun settled target restores => ?_⟩
  · have each {y : PlayedFrame} (member : y ∈ frames.take (n + 1)) :=
      plays.moves_eq reachable' compiled.compilation held owned behind
        (List.mem_of_mem_take member) (alone y member)
    rw [List.take_add_one, played] at each
    have here (events : List Event) :
        x.moves native events = s'.graph.declaration.movesOf tr.resource events := by
      rw [each (List.mem_append_right _ List.mem_cons_self), if_pos (beq_iff_eq.mpr issues.behind)]
    rw [here] at linked
    have explains := Brief.explains_before closed compiled.schedule once split linked
    -- A frame before this one makes all the moves of the schedule on this copy, or none.
    have start (initial : ResourceState) := stateOnDevice_start initial x
      fun y member => each (List.mem_append_left _ member) c.schedule.events
    rw [Brief.Explains, Graph.brief, ← here] at explains
    rw [eq_stateOnDevice_iff explains, start]
  · have member : .barriers list (early ++ .transition tr :: late) ∈ c.schedule.events := by
      rw [split]
      exact List.mem_append_right _ List.mem_cons_self
    have live := (Brief.live_of_barrier closed compiled.survival compiled.schedule member
      (List.mem_append_right _ List.mem_cons_self)).1
    have left :
        (s'.graph.declaration.movesOf tr.resource c.schedule.events).getLast? = some target :=
      Brief.left_of_settled closed compiled.schedule once settled live held restores
        (Declaration.movesOf_ne_nil split)
    rw [Declaration.leaves, left]
    rfl

/-! An image that the graph owns and one pass paints. Between frames it is a render target, unless
the pass asks for another final usage. -/

def painted (last : Option Usage) : Session := [
  .manage "image" { extent := .texture 8 8, format := .rgba8Unorm } .colorTarget,
  .declare "paint" .graphics
    [.write ⟨0⟩ "image" .unorderedWrite (last.map .finalUsage).toList, .sideEffects true]
    none].foldl act (start {} [] {})

def paintedCull : CullResult := ⟨{ passRefs := [1], resourceRefs := [0], live := [true] }, []⟩

theorem painted_cull (last : Option Usage) :
    (painted last).graph.declaration.cull = paintedCull := by
  unfold painted paintedCull
  cases last <;> cbv

def paintedBuilt (last : Option Usage) : Session := (painted last).built paintedCull

def paintedOnce (last : Option Usage) : Session := (paintedBuilt last).act .execute

def image (last : Option Usage) : Resource where
  name := "image"
  origin := .managed
  blueprint := { extent := .texture 8 8, format := .rgba8Unorm }
  usage := .colorTarget
  finalUsage := last
  producer := some ⟨0⟩

def paintPass : Pass where
  name := "paint"
  queue := .graphics
  writes := [{ name := "image", resource := ⟨0⟩, usage := .unorderedWrite }]
  sideEffects := true

def paintedSchedule (left : ResourceState) : Schedule where
  events := [
    .openList .graphics ⟨0⟩,
    .barriers ⟨0⟩ [.transition ⟨⟨0⟩, .renderTarget, .unorderedAccess, {}⟩],
    .record ⟨0⟩ ⟨0⟩,
    .barriers ⟨0⟩ [.transition ⟨⟨0⟩, .unorderedAccess, left, {}⟩],
    .submit ⟨0⟩]
  lists := [.graphics]
  fences := []
  finalStates := [some left]

def paintedFrame (g : Graph) (left : ResourceState) (list : ListKey) (frame : Nat) : PlayedFrame :=
  ⟨g, [
    .command (.resetList list),
    .command (.barrier list [.transition ⟨1⟩ .renderTarget .unorderedAccess {}]),
    .command (.barrier list [.transition ⟨1⟩ .unorderedAccess left {}]),
    .command (.submit .graphics list),
    .command (.signal .graphics ⟨5⟩ frame)]⟩

def paintedFrames (last : Option Usage) (left : ResourceState) : List PlayedFrame := [
  paintedFrame (paintedBuilt last).graph left ⟨3⟩ 1,
  paintedFrame (paintedOnce last).graph left ⟨4⟩ 2]

structure Paints (last : Option Usage) (left : ResourceState) : Prop where
  compiles : (painted last).Does Graph.compile (paintedBuilt last)
  schedule : (paintedBuilt last).graph.schedule? = some (paintedSchedule left)
  held : (paintedBuilt last).graph.declaration.resource? ⟨0⟩ = some (image last)
  plays : (paintedBuilt last).Plays (paintedFrames last left) ((paintedOnce last).act .execute)
  alone : ∀ y ∈ paintedFrames last left, true ∉ y.graph.declaration.imports
  behind : ∀ y ∈ paintedFrames last left, y.native? ⟨0⟩ = some ⟨1⟩

theorem paints_none : Paints none .renderTarget where
  compiles := does_compile_of_fresh (by decide +kernel) (by decide +kernel) (painted_cull none)
    (by decide +kernel)
  schedule := by decide +kernel
  held := by decide +kernel
  plays :=
    have first : (paintedBuilt none).Does Graph.execute (paintedOnce none) :=
      does_after (by decide +kernel)
    have second : (paintedOnce none).Does Graph.execute ((paintedOnce none).act .execute) :=
      does_after (by decide +kernel)
    (Plays.start.execute first (by decide +kernel)).execute second (by decide +kernel)
  alone := by decide +kernel
  behind := by decide +kernel

theorem paints_final : Paints (some .pixelShaderRead) .pixelShaderResource where
  compiles := does_compile_of_fresh (by decide +kernel) (by decide +kernel)
    (painted_cull (some .pixelShaderRead)) (by decide +kernel)
  schedule := by decide +kernel
  held := by decide +kernel
  plays :=
    have first : (paintedBuilt (some .pixelShaderRead)).Does Graph.execute
        (paintedOnce (some .pixelShaderRead)) := does_after (by decide +kernel)
    have second : (paintedOnce (some .pixelShaderRead)).Does Graph.execute
        ((paintedOnce (some .pixelShaderRead)).act .execute) := does_after (by decide +kernel)
    (Plays.start.execute first (by decide +kernel)).execute second (by decide +kernel)
  alone := by decide +kernel
  behind := by decide +kernel

theorem painted_reachable (last : Option Usage) : (painted last).Reachable :=
  (Reachable.start {} [] {}).foldl _

theorem painted_live : ((paintedBuilt none).graph.brief
    (paintedBuilt none).graph.config.mergesReads).live = [(⟨0⟩, paintPass)] := by decide +kernel

theorem painted_before_on_device : (painted none).Reachable ∧
    (painted none).Does Graph.compile (paintedBuilt none) ∧
    (paintedBuilt none).Plays (paintedFrames none .renderTarget)
      ((paintedOnce none).act .execute) ∧
    ∃ x request, (paintedFrames none .renderTarget)[1]? = some x ∧
      (paintedBuilt none).rig.MadeFor request ⟨1⟩ ∧
      x.Issues ⟨1⟩ ⟨⟨0⟩, .renderTarget, .unorderedAccess, {}⟩ ∧
      ResourceState.renderTarget = stateOnDevice (paintedSchedule .renderTarget) ⟨1⟩ request.state
        ((paintedFrames none .renderTarget).take 1) x
        ([.openList .graphics ⟨0⟩] ++ [.barriers ⟨0⟩ []]) := by
  have paints := paints_none
  refine ⟨painted_reachable none, paints.compiles, paints.plays, ?_⟩
  obtain ⟨c, _, compilation, rfl, each⟩ :=
    before_on_device_iff (painted_reachable none) paints.compiles paints.plays
  have schedule : c.schedule = paintedSchedule .renderTarget := by
    have made := paints.schedule
    rw [Graph.schedule?, compilation] at made
    exact Option.some.inj made
  rw [schedule, painted_live] at each
  obtain ⟨_, each⟩ := each 1 (paintedFrame (paintedOnce none).graph .renderTarget ⟨4⟩ 2) rfl
  obtain ⟨native, request, made, state, issues, before, left⟩ := each [.openList .graphics ⟨0⟩] ⟨0⟩
    [] ⟨⟨0⟩, .renderTarget, .unorderedAccess, {}⟩ [] _ (image none) rfl paints.held rfl
  have settled : ((paintedBuilt none).graph.brief
      (paintedBuilt none).graph.config.mergesReads).SettledBefore 1 ⟨0⟩ := by
    intro m q other less entry _
    rw [painted_live, Nat.lt_one_iff.mp less] at entry
    cases entry
    exact ⟨paintPass.writes, [], [], rfl, by decide, by decide, by decide⟩
  have first : native = ⟨1⟩ := Option.some.inj
    (issues.behind.symm.trans (paints.behind _ (List.mem_cons_of_mem _ List.mem_cons_self)))
  subst first
  refine ⟨_, request, rfl, made, issues, (before ?_ (Or.inl settled)).mpr (Or.inr ?_)⟩
  · exact fun y member => PlayedFrame.leavesAlone (paints.alone y (List.mem_of_mem_take member))
  · have assumed : (paintedBuilt none).graph.declaration.assumedState ⟨0⟩ = some .renderTarget := by
      decide +kernel
    rw [left settled .renderTarget rfl, state, assumed]
    split <;> rfl

/-- With another final usage, the second frame expects the image to be a render target as it was
made, although the first frame has left it to be sampled. -/
theorem not_all_before_on_device :
    ¬ ∀ (s s' t : Session) (c : Compilation) (frames : List PlayedFrame) (n : Nat) x done list early
        tr late rest resource native request, s.Reachable → s.Does Graph.compile s' →
      s'.graph.compilation = some c → s'.Plays frames t → frames[n]? = some x →
      c.schedule.events = done ++ .barriers list (early ++ .transition tr :: late) :: rest →
      s'.graph.declaration.resource? tr.resource = some resource →
      resource.origin.isImported = false → s'.rig.MadeFor request native → x.Issues native tr →
      (∀ y ∈ frames, y.LeavesAlone native) →
      tr.before = stateOnDevice c.schedule native request.state (frames.take n) x
        (done ++ [.barriers list early]) := by
  intro claim
  have paints := paints_final
  have reachable := painted_reachable (some .pixelShaderRead)
  obtain ⟨c, compilation, schedule⟩ := Option.map_eq_some_iff.mp paints.schedule
  have split : c.schedule.events = [.openList .graphics ⟨0⟩] ++ .barriers ⟨0⟩
      ([] ++ .transition ⟨⟨0⟩, .renderTarget, .unorderedAccess, {}⟩ :: []) ::
        (paintedSchedule .pixelShaderResource).events.drop 2 := by
    rw [schedule]
    rfl
  have first : (paintedBuilt (some .pixelShaderRead)).graph.scene.native? ⟨0⟩ 0 = some ⟨1⟩ := by
    decide +kernel
  have second := paints.behind (paintedFrame (paintedOnce (some .pixelShaderRead)).graph
    .pixelShaderResource ⟨4⟩ 2) (List.mem_cons_of_mem _ List.mem_cons_self)
  obtain ⟨request, made, _⟩ := paints.compiles.requested paints.held rfl first
  obtain ⟨native, issues⟩ := paints.plays.issues (reachable.compiled paints.compiles) compilation
    (List.getElem?_cons_succ.trans List.getElem?_cons_zero) split
  cases second.symm.trans issues.behind
  have same := claim _ _ _ c _ 1 _ _ _ _ _ _ _ _ _ request reachable paints.compiles compilation
    paints.plays (List.getElem?_cons_succ.trans List.getElem?_cons_zero) split paints.held rfl made
    issues fun y member => PlayedFrame.leavesAlone (paints.alone y member)
  have painted : (((paintedFrames (some .pixelShaderRead) .pixelShaderResource).take 1).flatMap
      (·.moves ⟨1⟩ (paintedSchedule .pixelShaderResource).events) ++
        (paintedFrame (paintedOnce (some .pixelShaderRead)).graph .pixelShaderResource ⟨4⟩ 2).moves
          ⟨1⟩ ([.openList .graphics ⟨0⟩] ++ [.barriers ⟨0⟩ []])).getLast? =
      some .pixelShaderResource := by decide +kernel
  rw [stateOnDevice, schedule, painted, Option.getD_some] at same
  revert same
  decide

end Session

end RenderGraph
