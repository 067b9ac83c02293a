import RenderGraph.Proofs.CopiesMade
import RenderGraph.Proofs.StatesOnDevice

/-! What stands behind the rows of a compiled graph: for each live row of its own as many copies as
are due, each made once and seen through the views that surviving passes ask for. What a caller
finds for a frame index is the copy of that frame. -/

namespace RenderGraph

theorem filterMap_eq_singleton {α β γ : Type} {entries : List α} {makes : α → Option β}
    {tells : α → Option γ} {word : γ} {entry : α} (thing : β)
    (once : (entries.filterMap makes).Nodup)
    (same : ∀ other word, tells other = some word → makes other = some thing)
    (member : entry ∈ entries) (said : tells entry = some word) :
    entries.filterMap tells = [word] := by
  obtain ⟨before, after, rfl⟩ := List.append_of_mem member
  have made := same entry word said
  rw [List.filterMap_append, List.filterMap_cons_some made] at once
  have silent {others : List α} (absent : thing ∉ others.filterMap makes) :
      others.filterMap tells = [] := by
    refine List.filterMap_eq_nil_iff.mpr fun other inside => ?_
    cases heard : tells other with
    | none => rfl
    | some word =>
      exact absurd (List.mem_filterMap.mpr ⟨other, inside, same other word heard⟩) absent
  obtain ⟨_, later, apart⟩ := List.nodup_append.mp once
  rw [List.filterMap_append, List.filterMap_cons_some said,
    silent fun early => apart thing early thing List.mem_cons_self rfl,
    silent (List.nodup_cons.mp later).1, List.nil_append]

namespace Command

/-- What the native was requested as, if the command is about that. -/
def requestOf? (native : ResourceKey) : Command → Option ResourceRequest
  | createResource resource request => if resource = native then some request else none
  | _ => none

/-- What the view was made of and how, if the command is about that. -/
def sourceOf? (kind : ViewKind) (view : ViewKey) : Command → Option (ResourceKey × ViewSpec)
  | createView resource other made spec =>
    if other = kind ∧ made = view then some (resource, spec) else none
  | _ => none

theorem makes_of_requestOf? {native : ResourceKey} {command : Command} {request : ResourceRequest}
    (asked : command.requestOf? native = some request) :
    command.makes? = some (.resource native) := by
  cases command with
  | createResource resource other =>
    rw [requestOf?] at asked
    split at asked
    · rename_i here
      exact here ▸ rfl
    · cases asked
  | _ => cases asked

theorem makes_of_sourceOf? {kind : ViewKind} {view : ViewKey} {command : Command}
    {source : ResourceKey × ViewSpec} (asked : command.sourceOf? kind view = some source) :
    command.makes? = some (.view kind view) := by
  cases command with
  | createView resource other made spec =>
    rw [sourceOf?] at asked
    split at asked
    · rename_i here
      exact here.1 ▸ here.2 ▸ rfl
    · cases asked
  | _ => cases asked

end Command

namespace Rig

variable {rig : Rig} {held : List Asset} {native : ResourceKey} {request : ResourceRequest}
  {kind : ViewKind} {view : ViewKey} {spec : ViewSpec}

def told {α : Type} (rig : Rig) (tells : Command → Option α) : List α :=
  rig.traffic.toList.filterMap fun sent => sent.command?.bind tells

def requestsFor (rig : Rig) (native : ResourceKey) : List ResourceRequest :=
  rig.told (Command.requestOf? native)

def sourcesOf (rig : Rig) (kind : ViewKind) (view : ViewKey) : List (ResourceKey × ViewSpec) :=
  rig.told (Command.sourceOf? kind view)

theorem Accounts.told_eq {α : Type} {tells : Command → Option α} {x : Asset} {word : α}
    {command : Command} (accounts : rig.Accounts held)
    (makes : ∀ other word, tells other = some word → other.makes? = some x)
    (member : .command command ∈ rig.traffic.toList) (said : tells command = some word) :
    rig.told tells = [word] := by
  refine filterMap_eq_singleton x accounts.distinct (fun sent word heard => ?_) member said
  obtain ⟨command, sent', heard⟩ := Option.bind_eq_some_iff.mp heard
  rw [sent', Option.bind_some, makes command word heard]

theorem Accounts.requestsFor_eq (accounts : rig.Accounts held) (made : rig.MadeFor request native) :
    rig.requestsFor native = [request] :=
  accounts.told_eq (fun _ _ => Command.makes_of_requestOf?) made (by simp [Command.requestOf?])

theorem Accounts.sourcesOf_eq (accounts : rig.Accounts held)
    (made : rig.ViewMade native kind view spec) : rig.sourcesOf kind view = [(native, spec)] :=
  accounts.told_eq (fun _ _ => Command.makes_of_sourceOf?) made (by simp [Command.sourceOf?])

end Rig

namespace Declaration

/-- A surviving pass accesses the resource in a way that asks for a view of the kind. -/
def Asks (d : Declaration) (r : ResourceId) (kind : ViewKind) : Prop :=
  ∃ p pass a, (p, pass) ∈ d.surviving ∧ a ∈ pass.accesses ∧ a.resource = r ∧
    a.usage.views.get kind = true

theorem get_foldl_union (accesses : List Access) (mask : ViewMask) (kind : ViewKind) :
    (accesses.foldl (fun mask access => mask.union access.usage.views) mask).get kind = true ↔
      mask.get kind = true ∨ ∃ a ∈ accesses, a.usage.views.get kind = true := by
  induction accesses generalizing mask with
  | nil => simp
  | cons a accesses ih =>
    rw [List.foldl_cons, ih, ViewMask.get_union, Bool.or_eq_true, List.exists_mem_cons_iff,
      or_assoc]

theorem get_wantedViews (d : Declaration) (r : ResourceId) (kind : ViewKind) :
    (d.wantedViews d.cull.survival r).get kind = true ↔ d.Asks r kind := by
  have none : ViewMask.none.get kind = false := PerView.get_fill _ kind
  rw [wantedViews, get_foldl_union, none]
  constructor
  · rintro (none | ⟨a, member, asks⟩)
    · cases none
    · obtain ⟨⟨p, pass⟩, survives, access⟩ := List.mem_flatMap.mp member
      obtain ⟨access, here⟩ := List.mem_filter.mp access
      exact ⟨p, pass, a, survives, access, eq_of_beq here, asks⟩
  · rintro ⟨p, pass, a, survives, access, here, asks⟩
    exact Or.inr ⟨a, List.mem_flatMap.mpr ⟨(p, pass), survives,
      List.mem_filter.mpr ⟨access, beq_iff_eq.mpr here⟩⟩, asks⟩

end Declaration

namespace Copy

theorem sublist_assets (copies : List Copy) :
    ((natives copies).map Asset.resource).Sublist (copies.flatMap assets) := by
  induction copies with
  | nil => exact .slnil
  | cons copy copies ih =>
    exact (ih.trans (List.sublist_append_right copy.viewAssets _)).cons_cons _

theorem nodup_natives {copies : List Copy} (once : (copies.flatMap assets).Nodup) :
    (natives copies).Nodup :=
  (once.sublist (sublist_assets copies)).of_map _

end Copy

theorem Graph.lookUp_eq {g : Graph} {r : ResourceId} {resource : Resource}
    (held : g.declaration.resource? r = some resource) :
    g.lookUp r = .ok ((g.scene.copy? r g.frameIndex).map (·.native),
      PerView.tabulate fun kind => (g.scene.copy? r g.frameIndex).bind (·.views.get kind)) := by
  have found : g.declaration.getResource r = .ok resource := by rw [Declaration.getResource, held]
  rw [lookUp, found]
  rfl

namespace Session

/-- With the frame index set, a caller finds the copy behind the row. -/
def Finds (s : Session) (frameIndex : Nat) (r : ResourceId) (copy : Copy) : Prop :=
  (s.graph.setFrameIndex frameIndex).lookUp r = .ok (some copy.native, copy.views)

/-- The copy was created once, for the row and in the state of its usage. It has a view of each kind
that a surviving pass asks for, made of it once and as the row specifies, and no others. -/
structure Furnishes (s : Session) (r : ResourceId) (resource : Resource) (copy : Copy) : Prop where
  created : ∃ request, s.rig.requestsFor copy.native = [request] ∧
    request.name = resource.name ∧ request.blueprint = resource.blueprint ∧
    request.state = resource.usage.state
  viewed : ∀ kind, (copy.views.get kind).isSome = true ↔ s.graph.declaration.Asks r kind
  views : ∀ kind view, copy.views.get kind = some view →
    s.rig.sourcesOf kind view = [(copy.native, resource.viewSpec kind)]

/-- There are as many copies behind the row as are due. If there is one for each frame, every index
that the caller can set stands for one of them. -/
structure Materializes (s : Session) (r : ResourceId) (resource : Resource) : Prop where
  count : (s.graph.scene.copies r).length =
    if resource.blueprint.buffered then max s.graph.config.frameCount 1 else 1
  furnished : ∀ copy ∈ s.graph.scene.copies r, s.Furnishes r resource copy
  indexed : resource.blueprint.buffered = true → ∀ n, ∃ copy,
    (s.graph.scene.copies r)[(s.graph.setFrameIndex n).frameIndex]? = some copy ∧ s.Finds n r copy

variable {s s' : Session} {r : ResourceId} {resource : Resource} {copy : Copy}

theorem finds_of_copy? (held : s.graph.declaration.resource? r = some resource) {n : Nat}
    (behind : s.graph.scene.copy? r (s.graph.setFrameIndex n).frameIndex = some copy) :
    s.Finds n r copy := by
  have held' : (s.graph.setFrameIndex n).declaration.resource? r = some resource := held
  have scene : (s.graph.setFrameIndex n).scene = s.graph.scene := rfl
  rw [Finds, Graph.lookUp_eq held', scene, behind]
  rfl

theorem finds_of_getElem? (held : s.graph.declaration.resource? r = some resource) {n : Nat}
    (indexed : (s.graph.scene.copies r)[(s.graph.setFrameIndex n).frameIndex]? = some copy) :
    s.Finds n r copy := by
  have inside := (List.getElem?_eq_some_iff.mp indexed).1
  refine finds_of_copy? held ?_
  unfold Scene.copy?
  dsimp only
  rw [Nat.mod_eq_of_lt inside]
  exact indexed

theorem Reachable.nodup_natives (reachable : s.Reachable) :
    (Copy.natives (s.graph.declaration.owned.flatMap s.graph.residency.copiesOf)).Nodup := by
  have once := (balances_of_accounts reachable.rowed reachable.accounts).once
  refine Copy.nodup_natives ?_
  rw [List.flatMap_assoc]
  exact (List.nodup_append.mp once).1

theorem Reachable.apart (reachable : s.Reachable) : Residency.Apart s.graph.residency := by
  have once := reachable.accounts.nodup_held
  intro holding member
  have assets := (List.nodup_flatMap.mp (List.nodup_append.mp once).1).1 holding member
  exact Copy.nodup_natives assets

theorem Does.furnished (reachable : s.Reachable) (does : s.Does Graph.compile s')
    (held : s'.graph.declaration.resource? r = some resource)
    (owned : resource.origin.isImported = false) (live : s'.graph.survival.isLive r = true)
    {o : Order} (order : s'.graph.declaration.order s'.graph.survival s'.graph.config.frameCount r
      resource = o) :
    (s'.graph.scene.copies r).length = o.count ∧
      ∀ copy ∈ s'.graph.scene.copies r, o.Furnishes s'.rig copy := by
  subst order
  have reachable' := reachable.compiled does
  have entry : (resource, r.index) ∈ s'.graph.declaration.resources.zipIdx :=
    List.mk_mem_zipIdx_iff_getElem?.mpr held
  have ordered :
      s'.graph.declaration.order s'.graph.survival s'.graph.config.frameCount r resource ∈
        s'.graph.declaration.orders s'.graph.survival s'.graph.config.frameCount :=
    List.mem_filterMap.mpr ⟨(resource, r.index), entry, if_pos (by simpa [owned] using live)⟩
  obtain ⟨holding, member, placed⟩ := exists_related does.residency_placed ordered
  have distinct := s'.graph.declaration.nodup_owned.sublist reachable'.rowed
  have row : holding.resource = r := placed.row
  have copies : s'.graph.scene.copies r = holding.copies := by
    rw [Scene.copies_of_owned held owned, ← row]
    exact Residency.copiesOf_of_mem distinct member
  rw [copies]
  exact ⟨placed.count, placed.furnished (Declaration.proper_of_mem_orders ordered)
    (reachable'.apart holding member)⟩

theorem furnishes_of_order (reachable : s.Reachable)
    (culled : s.graph.survival = s.graph.declaration.cull.survival) {frameCount : Nat}
    (furnishes : (s.graph.declaration.order s.graph.survival frameCount r resource).Furnishes
      s.rig copy) : s.Furnishes r resource copy := by
  have accounts := reachable.accounts
  have kinds {kind : ViewKind} : kind ∈ ((s.graph.declaration.order s.graph.survival frameCount r
      resource).views.map Prod.fst) ↔ s.graph.declaration.Asks r kind := by
    rw [← Declaration.get_wantedViews, ← culled, ← ViewMask.mem_kinds]
    simp [Declaration.order]
  have viewed {kind : ViewKind} (asks : s.graph.declaration.Asks r kind) : ∃ view,
      copy.views.get kind = some view ∧
        s.rig.ViewMade copy.native kind view (resource.viewSpec kind) := by
    obtain ⟨⟨_, spec⟩, member, rfl⟩ := List.mem_map.mp (kinds.mpr asks)
    obtain ⟨_, _, same⟩ := List.mem_map.mp member
    cases same
    exact furnishes.viewed _ _ member
  refine ⟨⟨_, accounts.requestsFor_eq furnishes.made, rfl, rfl, rfl⟩, fun kind => ?_,
    fun kind view entered => ?_⟩
  · constructor
    · intro entered
      by_contra unasked
      rw [furnishes.bare kind (mt kinds.mp unasked)] at entered
      cases entered
    · intro asks
      obtain ⟨view, entered, _⟩ := viewed asks
      exact entered ▸ rfl
  · have asks : s.graph.declaration.Asks r kind := by
      by_contra unasked
      rw [furnishes.bare kind (mt kinds.mp unasked)] at entered
      cases entered
    obtain ⟨view', entered', made⟩ := viewed asks
    cases entered.symm.trans entered'
    exact accounts.sourcesOf_eq made

theorem Does.materializes (reachable : s.Reachable) (does : s.Does Graph.compile s')
    (held : s'.graph.declaration.resource? r = some resource)
    (owned : resource.origin.isImported = false) (live : s'.graph.survival.isLive r = true) :
    s'.Materializes r resource := by
  obtain ⟨c, _, compiled, _⟩ := does.compiled
  obtain ⟨count, furnished⟩ := does.furnished reachable held owned live rfl
  change _ = if resource.blueprint.buffered then max s'.graph.config.frameCount 1 else 1 at count
  refine ⟨count, fun copy member => ?_, fun buffered n => ?_⟩
  · exact furnishes_of_order (reachable.compiled does) compiled.survival (furnished copy member)
  · rw [if_pos buffered] at count
    have inside : (s'.graph.setFrameIndex n).frameIndex < (s'.graph.scene.copies r).length := by
      rw [count]
      exact Nat.mod_lt n (Nat.lt_of_lt_of_le Nat.zero_lt_one (Nat.le_max_right _ _))
    exact ⟨_, List.getElem?_eq_getElem inside,
      finds_of_getElem? held (List.getElem?_eq_getElem inside)⟩

/-- Exact materialization. A compiled graph has behind each live row of its own the copies that are
due, all natives distinct, and behind the other rows of its own nothing. Behind imported rows stands
what the caller has bound, whatever the frame index. -/
theorem materialized_exactly (reachable : s.Reachable) (does : s.Does Graph.compile s') :
    (∀ r resource, s'.graph.declaration.resource? r = some resource →
      resource.origin.isImported = false →
      (s'.graph.survival.isLive r = true → s'.Materializes r resource) ∧
      (s'.graph.survival.isLive r = false → s'.graph.scene.copies r = [] ∧
        ∀ n, (s'.graph.setFrameIndex n).lookUp r = .ok (none, PerView.fill none))) ∧
    (s'.graph.declaration.owned.flatMap fun r => Copy.natives (s'.graph.scene.copies r)).Nodup ∧
    ∀ r resource bound, s.graph.declaration.resource? r = some resource →
      resource.origin = .imported bound → s.graph.scene.copies r = [bound] ∧
        s'.graph.scene.copies r = [bound] ∧ ∀ n, s'.Finds n r bound := by
  obtain ⟨_, _, _, _, declaration, _⟩ := does.compiled
  refine ⟨fun r resource held owned => ⟨does.materializes reachable held owned, fun dead => ?_⟩,
    ?_, fun r resource bound held imported => ?_⟩
  · have empty : s'.graph.scene.copies r = [] := by
      rw [Scene.copies_of_owned held owned]
      by_contra some
      have live := ((does.copiesOf_ne_nil_iff r).mp some).1
      rw [dead] at live
      cases live
    refine ⟨empty, fun n => ?_⟩
    have held' : (s'.graph.setFrameIndex n).declaration.resource? r = some resource := held
    have scene : (s'.graph.setFrameIndex n).scene = s'.graph.scene := rfl
    rw [Graph.lookUp_eq held', scene, Scene.copy?, empty]
    rfl
  · have rows :
        (s'.graph.declaration.owned.flatMap fun r => Copy.natives (s'.graph.scene.copies r)) =
          Copy.natives (s'.graph.declaration.owned.flatMap s'.graph.residency.copiesOf) := by
      rw [Copy.natives, List.map_flatMap]
      refine List.flatMap_congr fun r member => ?_
      have row : r ∈ s'.graph.declaration.rowsWhere (!·.origin.isImported) := member
      obtain ⟨resource, held, owned⟩ := Declaration.mem_rowsWhere.mp row
      rw [Scene.copies_of_owned held (by simpa using owned)]
      rfl
    rw [rows]
    exact (reachable.compiled does).nodup_natives
  · have held' : s'.graph.declaration.resource? r = some resource := declaration ▸ held
    have bound' {g : Graph} (held : g.declaration.resource? r = some resource) :
        g.scene.copies r = [bound] := by
      have found : g.scene.declaration.resource? r = some resource := held
      obtain ⟨name, origin, _⟩ := resource
      cases imported
      rw [Scene.copies, found]
    refine ⟨bound' held, bound' held', fun n => finds_of_copy? held' ?_⟩
    simp [Scene.copy?, bound' held', Nat.mod_one]

/-! An image with a copy for each of two frames, which a pass draws on. -/

def doubled : Session := [
  .manage "image" { extent := .texture 8 8, format := .rgba8Unorm, buffered := true } .colorTarget,
  .declare "draw" .graphics
    [.write ⟨0⟩ "image" .colorTarget [], .sideEffects true] none].foldl act (start {} [] {})

def doubledCull : CullResult :=
  ⟨{ passRefs := [1], resourceRefs := [0], live := [true] }, []⟩

theorem doubled_cull : doubled.graph.declaration.cull = doubledCull := by
  unfold doubled doubledCull
  cbv

def doubledBuilt : Session := doubled.built doubledCull

theorem doubled_compiles : doubled.Does Graph.compile doubledBuilt :=
  does_compile_of_fresh (by decide +kernel) (by decide +kernel) doubled_cull (by decide +kernel)

def doubledImage : Resource where
  name := "image"
  origin := .managed
  blueprint := { extent := .texture 8 8, format := .rgba8Unorm, buffered := true }
  usage := .colorTarget
  producer := some ⟨0⟩

def doubledCopy (native view : Nat) : Copy where
  native := ⟨native⟩
  views := (PerView.fill none).set .colorTarget (some ⟨view⟩)

theorem doubled_materialized : doubled.Reachable ∧ doubled.Does Graph.compile doubledBuilt ∧
    doubledBuilt.graph.scene.copies ⟨0⟩ = [doubledCopy 1 2, doubledCopy 3 4] ∧
    doubledBuilt.Finds 3 ⟨0⟩ (doubledCopy 3 4) ∧
    (∃ request, doubledBuilt.rig.requestsFor ⟨3⟩ = [request] ∧ request.state = .renderTarget) ∧
    doubledBuilt.rig.sourcesOf .colorTarget ⟨4⟩ = [(⟨3⟩, {})] := by
  have reachable : doubled.Reachable := (Reachable.start {} [] {}).foldl _
  have copies : doubledBuilt.graph.scene.copies ⟨0⟩ = [doubledCopy 1 2, doubledCopy 3 4] := by
    decide +kernel
  have held : doubledBuilt.graph.declaration.resource? ⟨0⟩ = some doubledImage := by
    decide +kernel
  have index : (doubledBuilt.graph.setFrameIndex 3).frameIndex = 1 := by decide +kernel
  obtain ⟨rows, _, _⟩ := materialized_exactly reachable doubled_compiles
  have materializes := (rows ⟨0⟩ doubledImage held rfl).1 (by decide +kernel)
  obtain ⟨copy, indexed, finds⟩ := materializes.indexed rfl 3
  rw [copies, index] at indexed
  have second : doubledCopy 3 4 = copy := Option.some.inj indexed
  have furnishes := materializes.furnished (doubledCopy 3 4) (by rw [copies]; simp)
  obtain ⟨request, created, _, _, state⟩ := furnishes.created
  exact ⟨reachable, doubled_compiles, copies, second ▸ finds, ⟨request, created, state⟩,
    furnishes.views .colorTarget ⟨4⟩ rfl⟩

end Session

end RenderGraph
