import RenderGraph.Proofs.CreatedOnce
import RenderGraph.Proofs.GraphAccounts

/-! The rows that the graph owns. A resource is imported from its declaration on or never, so that
the copies that the graph holds stay those of rows that it owns, each row once and in the order of
declaration. -/

namespace RenderGraph

namespace Declaration

def imports (d : Declaration) : List Bool := d.resources.map (·.origin.isImported)

/-- The resources that the graph owns: the managed and the transient ones. -/
def owned (d : Declaration) : List ResourceId :=
  (d.resources.zipIdx.filter fun (resource, _) => !resource.origin.isImported).map fun (_, i) => ⟨i⟩

variable {d d' : Declaration}

theorem owned_eq (d : Declaration) : d.owned =
    (d.imports.zipIdx.filter fun (imported, _) => !imported).map fun (_, i) => ⟨i⟩ := by
  rw [owned, imports, List.zipIdx_map, List.filter_map, List.map_map]
  rfl

theorem owned_of_imports (longer : d.imports <+: d'.imports) : d.owned.Sublist d'.owned := by
  obtain ⟨more, same⟩ := longer
  rw [owned_eq, owned_eq, ← same, List.zipIdx_append, List.filter_append, List.map_append]
  exact List.sublist_append_left _ _

theorem nodup_owned (d : Declaration) : d.owned.Nodup :=
  d.nodup_rowsWhere (!·.origin.isImported)

theorem imports_modifyResource (d : Declaration) (r : ResourceId) {f : Resource → Resource}
    (kept : ∀ resource, d.resource? r = some resource →
      (f resource).origin.isImported = resource.origin.isImported) :
    (d.modifyResource r f).imports = d.imports :=
  map_modify_of_kept kept

theorem imports_addResource (d : Declaration) (resource : Resource) :
    (d.addResource resource).2.imports = d.imports ++ [resource.origin.isImported] :=
  List.map_append

theorem imports_state {p : PassId} {queue : Queue} {call : PassCall} {reply : PassReply}
    (ok : d.state p queue call = .ok (reply, d')) : d.imports <+: d'.imports := by
  have tweaked (r : ResourceId) (tweaks : List Tweak) {g : Resource → Resource}
      (kept : ∀ resource, (g resource).origin = resource.origin) : d.imports <+:
        (d.modifyResource r fun resource =>
          tweaks.foldl Tweak.onResource (g resource)).imports := by
    have same := d.imports_modifyResource r (f := fun resource =>
        tweaks.foldl Tweak.onResource (g resource)) fun resource _ =>
      congrArg Origin.isImported ((Tweak.origin_foldl_onResource _ _).trans (kept resource))
    exact same ▸ List.prefix_refl _
  cases call with
  | read r name usage tweaks =>
    obtain ⟨resource, _, made⟩ := exists_of_getResource ok
    cases made
    exact tweaked r tweaks fun _ => rfl
  | readDefault r name tweaks =>
    obtain ⟨resource, _, made⟩ := exists_of_getResource ok
    cases made
    exact tweaked r tweaks fun _ => rfl
  | write r name usage tweaks =>
    obtain ⟨resource, _, made⟩ := exists_of_getResource ok
    cases made
    exact tweaked r tweaks fun _ => rfl
  | create blueprint name usage tweaks =>
    cases ok
    exact ⟨_, (d.imports_addResource _).symm⟩
  | sideEffects value =>
    cases ok
    exact List.prefix_refl _

theorem imports_stateAll (p : PassId) (queue : Queue) (calls : List PassCall) :
    d.imports <+: (d.stateAll p queue calls).2.2.imports := by
  induction calls generalizing d with
  | nil => exact List.prefix_refl _
  | cons call rest ih =>
    unfold stateAll
    cases made : d.state p queue call with
    | error misuse => exact List.prefix_refl _
    | ok result => exact (imports_state made).trans ih

theorem imports_declare (name : String) (queue : Queue) (calls : List PassCall)
    (recorder : Option (List ResourceId)) :
    d.imports <+: (d.declare name queue calls recorder).2.imports := by
  have stated := imports_stateAll (d := (d.addPass { name, queue }).2)
    (d.addPass { name, queue }).1 queue calls
  unfold declare
  dsimp only
  split <;> exact stated

end Declaration

theorem Op.keeps_releaseCopies {σ β : Type} {view : σ → β} (copies : List Copy) :
    (Op.releaseCopies copies : Op σ Unit).Keeps view := by
  have views (copy : Copy) : (Op.freeViews copy : Op σ Unit).Keeps view := by
    refine Op.keeps_forM _ fun kind => ?_
    split
    · exact Op.keeps_call _
    · exact Op.keeps_pure ()
  exact (Op.keeps_forM copies views).bind fun _ => Op.keeps_forM copies fun _ => Op.keeps_call _

namespace Residency

def rows (held : Residency) : List ResourceId := held.map (·.resource)

variable {owned : List ResourceId}

theorem maintains_of_keeps {α : Type} {op : Op Residency α} (keeps : op.Keeps id) :
    op.Maintains fun held => (rows held).Sublist owned :=
  keeps.maintains fun _ _ same holds => by
    rw [id_eq, id_eq] at same
    exact same ▸ holds

theorem maintains_releaseAll : releaseAll.Maintains fun held => (rows held).Sublist owned := by
  refine Op.maintains_read_bind fun held rig holds => ?_
  have released : (held.forM fun holding => Op.releaseCopies holding.copies :
      Op Residency Unit).Keeps id := Op.keeps_forM held fun _ => Op.keeps_releaseCopies _
  have emptied : (Op.update fun _ => [] : Op Residency Unit).Maintains fun held =>
      (rows held).Sublist owned := Op.maintains_update fun _ _ => List.nil_sublist owned
  exact (maintains_of_keeps released).bind (fun _ => emptied) held rig holds

theorem rows_place (o : Order) (held : Residency) (rig : Rig) :
    (rows ((place o).run held rig).2.1).Sublist (rows held ++ [o.resource]) := by
  have kept : (rows held).Sublist (rows held ++ [o.resource]) := List.sublist_append_left _ _
  have added (copies : List Copy) :
      (rows (held ++ [⟨o.resource, copies⟩])).Sublist (rows held ++ [o.resource]) := by
    rw [rows, List.map_append]
    exact List.Sublist.refl _
  rw [place, Op.run_bind, Op.run_aside]
  rcases (o.addCopies o.count).run [] rig with ⟨failure | ⟨⟩, copies, after⟩
  · cases failure with
    | device error =>
      have gives : (giveBack copies (.device error)).Maintains fun left =>
          (rows left).Sublist (rows held ++ [o.resource]) :=
        (maintains_of_keeps (Op.keeps_releaseCopies copies)).bind fun _ =>
          maintains_releaseAll.bind fun _ => Op.maintains_fail _
      dsimp only
      rw [Op.run_bind, Op.run_note]
      exact gives held _ kept
    | allPassesCulled | readBeforeCreate | unbound | notCompiled | misuse => exact added copies
  · exact added copies

theorem rows_placeAll (orders : List Order) (held : Residency) (rig : Rig) :
    (rows ((placeAll orders).run held rig).2.1).Sublist
      (rows held ++ orders.map (·.resource)) := by
  have places : ∀ held rig, (rows ((orders.forM place).run held rig).2.1).Sublist
      (rows held ++ orders.map (·.resource)) := by
    induction orders with
    | nil => exact fun held _ => (List.append_nil (rows held)).symm ▸ List.Sublist.refl _
    | cons o orders ih =>
      intro held rig
      have first := rows_place o held rig
      change (rows ((place o >>= fun _ => orders.forM place).run held rig).2.1).Sublist _
      rw [Op.run_bind]
      rcases ran : (place o).run held rig with ⟨failure | ⟨⟩, mid, rigMid⟩
      all_goals
        rw [ran] at first
        rw [List.map_cons, ← List.singleton_append, ← List.append_assoc]
      · exact first.trans (List.sublist_append_left _ _)
      · exact (ih mid rigMid).trans (first.append_right _)
  have placed := places held rig
  rw [placeAll, Op.run_bind]
  rcases ran : (orders.forM place).run held rig with ⟨failure | ⟨⟩, mid, rigMid⟩
  all_goals
    rw [ran] at placed
    exact placed

end Residency

theorem Declaration.rows_orders (d : Declaration) (s : Survival) (frameCount : Nat) :
    ((d.orders s frameCount).map (·.resource)).Sublist d.owned := by
  rw [orders, owned]
  induction d.resources.zipIdx with
  | nil => exact List.Sublist.refl _
  | cons entry entries ih =>
    obtain ⟨resource, i⟩ := entry
    rw [List.filterMap_cons, List.filter_cons]
    cases imported : resource.origin.isImported with
    | true => simpa [imported] using ih
    | false =>
      cases live : s.isLive ⟨i⟩ with
      | true => simpa [imported, live, order] using ih
      | false => simpa [imported, live] using ih.cons _

namespace Graph

def Rowed (g : Graph) : Prop := g.residency.rows.Sublist g.declaration.owned

variable {g : Graph} {rig : Rig}

theorem rowed_of_empty (empty : g.residency = []) : g.Rowed := by
  rw [Rowed, empty]
  exact List.nil_sublist _

theorem maintains_rowed_of_keeps {α : Type} {op : Op Graph α}
    (keeps : op.Keeps fun g => (g.residency, g.declaration)) : op.Maintains Rowed := by
  refine keeps.maintains fun g g' same rowed => ?_
  obtain ⟨residency, declaration⟩ := Prod.mk.inj same
  rw [Rowed, residency, declaration]
  exact rowed

theorem maintains_releaseResidency_rowed : releaseResidency.Maintains Rowed := fun g rig rowed =>
  Residency.maintains_releaseAll g.residency rig rowed

theorem upholds_release_rowed {α : Type} {next : Op Graph α}
    (ends : ∀ g rig, g.residency = [] → (next.run g rig).2.1.Rowed) :
    (release >>= fun _ => next).Upholds fun g _ => g.Rowed :=
  upholds_of_release (maintains_rowed_of_keeps keeps_drain) fun _ _ g' rig' _ ran =>
    ends g' rig' (residency_of_release ran)

theorem rowed_build (empty : g.residency = []) (rig : Rig) : (build.run g rig).2.1.Rowed := by
  have placed : (placeResources.run g rig).2.1.Rowed := by
    have rows := Residency.rows_placeAll
      (g.declaration.orders g.survival g.config.frameCount) g.residency rig
    rw [empty] at rows
    rw [placeResources, Op.run_bind, Op.run_read]
    dsimp only
    rw [Op.run_within, empty]
    exact rows.trans (g.declaration.rows_orders g.survival g.config.frameCount)
  have assembles (g : Graph) : g.assemble.Maintains Rowed := by
    apply (maintains_rowed_of_keeps (Op.keeps_aside _ _)).bind
    rintro ⟨result, _⟩
    cases result with
    | error failure =>
      exact maintains_releaseResidency_rowed.bind fun _ => Op.maintains_fail failure
    | ok c =>
      refine (maintains_rowed_of_keeps (Op.keeps_note _ _)).bind fun _ => ?_
      dsimp only
      split
      · refine (maintains_rowed_of_keeps (Op.keeps_note _ _)).bind fun _ => ?_
        exact maintains_rowed_of_keeps (Op.keeps_update fun _ => rfl)
      · exact maintains_rowed_of_keeps (Op.keeps_update fun _ => rfl)
  rw [build_eq, Op.run_bind]
  rcases ran : placeResources.run g rig with ⟨failure | ⟨⟩, mid, rigMid⟩
  all_goals rw [ran] at placed
  · exact placed
  · dsimp only
    rw [Op.run_bind, Op.run_read]
    exact assembles mid mid rigMid placed

theorem upholds_compile_rowed : compile.Upholds fun g _ => g.Rowed := by
  refine upholds_release_rowed fun g rig empty => ?_
  have culls : cull.run g rig = (.ok g.declaration.cull, g.culled g.declaration.cull,
      rig.noteAll (g.declaration.cullLines g.declaration.cull)) := rfl
  rw [Op.run_bind, culls]
  exact rowed_build (g := g.culled g.declaration.cull) empty _

theorem upholds_setFrameCount_rowed (n : Nat) : (setFrameCount n).Upholds fun g _ => g.Rowed :=
  upholds_release_rowed fun _ _ empty => rowed_of_empty empty

theorem upholds_reset_rowed : reset.Upholds fun g _ => g.Rowed :=
  upholds_release_rowed fun _ _ empty => rowed_of_empty empty

end Graph

namespace Session

variable {s : Session}

theorem rowed_of_imports {g g' : Graph} (rowed : g.Rowed) (residency : g'.residency = g.residency)
    (longer : g.declaration.imports <+: g'.declaration.imports) : g'.Rowed := by
  rw [Graph.Rowed, residency]
  exact List.Sublist.trans rowed (Declaration.owned_of_imports longer)

theorem rowed_rebound (rowed : s.graph.Rowed) (r : ResourceId) (f : Copy → Copy) :
    (s.rebound (s.graph.rebind r f)).graph.Rowed := by
  unfold Graph.rebind
  cases found : s.graph.declaration.getResource r with
  | error misuse => exact rowed
  | ok resource =>
    obtain ⟨name, origin, _⟩ := resource
    cases origin with
    | imported bound =>
      have same := s.graph.declaration.imports_modifyResource r
        (f := ({ · with origin := .imported (f bound) })) fun old held => by
          rw [Declaration.getResource, held] at found
          cases found
          rfl
      refine rowed_of_imports rowed rfl ?_
      exact same ▸ List.prefix_refl _
    | managed | transient => exact rowed

theorem Reachable.rowed (reachable : s.Reachable) : s.graph.Rowed := by
  induction reachable with
  | start config faults journal => exact Graph.rowed_of_empty rfl
  | @act s reachable a rowed =>
    cases a with
    | importResource | manage =>
      exact rowed_of_imports rowed rfl ⟨_, (Declaration.imports_addResource _ _).symm⟩
    | declare name queue calls recorder =>
      exact rowed_of_imports rowed rfl (Declaration.imports_declare name queue calls recorder)
    | setFrameIndex | useData | clearData | plan | refuseResources => exact rowed
    | update r native => exact rowed_rebound rowed r _
    | updateView r kind view => exact rowed_rebound rowed r _
    | setFrameCount n =>
      exact Graph.upholds_setFrameCount_rowed n s.graph s.rig rowed
    | compile => exact Graph.upholds_compile_rowed s.graph s.rig rowed
    | execute =>
      exact Graph.maintains_rowed_of_keeps (Graph.keeps_execute fun _ _ => rfl) s.graph s.rig rowed
    | drain => exact Graph.maintains_rowed_of_keeps Graph.keeps_drain s.graph s.rig rowed
    | reset => exact Graph.upholds_reset_rowed s.graph s.rig rowed

end Session

end RenderGraph
