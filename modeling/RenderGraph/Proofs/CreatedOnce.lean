import Mathlib.Data.List.Nodup
import RenderGraph.Proofs.DeclaredOrder

/-! The rows of a declaration that have some property, and among them the transient ones. These are
created one after another, each by one access of one pass. -/

namespace RenderGraph

theorem map_modify_of_kept {α β : Type} {g : α → β} {f : α → α} {xs : List α} {i : Nat}
    (kept : ∀ x, xs[i]? = some x → g (f x) = g x) : (xs.modify i f).map g = xs.map g := by
  apply List.ext_getElem?
  intro j
  rw [List.getElem?_map, List.getElem?_map, List.getElem?_modify]
  cases found : xs[j]? with
  | none => rfl
  | some x =>
    by_cases here : i = j
    · subst here
      simp [kept x found]
    · simp [here]

theorem modify_concat {α : Type} (xs : List α) (x : α) (f : α → α) :
    (xs ++ [x]).modify xs.length f = xs ++ [f x] := by
  induction xs with
  | nil => rfl
  | cons y xs ih => exact congrArg (y :: ·) ih

theorem find?_of_nodup_map {α κ : Type} [BEq κ] [LawfulBEq κ] {key : α → κ} {xs : List α}
    (distinct : (xs.map key).Nodup) {x : α} (member : x ∈ xs) :
    xs.find? (key · == key x) = some x := by
  induction xs with
  | nil => cases member
  | cons y xs ih =>
    obtain ⟨absent, distinct⟩ := List.nodup_cons.mp distinct
    rcases List.mem_cons.mp member with rfl | member
    · simp
    · have apart : key y ≠ key x := fun same => absent (same ▸ List.mem_map_of_mem member)
      rw [List.find?_cons_of_neg (by simpa using apart)]
      exact ih distinct member

namespace Declaration

def rowsWhere (d : Declaration) (P : Resource → Bool) : List ResourceId :=
  (d.resources.zipIdx.filter fun (resource, _) => P resource).map fun (_, i) => ⟨i⟩

variable {d d' : Declaration} {P : Resource → Bool} {r : ResourceId} {p : PassId} {pass : Pass}

theorem resource?_modifyResource (d : Declaration) (r q : ResourceId) (f : Resource → Resource) :
    (d.modifyResource r f).resource? q =
      if r = q then (d.resource? q).map f else d.resource? q := by
  rw [resource?, modifyResource, List.getElem?_modify]
  by_cases here : r = q
  · simp [here, resource?]
  · have apart : r.index ≠ q.index := fun same => here (congrArg ResourceId.mk same)
    simp [here, apart, resource?]

theorem rowsWhere_eq (d : Declaration) (P : Resource → Bool) : d.rowsWhere P =
    ((d.resources.map P).zipIdx.filter fun (holds, _) => holds).map fun (_, i) => ⟨i⟩ := by
  rw [rowsWhere, List.zipIdx_map, List.filter_map, List.map_map]
  rfl

theorem nodup_rowsWhere (d : Declaration) (P : Resource → Bool) : (d.rowsWhere P).Nodup := by
  have indices : (d.resources.zipIdx.map Prod.snd).Nodup := by
    rw [List.zipIdx_map_snd]
    exact List.nodup_range'
  have rows : (d.resources.zipIdx.map fun entry => ResourceId.mk entry.2).Nodup := by
    rw [← Function.comp_def ResourceId.mk Prod.snd, ← List.map_map]
    exact indices.map fun _ _ same => congrArg ResourceId.index same
  exact rows.sublist (List.filter_sublist.map _)

theorem mem_rowsWhere : r ∈ d.rowsWhere P ↔
    ∃ resource, d.resource? r = some resource ∧ P resource = true := by
  simp only [rowsWhere, List.mem_map, List.mem_filter, Prod.exists, List.mk_mem_zipIdx_iff_getElem?]
  constructor
  · rintro ⟨resource, i, ⟨held, holds⟩, rfl⟩
    exact ⟨resource, held, holds⟩
  · rintro ⟨resource, held, holds⟩
    exact ⟨resource, r.index, ⟨held, holds⟩, rfl⟩

theorem rowsWhere_congr (same : d'.resources.map P = d.resources.map P) :
    d'.rowsWhere P = d.rowsWhere P := by
  rw [rowsWhere_eq, rowsWhere_eq, same]

theorem rowsWhere_modifyResource {f : Resource → Resource}
    (kept : ∀ resource, d.resource? r = some resource → P (f resource) = P resource) :
    (d.modifyResource r f).rowsWhere P = d.rowsWhere P :=
  rowsWhere_congr (map_modify_of_kept kept)

theorem rowsWhere_modifyPass (f : Pass → Pass) :
    (d.modifyPass p f).rowsWhere P = d.rowsWhere P := rfl

theorem rowsWhere_addResource (d : Declaration) (resource : Resource) (P : Resource → Bool) :
    (d.addResource resource).2.rowsWhere P =
      d.rowsWhere P ++ if P resource then [(d.addResource resource).1] else [] := by
  rw [rowsWhere, rowsWhere, addResource, List.zipIdx_append, List.filter_append, List.map_append]
  cases holds : P resource <;> simp [holds]

def created (d : Declaration) : List ResourceId :=
  (d.passes.map (·.creates)).flatten.map (·.resource)

/-- The transient resources are created in the order of declaration, each once. -/
def CreatesOnce (d : Declaration) : Prop := d.created = d.rowsWhere (·.origin.isTransient)

theorem created_modifyPass {f : Pass → Pass}
    (kept : ∀ pass, (f pass).creates = pass.creates) : (d.modifyPass p f).created = d.created := by
  rw [created, created, modifyPass, map_modify_of_kept fun pass _ => kept pass]

theorem created_modifyLast (last : d.Last p) {f : Pass → Pass} {a : Access}
    (adds : ∀ pass, (f pass).creates = pass.creates ++ [a]) :
    (d.modifyPass p f).created = d.created ++ [a.resource] := by
  unfold Last at last
  obtain ⟨passes, resources⟩ := d
  rcases List.eq_nil_or_concat passes with rfl | ⟨front, pass, rfl⟩
  · cases last
  · have place : p.index = front.length := by simpa using last.symm
    rw [List.concat_eq_append, created, created, modifyPass, place, modify_concat]
    simp [adds]

theorem createsOnce_empty : ({} : Declaration).CreatesOnce := rfl

namespace CreatesOnce

theorem modifyPass (once : d.CreatesOnce) {f : Pass → Pass}
    (kept : ∀ pass, (f pass).creates = pass.creates) : (d.modifyPass p f).CreatesOnce :=
  (created_modifyPass kept).trans once

theorem modifyResource (once : d.CreatesOnce) {f : Resource → Resource}
    (kept : ∀ resource, d.resource? r = some resource →
      (f resource).origin.isTransient = resource.origin.isTransient) :
    (d.modifyResource r f).CreatesOnce :=
  once.trans (rowsWhere_modifyResource kept).symm

theorem addResource (once : d.CreatesOnce) {resource : Resource}
    (lasting : resource.origin.isTransient = false) : (d.addResource resource).2.CreatesOnce := by
  unfold CreatesOnce
  rw [rowsWhere_addResource, lasting]
  exact once.trans (List.append_nil _).symm

theorem addPass (once : d.CreatesOnce) (none : pass.creates = []) :
    (d.addPass pass).2.CreatesOnce := by
  have same : (d.addPass pass).2.created = d.created := by
    simp [created, Declaration.addPass, none]
  exact same.trans once

theorem create (once : d.CreatesOnce) (last : d.Last p) (queue : Queue) (blueprint : Blueprint)
    (name : String) (usage : Usage) (tweaks : List Tweak) :
    (d.create p queue blueprint name usage tweaks).2.CreatesOnce := by
  unfold CreatesOnce Declaration.create
  dsimp only
  rw [created_modifyLast (d := (d.addResource _).2) last fun _ => rfl,
    Tweak.resource_foldl_onAccess]
  rw [rowsWhere_modifyPass, rowsWhere_addResource, Tweak.origin_foldl_onResource]
  exact congrArg (· ++ [_]) once

theorem state {call : PassCall} {queue : Queue} {reply : PassReply} (once : d.CreatesOnce)
    (last : d.Last p) (ok : d.state p queue call = .ok (reply, d')) : d'.CreatesOnce := by
  cases call with
  | read r name usage tweaks | readDefault r name tweaks | write r name usage tweaks =>
    obtain ⟨resource, _, made⟩ := exists_of_getResource ok
    cases made
    refine modifyPass (d := d.modifyResource r _) (once.modifyResource fun resource _ => ?_)
      fun _ => rfl
    rw [Tweak.origin_foldl_onResource]
  | create blueprint name usage tweaks =>
    cases ok
    exact once.create last queue blueprint name usage tweaks
  | sideEffects value =>
    cases ok
    exact once.modifyPass fun _ => rfl

theorem stateAll (once : d.CreatesOnce) (last : d.Last p) (queue : Queue)
    (calls : List PassCall) : (d.stateAll p queue calls).2.2.CreatesOnce := by
  induction calls generalizing d with
  | nil => exact once
  | cons call rest ih =>
    unfold Declaration.stateAll
    cases made : d.state p queue call with
    | error misuse => exact once
    | ok result => exact ih (once.state last made) (last_state last made)

theorem declare (once : d.CreatesOnce) (name : String) (queue : Queue) (calls : List PassCall)
    (recorder : Option (List ResourceId)) :
    (d.declare name queue calls recorder).2.CreatesOnce := by
  have added : (d.addPass { name, queue }).2.Last (d.addPass { name, queue }).1 :=
    List.length_append
  have stated := (once.addPass rfl).stateAll added queue calls
  unfold Declaration.declare
  dsimp only
  split
  · exact stated.modifyPass fun _ => rfl
  · exact stated

theorem holdsTransient (once : d.CreatesOnce) (member : pass ∈ d.passes) {a : Access}
    (creates : a ∈ pass.creates) : d.HoldsTransient a.resource := by
  refine mem_rowsWhere.mp (once ▸ List.mem_map_of_mem ?_)
  exact List.mem_flatten.mpr ⟨_, List.mem_map_of_mem member, creates⟩

end CreatesOnce

def creation? (d : Declaration) (r : ResourceId) : Option Access :=
  (d.passes.map (·.creates)).flatten.find? (·.resource == r)

theorem CreatesOnce.creation?_eq (once : d.CreatesOnce) (member : pass ∈ d.passes) {a : Access}
    (creates : a ∈ pass.creates) : d.creation? a.resource = some a := by
  have distinct : d.created.Nodup := once ▸ d.nodup_rowsWhere _
  exact find?_of_nodup_map distinct
    (List.mem_flatten.mpr ⟨_, List.mem_map_of_mem member, creates⟩)

theorem CreatesOnce.creation?_eq_none (once : d.CreatesOnce) {resource : Resource}
    (held : d.resource? r = some resource) (lasting : resource.origin.isTransient = false) :
    d.creation? r = none := by
  refine List.find?_eq_none.mpr fun a member same => ?_
  obtain ⟨creates, inside, creator⟩ := List.mem_flatten.mp member
  obtain ⟨pass, declared, rfl⟩ := List.mem_map.mp inside
  obtain ⟨other, found, transient⟩ := once.holdsTransient declared creator
  rw [eq_of_beq same, held] at found
  cases found
  rw [lasting] at transient
  cases transient

theorem CreatesOnce.apart (once : d.CreatesOnce) :
    d.passes.Pairwise fun x y => ∀ a ∈ x.creates, ∀ c ∈ y.creates, a.resource ≠ c.resource := by
  have distinct : d.created.Nodup := once ▸ d.nodup_rowsWhere _
  rw [created, List.map_flatten, List.nodup_flatten, List.map_map] at distinct
  refine (List.pairwise_map.mp distinct.2).imp fun disjoint a creates c creates' same => ?_
  exact disjoint (List.mem_map_of_mem creates) (same ▸ List.mem_map_of_mem creates')

end Declaration

namespace Session

theorem createsOnce_rebound {s : Session} (once : s.graph.declaration.CreatesOnce)
    {r : ResourceId} {f : Copy → Copy} :
    (s.rebound (s.graph.rebind r f)).graph.declaration.CreatesOnce := by
  unfold Graph.rebind
  cases found : s.graph.declaration.getResource r with
  | error misuse => exact once
  | ok resource =>
    obtain ⟨name, origin, _⟩ := resource
    cases origin with
    | imported bound =>
      refine once.modifyResource fun old held => ?_
      rw [Declaration.getResource, held] at found
      cases found
      rfl
    | managed | transient => exact once

theorem Reachable.createsOnce {s : Session} (reachable : s.Reachable) :
    s.graph.declaration.CreatesOnce := by
  induction reachable with
  | start config faults journal => exact Declaration.createsOnce_empty
  | @act s reachable a once =>
    have same (op : Op Graph Unit) (kept : op.Keeps (·.declaration)) :
        (s.after op).graph.declaration.CreatesOnce := by
      have declaration : (s.after op).graph.declaration = s.graph.declaration := kept s.graph s.rig
      rw [declaration]
      exact once
    cases a with
    | importResource | manage => exact once.addResource rfl
    | declare name queue calls recorder => exact once.declare name queue calls recorder
    | update r native => exact createsOnce_rebound once
    | updateView r kind view => exact createsOnce_rebound once
    | setFrameIndex | useData | clearData | plan | refuseResources => exact once
    | setFrameCount n => exact same _ (Graph.keeps_setFrameCount n fun _ _ _ _ _ _ => rfl)
    | compile => exact same _ (Graph.keeps_compile fun _ _ _ _ _ _ => rfl)
    | execute => exact same Graph.execute (Graph.keeps_execute fun _ _ => rfl)
    | drain => exact same Graph.drain Graph.keeps_drain
    | reset =>
      rcases s.declaration_reset with kept | emptied
      · exact kept ▸ once
      · exact emptied ▸ Declaration.createsOnce_empty

end Session

end RenderGraph
