import Mathlib.Data.List.Basic
import RenderGraph.Schedule.Synthesis

/-! What each step of recording a pass does to the tracks of the resources. -/

namespace RenderGraph

namespace Draft

variable {d : Draft} {r q : ResourceId}

@[simp] theorem length_tracks_modifyTrack (d : Draft) (r : ResourceId) (f : Track → Track) :
    (d.modifyTrack r f).tracks.length = d.tracks.length := by
  simp [modifyTrack]

theorem track_modifyTrack (d : Draft) (r q : ResourceId) (f : Track → Track) :
    (d.modifyTrack r f).track q =
      if q = r ∧ q.index < d.tracks.length then f (d.track q) else d.track q := by
  simp only [modifyTrack, track, List.getD_eq_getElem?_getD, List.getElem?_modify]
  by_cases same : q = r
  · subst same
    by_cases inside : q.index < d.tracks.length
    · simp [inside]
    · simp [inside]
  · have apart : r.index ≠ q.index := fun index => same (congrArg ResourceId.mk index).symm
    simp [same, apart]

theorem track_of_length_le (outside : d.tracks.length ≤ r.index) : d.track r = {} := by
  simp [track, List.getD_eq_getElem?_getD, List.getElem?_eq_none outside]

theorem keeps_foldl_modifyTrack {α β : Type} (view : Draft → α)
    (same : ∀ tracks d, view { d with tracks } = view d) (resource : β → ResourceId)
    (f : β → Track → Track) (xs : List β) (d : Draft) :
    view (xs.foldl (fun d x => d.modifyTrack (resource x) (f x)) d) = view d := by
  induction xs generalizing d with
  | nil => rfl
  | cons x xs ih => exact (ih _).trans (same _ d)

theorem length_tracks_foldl_modifyTrack {β : Type} (resource : β → ResourceId)
    (f : β → Track → Track) (xs : List β) (d : Draft) :
    (xs.foldl (fun d x => d.modifyTrack (resource x) (f x)) d).tracks.length =
      d.tracks.length := by
  induction xs generalizing d with
  | nil => rfl
  | cons x xs ih => rw [List.foldl_cons, ih, length_tracks_modifyTrack]

theorem track_foldl_modifyTrack {β : Type} (resource : β → ResourceId) (f : β → Track → Track)
    (xs : List β) (d : Draft) (inside : r.index < d.tracks.length) :
    (xs.foldl (fun d x => d.modifyTrack (resource x) (f x)) d).track r =
      (xs.filter (resource · == r)).foldl (fun t x => f x t) (d.track r) := by
  induction xs generalizing d with
  | nil => rfl
  | cons x xs ih =>
    have kept : r.index < (d.modifyTrack (resource x) (f x)).tracks.length := by
      rwa [length_tracks_modifyTrack]
    rw [List.foldl_cons, ih _ kept, track_modifyTrack]
    by_cases same : resource x = r
    · subst same
      rw [if_pos ⟨rfl, inside⟩, List.filter_cons, if_pos (beq_self_eq_true _), List.foldl_cons]
    · have other : ¬ (resource x == r) = true := fun equal => same (eq_of_beq equal)
      rw [if_neg fun both => same both.1.symm, List.filter_cons, if_neg other]

def users (d : Draft) (r : ResourceId) : Option PassRef × List PassRef :=
  ((d.track r).lastWriter, (d.track r).readers)

theorem users_modifyTrack (d : Draft) (r q : ResourceId) {f : Track → Track}
    (same : ((f (d.track r)).lastWriter, (f (d.track r)).readers) = d.users r) :
    (d.modifyTrack r f).users q = d.users q := by
  unfold users at *
  rw [track_modifyTrack]
  split
  · rename_i here
    rw [here.1, same]
  · rfl

end Draft

namespace Demand

theorem users_serve (demand : Demand) (current : ResourceState) (s : Serving) :
    ((demand.serve current s).track.lastWriter, (demand.serve current s).track.readers) =
      (s.track.lastWriter, s.track.readers) := by
  unfold serve
  split
  · rfl
  · dsimp only
    split <;> rfl

theorem map_widen {α : Type} (view : Barrier → α)
    (same : ∀ t after, view (.transition { t with after }) = view (.transition t)) {r : ResourceId}
    {required after : ResourceState} {batch batch' : List Barrier}
    (widened : widen r required batch = some (after, batch')) :
    batch'.map view = batch.map view := by
  induction batch generalizing batch' with
  | nil => cases widened
  | cons barrier rest ih =>
    have later (map : (widen r required rest).map (fun found => (found.1, barrier :: found.2)) =
        some (after, batch')) : batch'.map view = (barrier :: rest).map view := by
      obtain ⟨⟨after, wider⟩, found, here⟩ := Option.map_eq_some_iff.mp map
      cases here
      exact congrArg (view barrier :: ·) (ih found)
    cases barrier with
    | unordered q => exact later widened
    | transition t =>
      rw [widen] at widened
      split at widened
      · cases widened
        exact congrArg (· :: rest.map view) (same t _)
      · exact later widened

theorem resources_widen {r : ResourceId} {required after : ResourceState}
    {batch batch' : List Barrier} (widened : widen r required batch = some (after, batch')) :
    batch'.map Barrier.resource = batch.map Barrier.resource :=
  map_widen Barrier.resource (fun _ _ => rfl) widened

theorem resource_of_mem_serve {demand : Demand} {current : ResourceState} {s : Serving}
    {x : Barrier} (member : x ∈ (demand.serve current s).batch) :
    x.resource ∈ s.batch.map Barrier.resource ∨ x.resource = demand.access.resource := by
  have old (kept : x ∈ s.batch) : x.resource ∈ s.batch.map Barrier.resource :=
    List.mem_map_of_mem kept
  unfold serve transit at member
  split at member
  · exact Or.inl (old member)
  · dsimp only at member
    split at member
    · dsimp only at member
      split at member
      · rename_i widened found
        rw [← resources_widen found]
        exact Or.inl (List.mem_map_of_mem member)
      · rcases List.mem_append.mp member with kept | new
        · exact Or.inl (old kept)
        · rw [List.mem_singleton.mp new]
          exact Or.inr rfl
    · split at member
      · rcases List.mem_append.mp member with kept | new
        · exact Or.inl (old kept)
        · rw [List.mem_singleton.mp new]
          exact Or.inr rfl
      · exact Or.inl (old member)

end Demand

namespace Draft

variable {b : Brief} {ordinal : Nat} {queue : Queue} {output : Bool} {d d' : Draft}
  {batch batch' : List Barrier}

theorem users_create (d : Draft) (queue : Queue) (a : Access) (r : ResourceId) :
    (d.create queue a).users r = d.users r :=
  users_modifyTrack d a.resource r rfl

theorem serveAll_cons_ok {a : Access} {rest : List Access}
    (served : serveAll b ordinal queue output (a :: rest) (d, batch) = .ok (d', batch')) :
    ∃ current, (d.track a.resource).state = some current ∧
      serveAll b ordinal queue output rest
        (d.modifyTrack a.resource fun _ =>
          (Demand.serve ⟨queue, a, output, b.targetState ordinal queue a output⟩ current
            ⟨d.track a.resource, batch⟩).track,
        (Demand.serve ⟨queue, a, output, b.targetState ordinal queue a output⟩ current
          ⟨d.track a.resource, batch⟩).batch) = .ok (d', batch') := by
  rw [serveAll] at served
  split at served
  · cases served
  · rename_i current state
    exact ⟨current, state, served⟩

theorem keeps_serveAll {α : Type} (view : Draft → α)
    (same : ∀ tracks d, view { d with tracks } = view d) {accesses : List Access}
    (served : serveAll b ordinal queue output accesses (d, batch) = .ok (d', batch')) :
    view d' = view d := by
  induction accesses generalizing d batch with
  | nil =>
    cases served
    rfl
  | cons a rest ih =>
    obtain ⟨current, _, later⟩ := serveAll_cons_ok served
    exact (ih later).trans (same _ d)

theorem users_serveAll {accesses : List Access}
    (served : serveAll b ordinal queue output accesses (d, batch) = .ok (d', batch'))
    (r : ResourceId) : d'.users r = d.users r := by
  induction accesses generalizing d batch with
  | nil =>
    cases served
    rfl
  | cons a rest ih =>
    obtain ⟨current, _, later⟩ := serveAll_cons_ok served
    exact (ih later).trans (users_modifyTrack d a.resource r (Demand.users_serve _ current _))

theorem resource_of_mem_serveAll {accesses : List Access}
    (served : serveAll b ordinal queue output accesses (d, batch) = .ok (d', batch'))
    {x : Barrier} (member : x ∈ batch') :
    x.resource ∈ batch.map Barrier.resource ∨ x.resource ∈ accesses.map Access.resource := by
  induction accesses generalizing d batch with
  | nil =>
    cases served
    exact Or.inl (List.mem_map_of_mem member)
  | cons a rest ih =>
    obtain ⟨current, _, later⟩ := serveAll_cons_ok served
    rcases ih later with old | new
    · obtain ⟨y, present, same⟩ := List.mem_map.mp old
      rw [← same]
      rcases Demand.resource_of_mem_serve present with before | here
      · exact Or.inl before
      · exact Or.inr (here ▸ List.mem_cons_self)
    · exact Or.inr (List.mem_cons_of_mem _ new)

theorem length_tracks_serveAll {accesses : List Access}
    (served : serveAll b ordinal queue output accesses (d, batch) = .ok (d', batch')) :
    d'.tracks.length = d.tracks.length := by
  induction accesses generalizing d batch with
  | nil =>
    cases served
    rfl
  | cons a rest ih =>
    obtain ⟨current, _, later⟩ := serveAll_cons_ok served
    rw [ih later, length_tracks_modifyTrack]

end Draft

end RenderGraph
