import RenderGraph.Culling.Survival

/-! What calls can declare. Every access of a declared pass names a declared resource: a call with
any other name is turned down, and resources are never taken back. -/

namespace RenderGraph

theorem getElem?_concat_eq_some {α : Type} {xs : List α} {k : Nat} {x y : α} :
    (xs ++ [x])[k]? = some y ↔ xs[k]? = some y ∨ k = xs.length ∧ x = y := by
  rcases Nat.lt_trichotomy k xs.length with low | rfl | high
  · simp [List.getElem?_append_left low, Nat.ne_of_lt low]
  · simp
  · have outside : xs[k]? = none := List.getElem?_eq_none (Nat.le_of_lt high)
    have beyond : (xs ++ [x])[k]? = none := by
      apply List.getElem?_eq_none
      simp only [List.length_append, List.length_singleton]
      omega
    simp [outside, beyond, Nat.ne_of_gt high]

def Pass.Within (p : Pass) (bound : Nat) : Prop := ∀ a ∈ p.accesses, a.resource.index < bound

/-- Every access names a declared resource. -/
def Declaration.Closed (d : Declaration) : Prop :=
  ∀ pass ∈ d.passes, pass.Within d.resources.length

theorem Pass.Within.mono {p : Pass} {low high : Nat} (within : p.Within low) (le : low ≤ high) :
    p.Within high := by
  intro a member
  exact Nat.lt_of_lt_of_le (within a member) le

namespace Tweak

theorem resource_onAccess (a : Access) (t : Tweak) : (t.onAccess a).resource = a.resource := by
  cases t <;> rfl

theorem resource_foldl_onAccess (tweaks : List Tweak) (a : Access) :
    (tweaks.foldl onAccess a).resource = a.resource := by
  induction tweaks generalizing a with
  | nil => rfl
  | cons t tweaks ih => rw [List.foldl_cons, ih, resource_onAccess]

end Tweak

namespace Declaration

variable {d : Declaration}

@[simp] theorem length_modifyResource (r : ResourceId) (f : Resource → Resource) :
    (d.modifyResource r f).resources.length = d.resources.length := by
  simp [modifyResource]

theorem Closed.modifyResource (closed : d.Closed) (r : ResourceId) (f : Resource → Resource) :
    (d.modifyResource r f).Closed := by
  intro pass member
  rw [length_modifyResource]
  exact closed pass member

theorem Closed.modifyPass (closed : d.Closed) (p : PassId) (f : Pass → Pass)
    (kept : ∀ pass, pass.Within d.resources.length → (f pass).Within d.resources.length) :
    (d.modifyPass p f).Closed := by
  intro pass member
  obtain ⟨i, inside, rfl⟩ := List.getElem_of_mem member
  simp only [Declaration.modifyPass, List.getElem_modify]
  have old : i < d.passes.length := by simpa [Declaration.modifyPass] using inside
  split
  · exact kept _ (closed _ (List.getElem_mem old))
  · exact closed _ (List.getElem_mem old)

theorem Closed.addResource (closed : d.Closed) (resource : Resource) :
    (d.addResource resource).2.Closed := by
  intro pass member
  exact (closed pass member).mono (by simp [Declaration.addResource])

theorem Closed.addPass (closed : d.Closed) (pass : Pass)
    (within : pass.Within d.resources.length) : (d.addPass pass).2.Closed := by
  intro other member
  simp only [Declaration.addPass, List.mem_append, List.mem_singleton] at member
  rcases member with old | rfl
  · exact closed other old
  · exact within

theorem Closed.read (closed : d.Closed) (p : PassId) {r : ResourceId} (name : String)
    (usage : Usage) (tweaks : List Tweak) (bound : r.index < d.resources.length) :
    (d.read p r name usage tweaks).Closed := by
  refine (closed.modifyResource r _).modifyPass p _ ?_
  intro pass within a member
  rw [length_modifyResource] at within ⊢
  simp only [Pass.accesses, List.mem_append, List.mem_singleton] at member
  rcases member with (created | old | rfl) | written
  · exact within a (by simp [Pass.accesses, created])
  · exact within a (by simp [Pass.accesses, old])
  · rw [Tweak.resource_foldl_onAccess]
    exact bound
  · exact within a (by simp [Pass.accesses, written])

theorem Closed.write (closed : d.Closed) (p : PassId) {r : ResourceId} (imported : Bool)
    (name : String) (usage : Usage) (tweaks : List Tweak)
    (bound : r.index < d.resources.length) :
    (d.write p r imported name usage tweaks).Closed := by
  refine (closed.modifyResource r _).modifyPass p _ ?_
  intro pass within a member
  rw [length_modifyResource] at within ⊢
  simp only [Pass.accesses, List.mem_append, List.mem_singleton] at member
  rcases member with (created | read) | old | rfl
  · exact within a (by simp [Pass.accesses, created])
  · exact within a (by simp [Pass.accesses, read])
  · exact within a (by simp [Pass.accesses, old])
  · rw [Tweak.resource_foldl_onAccess]
    exact bound

theorem Closed.create (closed : d.Closed) (p : PassId) (queue : Queue) (blueprint : Blueprint)
    (name : String) (usage : Usage) (tweaks : List Tweak) :
    (d.create p queue blueprint name usage tweaks).2.Closed := by
  refine (closed.addResource _).modifyPass p _ ?_
  intro pass within a member
  simp only [Pass.accesses, List.mem_append, List.mem_singleton] at member
  rcases member with ((old | rfl) | read) | written
  · exact within a (by simp [Pass.accesses, old])
  · rw [Tweak.resource_foldl_onAccess]
    simp [Declaration.addResource]
  · exact within a (by simp [Pass.accesses, read])
  · exact within a (by simp [Pass.accesses, written])

theorem exists_of_getResource {α : Type} {r : ResourceId} {next : Resource → α} {a : α}
    (ok : (do let resource ← d.getResource r; return next resource) = Except.ok a) :
    ∃ resource, d.resource? r = some resource ∧ next resource = a := by
  unfold getResource at ok
  cases found : d.resource? r with
  | none =>
    rw [found] at ok
    cases ok
  | some resource =>
    rw [found] at ok
    exact ⟨resource, rfl, Except.ok.inj ok⟩

theorem Closed.state {d' : Declaration} {p : PassId} {queue : Queue} {call : PassCall}
    {reply : PassReply} (closed : d.Closed) (ok : d.state p queue call = .ok (reply, d')) :
    d'.Closed := by
  cases call with
  | read r name usage tweaks =>
    obtain ⟨resource, found, made⟩ := exists_of_getResource ok
    cases made
    have bound : r.index < d.resources.length := (List.getElem?_eq_some_iff.mp found).1
    exact closed.read p name usage tweaks bound
  | readDefault r name tweaks =>
    obtain ⟨resource, found, made⟩ := exists_of_getResource ok
    cases made
    have bound : r.index < d.resources.length := (List.getElem?_eq_some_iff.mp found).1
    exact closed.read p name resource.usage tweaks bound
  | write r name usage tweaks =>
    obtain ⟨resource, found, made⟩ := exists_of_getResource ok
    cases made
    have bound : r.index < d.resources.length := (List.getElem?_eq_some_iff.mp found).1
    exact closed.write p _ name usage tweaks bound
  | create blueprint name usage tweaks =>
    cases ok
    exact closed.create p queue blueprint name usage tweaks
  | sideEffects value =>
    cases ok
    exact closed.modifyPass p _ fun _ within => within

theorem Closed.stateAll (closed : d.Closed) (p : PassId) (queue : Queue) (calls : List PassCall) :
    (d.stateAll p queue calls).2.2.Closed := by
  induction calls generalizing d with
  | nil => exact closed
  | cons call rest ih =>
    unfold Declaration.stateAll
    cases made : d.state p queue call with
    | error misuse => exact closed
    | ok result => exact ih (closed.state made)

theorem Closed.declare (closed : d.Closed) (name : String) (queue : Queue)
    (calls : List PassCall) (recorder : Option (List ResourceId)) :
    (d.declare name queue calls recorder).2.Closed := by
  have added : (d.addPass { name, queue }).2.Closed :=
    closed.addPass _ (by intro a member; cases member)
  have stated := added.stateAll (d.addPass { name, queue }).1 queue calls
  unfold Declaration.declare
  dsimp only
  split
  · exact stated.modifyPass _ _ fun _ within => within
  · exact stated

theorem closed_empty : ({} : Declaration).Closed := by
  intro pass member
  cases member

end Declaration

end RenderGraph
