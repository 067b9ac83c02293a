import RenderGraph.Proofs.Session

/-! What a pass may name. A transient resource is there from the pass that creates it on: no pass
declared before its creator can access it. -/

namespace RenderGraph

namespace Declaration

variable {d d' : Declaration} {r : ResourceId} {p : PassId} {n : Nat}

def HoldsTransient (d : Declaration) (r : ResourceId) : Prop :=
  ∃ resource, d.resource? r = some resource ∧ resource.origin.isTransient = true

def CreatedBy (d : Declaration) (r : ResourceId) (n : Nat) : Prop :=
  ∃ q creator, d.pass? q = some creator ∧ creator.isCreatorOf r = true ∧ q.index ≤ n

/-- Every transient resource is created, and before it is accessed or by the pass accessing it. -/
structure Ordered (d : Declaration) : Prop where
  created : ∀ r, d.HoldsTransient r → ∃ n, d.CreatedBy r n
  before : ∀ p pass, d.pass? p = some pass → ∀ a ∈ pass.accesses,
    d.HoldsTransient a.resource → d.CreatedBy a.resource p.index

def Last (d : Declaration) (p : PassId) : Prop := d.passes.length = p.index + 1

theorem Last.modifyPass (last : d.Last p) (q : PassId) (f : Pass → Pass) :
    (d.modifyPass q f).Last p :=
  (List.length_modify f d.passes q.index).trans last

theorem CreatedBy.until_last (created : d.CreatedBy r n) (last : d.Last p) :
    d.CreatedBy r p.index := by
  obtain ⟨q, creator, held, creates, _⟩ := created
  have inside : q.index < d.passes.length := (List.getElem?_eq_some_iff.mp held).1
  exact ⟨q, creator, held, creates, Nat.le_of_lt_succ (Nat.lt_of_lt_of_eq inside last)⟩

theorem ordered_empty : ({} : Declaration).Ordered := by
  constructor
  · rintro r ⟨resource, held, _⟩
    cases held
  · intro p pass held
    cases held

/-! Changes to the resources. -/

theorem Ordered.congr (ordered : d.Ordered) (passes : d'.passes = d.passes)
    (same : ∀ r, d'.HoldsTransient r → d.HoldsTransient r) : d'.Ordered := by
  have found (q : PassId) : d'.pass? q = d.pass? q := congrArg (·[q.index]?) passes
  have made {r : ResourceId} {n : Nat} (created : d.CreatedBy r n) : d'.CreatedBy r n := by
    obtain ⟨q, creator, held, rest⟩ := created
    exact ⟨q, creator, (found q).trans held, rest⟩
  constructor
  · intro r transient
    obtain ⟨n, created⟩ := ordered.created r (same r transient)
    exact ⟨n, made created⟩
  · intro p pass held a member transient
    rw [found p] at held
    exact made (ordered.before p pass held a member (same _ transient))

theorem holdsTransient_of_modifyResource {f : Resource → Resource}
    (kept : ∀ resource, (f resource).origin.isTransient = true →
      resource.origin.isTransient = true)
    {q : ResourceId} (transient : (d.modifyResource r f).HoldsTransient q) :
    d.HoldsTransient q := by
  obtain ⟨resource, found, holds⟩ := transient
  unfold resource? modifyResource at found
  rw [List.getElem?_modify] at found
  obtain ⟨old, held, rfl⟩ := Option.map_eq_some_iff.mp found
  refine ⟨old, held, ?_⟩
  split at holds
  · exact kept old holds
  · exact holds

theorem Ordered.modifyResource (ordered : d.Ordered) (r : ResourceId) {f : Resource → Resource}
    (kept : ∀ resource, (f resource).origin.isTransient = true →
      resource.origin.isTransient = true) :
    (d.modifyResource r f).Ordered :=
  ordered.congr rfl fun _ => holdsTransient_of_modifyResource kept

theorem holdsTransient_of_addResource {resource : Resource}
    (transient : (d.addResource resource).2.HoldsTransient r) :
    d.HoldsTransient r ∨ r.index = d.resources.length ∧ resource.origin.isTransient = true := by
  obtain ⟨other, found, holds⟩ := transient
  rcases getElem?_concat_eq_some.mp found with old | ⟨last, rfl⟩
  · exact Or.inl ⟨other, old, holds⟩
  · exact Or.inr ⟨last, holds⟩

theorem Ordered.addResource (ordered : d.Ordered) {resource : Resource}
    (lasting : resource.origin.isTransient = false) : (d.addResource resource).2.Ordered := by
  refine ordered.congr rfl fun r transient => ?_
  rcases holdsTransient_of_addResource transient with old | ⟨_, other⟩
  · exact old
  · rw [lasting] at other
    cases other

/-! Changes to the passes. -/

theorem Ordered.addPass (ordered : d.Ordered) {pass : Pass} (unused : pass.accesses = []) :
    (d.addPass pass).2.Ordered := by
  have made {r : ResourceId} {n : Nat} (created : d.CreatedBy r n) :
      (d.addPass pass).2.CreatedBy r n := by
    obtain ⟨q, creator, held, rest⟩ := created
    exact ⟨q, creator, getElem?_concat_eq_some.mpr (Or.inl held), rest⟩
  constructor
  · intro r transient
    obtain ⟨n, created⟩ := ordered.created r transient
    exact ⟨n, made created⟩
  · intro p other held a member transient
    rcases getElem?_concat_eq_some.mp held with old | ⟨_, rfl⟩
    · exact made (ordered.before p other old a member transient)
    · rw [unused] at member
      cases member

theorem pass?_modifyPass (d : Declaration) (p : PassId) (f : Pass → Pass) :
    (d.modifyPass p f).pass? p = (d.pass? p).map f :=
  (List.getElem?_modify_eq f p.index d.passes)

theorem CreatedBy.modifyPass (created : d.CreatedBy r n) {f : Pass → Pass}
    (creates : ∀ pass r, pass.isCreatorOf r = true → (f pass).isCreatorOf r = true) :
    (d.modifyPass p f).CreatedBy r n := by
  obtain ⟨q, creator, held, creator', before⟩ := created
  unfold CreatedBy Declaration.modifyPass pass?
  rw [pass?] at held
  refine ⟨q, if p.index = q.index then f creator else creator, ?_, ?_, before⟩
  · rw [List.getElem?_modify, held]
    split <;> rfl
  · split
    · exact creates creator r creator'
    · exact creator'

theorem ordered_modifyLast (last : d.Last p) {f : Pass → Pass}
    (creates : ∀ pass r, pass.isCreatorOf r = true → (f pass).isCreatorOf r = true)
    (created : ∀ r, d.HoldsTransient r → ∃ n, (d.modifyPass p f).CreatedBy r n)
    (before : ∀ q pass, d.pass? q = some pass → ∀ a ∈ pass.accesses,
      d.HoldsTransient a.resource → d.CreatedBy a.resource q.index) :
    (d.modifyPass p f).Ordered := by
  refine ⟨created, fun q pass held a member transient => ?_⟩
  unfold pass? Declaration.modifyPass at held
  rw [List.getElem?_modify] at held
  obtain ⟨old, found, rfl⟩ := Option.map_eq_some_iff.mp held
  split at member
  · rename_i same
    obtain ⟨n, made⟩ := created a.resource transient
    exact same ▸ made.until_last (last.modifyPass p f)
  · exact (before q old found a member transient).modifyPass creates

theorem Ordered.modifyLast (ordered : d.Ordered) (last : d.Last p) {f : Pass → Pass}
    (creates : ∀ pass r, pass.isCreatorOf r = true → (f pass).isCreatorOf r = true) :
    (d.modifyPass p f).Ordered := by
  refine ordered_modifyLast last creates (fun r transient => ?_) ordered.before
  obtain ⟨n, created⟩ := ordered.created r transient
  exact ⟨n, created.modifyPass creates⟩

end Declaration

namespace Tweak

theorem origin_onResource (r : Resource) (t : Tweak) : (t.onResource r).origin = r.origin := by
  cases t <;> rfl

theorem origin_foldl_onResource (tweaks : List Tweak) (r : Resource) :
    (tweaks.foldl onResource r).origin = r.origin := by
  induction tweaks generalizing r with
  | nil => rfl
  | cons t tweaks ih => rw [List.foldl_cons, ih, origin_onResource]

end Tweak

namespace Declaration

variable {d d' : Declaration} {p : PassId} {queue : Queue}

/-! Calls on the pass declared last. -/

theorem Ordered.read (ordered : d.Ordered) (last : d.Last p) (r : ResourceId) (name : String)
    (usage : Usage) (tweaks : List Tweak) : (d.read p r name usage tweaks).Ordered := by
  refine Ordered.modifyLast (d := d.modifyResource r _) ?_ last fun _ _ => id
  exact ordered.modifyResource r fun resource => by
    rw [Tweak.origin_foldl_onResource]
    exact id

theorem Ordered.write (ordered : d.Ordered) (last : d.Last p) (r : ResourceId) (imported : Bool)
    (name : String) (usage : Usage) (tweaks : List Tweak) :
    (d.write p r imported name usage tweaks).Ordered := by
  refine Ordered.modifyLast (d := d.modifyResource r _) ?_ last fun _ _ => id
  exact ordered.modifyResource r fun resource => by
    rw [Tweak.origin_foldl_onResource]
    exact id

theorem Ordered.create (ordered : d.Ordered) (closed : d.Closed) (last : d.Last p) (queue : Queue)
    (blueprint : Blueprint) (name : String) (usage : Usage) (tweaks : List Tweak) :
    (d.create p queue blueprint name usage tweaks).2.Ordered := by
  have grows (access : Access) (pass : Pass) (r : ResourceId) :
      ({ pass with creates := pass.creates ++ [access] } : Pass).isCreatorOf r =
        (pass.isCreatorOf r || access.resource == r) := by
    simp [Pass.isCreatorOf]
  have creates (access : Access) (pass : Pass) (r : ResourceId)
      (creator : pass.isCreatorOf r = true) :
      ({ pass with creates := pass.creates ++ [access] } : Pass).isCreatorOf r = true := by
    rw [grows, creator, Bool.true_or]
  refine ordered_modifyLast (d := (d.addResource _).2) last ?_ ?_ ?_
  · exact fun pass r => creates _ pass r
  · intro r transient
    rcases holdsTransient_of_addResource transient with old | ⟨here, _⟩
    · obtain ⟨n, q, creator, held, rest⟩ := ordered.created r old
      exact ⟨n, CreatedBy.modifyPass ⟨q, creator, held, rest⟩ fun pass r => creates _ pass r⟩
    · -- The resource just added is created by the pass itself.
      have inside : p.index < d.passes.length := last ▸ Nat.lt_succ_self p.index
      have held : d.pass? p = some _ := List.getElem?_eq_getElem inside
      have added : r = ⟨d.resources.length⟩ := congrArg ResourceId.mk here
      refine ⟨p.index, p, _, (pass?_modifyPass _ p _).trans (congrArg _ held), ?_, Nat.le_refl _⟩
      rw [grows, Tweak.resource_foldl_onAccess, added]
      simp
  · intro q pass held a member transient
    rcases holdsTransient_of_addResource transient with old | ⟨here, _⟩
    · exact ordered.before q pass held a member old
    · have within := closed pass (List.mem_of_getElem? held) a member
      exact absurd here (Nat.ne_of_lt within)

theorem last_state {call : PassCall} {reply : PassReply} (last : d.Last p)
    (ok : d.state p queue call = .ok (reply, d')) : d'.Last p := by
  cases call with
  | read | readDefault | write =>
    obtain ⟨_, _, made⟩ := exists_of_getResource ok
    cases made
    exact Last.modifyPass last p _
  | create | sideEffects =>
    cases ok
    exact Last.modifyPass last p _

theorem Ordered.state {call : PassCall} {reply : PassReply} (ordered : d.Ordered)
    (closed : d.Closed) (last : d.Last p) (ok : d.state p queue call = .ok (reply, d')) :
    d'.Ordered := by
  cases call with
  | read r name usage tweaks =>
    obtain ⟨resource, _, made⟩ := exists_of_getResource ok
    cases made
    exact ordered.read last r name usage tweaks
  | readDefault r name tweaks =>
    obtain ⟨resource, _, made⟩ := exists_of_getResource ok
    cases made
    exact ordered.read last r name resource.usage tweaks
  | write r name usage tweaks =>
    obtain ⟨resource, _, made⟩ := exists_of_getResource ok
    cases made
    exact ordered.write last r _ name usage tweaks
  | create blueprint name usage tweaks =>
    cases ok
    exact ordered.create closed last queue blueprint name usage tweaks
  | sideEffects value =>
    cases ok
    exact ordered.modifyLast last fun _ _ => id

theorem Ordered.stateAll (ordered : d.Ordered) (closed : d.Closed) (last : d.Last p)
    (queue : Queue) (calls : List PassCall) :
    (d.stateAll p queue calls).2.2.Ordered ∧ (d.stateAll p queue calls).2.2.Last p := by
  induction calls generalizing d with
  | nil => exact ⟨ordered, last⟩
  | cons call rest ih =>
    unfold Declaration.stateAll
    cases made : d.state p queue call with
    | error misuse => exact ⟨ordered, last⟩
    | ok result =>
      exact ih (ordered.state closed last made) (closed.state made) (last_state last made)

theorem Ordered.declare (ordered : d.Ordered) (closed : d.Closed) (name : String) (queue : Queue)
    (calls : List PassCall) (recorder : Option (List ResourceId)) :
    (d.declare name queue calls recorder).2.Ordered := by
  have within : (d.addPass { name, queue }).2.Closed :=
    closed.addPass _ (by intro a member; cases member)
  have added : (d.addPass { name, queue }).2.Last (d.addPass { name, queue }).1 :=
    List.length_append
  have stated := (ordered.addPass rfl).stateAll within added queue calls
  unfold Declaration.declare
  dsimp only
  split
  · exact stated.1.modifyLast stated.2 fun _ _ => id
  · exact stated.1

end Declaration

namespace Session

theorem ordered_rebound {s : Session} (ordered : s.graph.declaration.Ordered) {r : ResourceId}
    {f : Copy → Copy} : (s.rebound (s.graph.rebind r f)).graph.declaration.Ordered := by
  unfold Graph.rebind
  cases found : s.graph.declaration.getResource r with
  | error misuse => exact ordered
  | ok resource =>
    obtain ⟨name, origin, _⟩ := resource
    cases origin with
    | imported bound =>
      refine ordered.modifyResource r fun resource transient => ?_
      cases transient
    | managed => exact ordered
    | transient queue => exact ordered

theorem Reachable.ordered {s : Session} (reachable : s.Reachable) :
    s.graph.declaration.Ordered := by
  induction reachable with
  | start config faults journal => exact Declaration.ordered_empty
  | @act s reachable a ordered =>
    have same (op : Op Graph Unit) (kept : op.Keeps (·.declaration)) :
        (s.after op).graph.declaration.Ordered := by
      have declaration : (s.after op).graph.declaration = s.graph.declaration := kept s.graph s.rig
      rw [declaration]
      exact ordered
    cases a with
    | importResource | manage => exact ordered.addResource rfl
    | declare name queue calls recorder =>
      exact ordered.declare reachable.closed name queue calls recorder
    | update r native => exact ordered_rebound ordered
    | updateView r kind view => exact ordered_rebound ordered
    | setFrameIndex | useData | clearData | plan | refuseResources => exact ordered
    | setFrameCount n => exact same _ (Graph.keeps_setFrameCount n fun _ _ _ _ _ _ => rfl)
    | compile => exact same _ (Graph.keeps_compile fun _ _ _ _ _ _ => rfl)
    | execute => exact same Graph.execute (Graph.keeps_execute fun _ _ => rfl)
    | drain => exact same Graph.drain Graph.keeps_drain
    | reset =>
      rcases s.declaration_reset with kept | emptied
      · exact kept ▸ ordered
      · exact emptied ▸ Declaration.ordered_empty

end Session

end RenderGraph
