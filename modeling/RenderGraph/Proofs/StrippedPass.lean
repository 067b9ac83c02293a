import Mathlib.Data.List.Induction
import RenderGraph.Proofs.StatedCalls

/-! A pass without its accesses. If a pass is declared without them, the declaration differs in that
pass, in what its accesses have overridden of their resources, and in which accesses come last. It
goes on differing in nothing else, whatever is declared afterwards. -/

namespace RenderGraph

def Tweak.isOverride : Tweak → Bool
  | .view _ _ | .finalUsage _ => true
  | .states _ | .layout _ | .memory _ | .stages _ => false

namespace PassCall

/-- The side effects that a call states by itself. -/
def flag? : PassCall → Option Bool
  | .sideEffects value => some value
  | _ => none

def isCreation : PassCall → Bool
  | .create .. => true
  | _ => false

def overrides (r : ResourceId) : PassCall → Bool
  | .read x _ _ tweaks | .readDefault x _ tweaks | .write x _ _ tweaks =>
    x == r && tweaks.any Tweak.isOverride
  | .create .. | .sideEffects _ => false

def withoutAccesses (calls : List PassCall) : List PassCall :=
  (calls.filterMap flag?).map .sideEffects

end PassCall

namespace Resource

/-- The resource without its last accesses, and without its overrides if they are forgotten too. -/
def forget (overrides : Bool) (x : Resource) : Resource :=
  { x with
    finalUsage := if overrides then none else x.finalUsage
    viewSpecs := if overrides then PerView.fill none else x.viewSpecs
    producer := none
    lastReader := none }

variable {o : Bool} {x y : Resource}

/-- What is made of a resource goes by nothing that is forgotten of the result. -/
def Blind (f : Resource → Resource) : Prop :=
  ∀ o x y, x.forget o = y.forget o → (f x).forget o = (f y).forget o

theorem eq_of_forget (same : x.forget o = y.forget o) :
    x.name = y.name ∧ x.origin = y.origin ∧ x.blueprint = y.blueprint ∧ x.usage = y.usage := by
  simp only [forget, mk.injEq] at same
  exact ⟨same.1, same.2.1, same.2.2.1, same.2.2.2.1⟩

theorem blind_of_forget {f : Resource → Resource}
    (kept : ∀ o x, (f x).forget o = (f (x.forget o)).forget o) : Blind f := by
  intro o x y same
  rw [kept, same, ← kept]

theorem blind_onResource (t : Tweak) : Blind t.onResource := by
  apply blind_of_forget
  intro o x
  cases t <;> cases o <;> rfl

theorem blind_foldl_onResource (tweaks : List Tweak) : Blind (tweaks.foldl Tweak.onResource) := by
  intro o x y same
  induction tweaks generalizing x y with
  | nil => exact same
  | cons t tweaks ih => exact ih _ _ (blind_onResource t o x y same)

theorem blind_read (p : PassId) (tweaks : List Tweak) :
    Blind fun x => tweaks.foldl Tweak.onResource { x with lastReader := some p } :=
  fun o x y same => blind_foldl_onResource tweaks o { x with lastReader := some p }
    { y with lastReader := some p } same

theorem blind_write (p : PassId) (tweaks : List Tweak) :
    Blind fun x => tweaks.foldl Tweak.onResource { x with producer := some p } :=
  fun o x y same => blind_foldl_onResource tweaks o { x with producer := some p }
    { y with producer := some p } same

theorem blind_origin (origin : Origin) : Blind fun x => { x with origin } := by
  apply blind_of_forget
  intro o x
  cases o <;> rfl

theorem forget_foldl_onResource (tweaks : List Tweak) (x : Resource)
    (forgotten : tweaks.any Tweak.isOverride = true → o = true) :
    (tweaks.foldl Tweak.onResource x).forget o = x.forget o := by
  induction tweaks generalizing x with
  | nil => rfl
  | cons t tweaks ih =>
    rw [List.any_cons, Bool.or_eq_true] at forgotten
    rw [List.foldl_cons, ih _ fun later => forgotten (Or.inr later)]
    cases t with
    | states | layout | memory | stages => rfl
    | view | finalUsage =>
      rw [forgotten (Or.inl rfl)]
      rfl

end Resource

namespace Declaration

structure SameRows (overridden : ResourceId → Bool) (d d' : Declaration) : Prop where
  resources : d'.resources.length = d.resources.length
  rows : ∀ r, (d'.resource? r).map (Resource.forget (overridden r)) =
    (d.resource? r).map (Resource.forget (overridden r))

structure Without (p : PassId) (overridden : ResourceId → Bool) (d d' : Declaration) : Prop
    extends SameRows overridden d d' where
  passes : d'.passes.length = d.passes.length
  others : ∀ q, q ≠ p → d'.pass? q = d.pass? q
  idle : ∃ pass pass', d.pass? p = some pass ∧ d'.pass? p = some pass' ∧ pass'.accesses = [] ∧
    (pass'.sideEffects = true → pass.sideEffects = true)

variable {d d' : Declaration} {p q : PassId} {overridden : ResourceId → Bool} {queue : Queue}

theorem pass?_modifyPass_eq_ite (d : Declaration) (p q : PassId) (f : Pass → Pass) :
    (d.modifyPass p f).pass? q = if p = q then (d.pass? q).map f else d.pass? q := by
  rw [pass?, modifyPass, List.getElem?_modify]
  by_cases here : p = q
  · simp [here, pass?]
  · have apart : p.index ≠ q.index := fun same => here (congrArg PassId.mk same)
    simp [here, apart, pass?]

namespace SameRows

theorem refl (overridden : ResourceId → Bool) (d : Declaration) : SameRows overridden d d :=
  ⟨rfl, fun _ => rfl⟩

theorem symm (same : SameRows overridden d d') : SameRows overridden d' d :=
  ⟨same.resources.symm, fun r => (same.rows r).symm⟩

theorem trans {d'' : Declaration} (first : SameRows overridden d d')
    (second : SameRows overridden d' d'') : SameRows overridden d d'' :=
  ⟨second.resources.trans first.resources, fun r => (second.rows r).trans (first.rows r)⟩

theorem cases (same : SameRows overridden d d') (r : ResourceId) :
    (d.resource? r = none ∧ d'.resource? r = none) ∨ ∃ x x', d.resource? r = some x ∧
      d'.resource? r = some x' ∧ x'.forget (overridden r) = x.forget (overridden r) := by
  have row := same.rows r
  cases found : d.resource? r with
  | none =>
    rw [found, Option.map_none, Option.map_eq_none_iff] at row
    exact Or.inl ⟨rfl, row⟩
  | some x =>
    rw [found, Option.map_some, Option.map_eq_some_iff] at row
    obtain ⟨x', found', forgets⟩ := row
    exact Or.inr ⟨x, x', rfl, found', forgets⟩

theorem modifyResource_right (same : SameRows overridden d d') (r : ResourceId)
    {f : Resource → Resource} (kept : ∀ x, (f x).forget (overridden r) = x.forget (overridden r)) :
    SameRows overridden d (d'.modifyResource r f) where
  resources := (d'.length_modifyResource r f).trans same.resources
  rows q := by
    rw [resource?_modifyResource, ← same.rows q]
    split
    · rename_i here
      rw [← here, Option.map_map]
      exact congrArg (Option.map · _) (funext kept)
    · rfl

theorem modifyResource (same : SameRows overridden d d') (r : ResourceId)
    {f : Resource → Resource} (blind : Resource.Blind f) :
    SameRows overridden (d.modifyResource r f) (d'.modifyResource r f) where
  resources := by
    rw [length_modifyResource, length_modifyResource]
    exact same.resources
  rows q := by
    rw [resource?_modifyResource, resource?_modifyResource]
    split
    · rcases same.cases q with ⟨absent, absent'⟩ | ⟨x, x', found, found', forgets⟩
      · rw [absent, absent']
      · rw [found, found']
        exact congrArg some (blind _ _ _ forgets)
    · exact same.rows q

theorem addResource (same : SameRows overridden d d') (x : Resource) :
    SameRows overridden (d.addResource x).2 (d'.addResource x).2 where
  resources := by simp [Declaration.addResource, same.resources]
  rows q := by
    have rows := same.rows q
    simp only [Declaration.addResource, resource?] at rows ⊢
    rcases Nat.lt_or_ge q.index d.resources.length with inside | outside
    · have inside' := same.resources ▸ inside
      rwa [List.getElem?_append_left inside, List.getElem?_append_left inside']
    · have outside' := same.resources ▸ outside
      rw [List.getElem?_append_right outside, List.getElem?_append_right outside',
        same.resources]

end SameRows

namespace Without

theorem inside (without : d.Without p overridden d') : p.index < d.passes.length := by
  obtain ⟨pass, _, held, _⟩ := without.idle
  exact (List.getElem?_eq_some_iff.mp held).1

theorem modifyResource (without : d.Without p overridden d') (r : ResourceId)
    {f : Resource → Resource} (blind : Resource.Blind f) :
    (d.modifyResource r f).Without p overridden (d'.modifyResource r f) :=
  { without with toSameRows := without.toSameRows.modifyResource r blind }

theorem addResource (without : d.Without p overridden d') (x : Resource) :
    (d'.addResource x).1 = (d.addResource x).1 ∧
      (d.addResource x).2.Without p overridden (d'.addResource x).2 :=
  ⟨congrArg ResourceId.mk without.resources,
    { without with toSameRows := without.toSameRows.addResource x }⟩

theorem modifyPass (without : d.Without p overridden d') (apart : q ≠ p) (f : Pass → Pass) :
    (d.modifyPass q f).Without p overridden (d'.modifyPass q f) where
  passes := by simpa [Declaration.modifyPass] using without.passes
  others x other := by
    rw [pass?_modifyPass_eq_ite, pass?_modifyPass_eq_ite, without.others x other]
  idle := by
    rw [pass?_modifyPass_eq_ite, pass?_modifyPass_eq_ite, if_neg apart, if_neg apart]
    exact without.idle
  toSameRows := { without.toSameRows with }

theorem addPass (without : d.Without p overridden d') (pass : Pass) :
    (d'.addPass pass).1 = (d.addPass pass).1 ∧ (d.addPass pass).1 ≠ p ∧
      (d.addPass pass).2.Without p overridden (d'.addPass pass).2 := by
  have inside := without.inside
  have inside' := without.passes ▸ inside
  refine ⟨congrArg PassId.mk without.passes, ?_, { without.toSameRows with }, ?_,
    fun q other => ?_, ?_⟩
  · rintro rfl
    exact Nat.lt_irrefl _ inside
  · simp [Declaration.addPass, without.passes]
  · have others := without.others q other
    simp only [Declaration.addPass, pass?] at others ⊢
    rcases Nat.lt_or_ge q.index d.passes.length with before | after
    · have before' := without.passes ▸ before
      rwa [List.getElem?_append_left before, List.getElem?_append_left before']
    · have after' := without.passes ▸ after
      rw [List.getElem?_append_right after, List.getElem?_append_right after', without.passes]
  · have idle := without.idle
    simp only [Declaration.addPass, pass?] at idle ⊢
    rwa [List.getElem?_append_left inside, List.getElem?_append_left inside']

theorem create (without : d.Without p overridden d') (apart : q ≠ p) (queue : Queue)
    (blueprint : Blueprint) (name : String) (usage : Usage) (tweaks : List Tweak) :
    (d'.create q queue blueprint name usage tweaks).1 =
        (d.create q queue blueprint name usage tweaks).1 ∧
      (d.create q queue blueprint name usage tweaks).2.Without p overridden
        (d'.create q queue blueprint name usage tweaks).2 := by
  obtain ⟨same, added⟩ := without.addResource (tweaks.foldl Tweak.onResource
    { name, origin := .transient queue, blueprint, usage, producer := some q })
  refine ⟨same, ?_⟩
  unfold Declaration.create
  dsimp only [Declaration.addResource] at added ⊢
  rw [without.resources]
  exact added.modifyPass apart _

theorem state (without : d.Without p overridden d') (apart : q ≠ p) (queue : Queue)
    (call : PassCall) :
    (∃ misuse, d.state q queue call = .error misuse ∧ d'.state q queue call = .error misuse) ∨
      ∃ reply e e', d.state q queue call = .ok (reply, e) ∧
        d'.state q queue call = .ok (reply, e') ∧ e.Without p overridden e' := by
  have onResource (r : ResourceId) {α : Type} (next next' : Resource → α) :
      (∃ misuse, (do let x ← d.getResource r; return next x) = Except.error misuse ∧
        (do let x ← d'.getResource r; return next' x) = Except.error misuse) ∨
      ∃ x x', x'.forget (overridden r) = x.forget (overridden r) ∧
        (do let x ← d.getResource r; return next x) = Except.ok (next x) ∧
        (do let x ← d'.getResource r; return next' x) = Except.ok (next' x') := by
    unfold getResource
    rcases without.toSameRows.cases r with ⟨absent, absent'⟩ | ⟨x, x', found, found', same⟩
    · rw [absent, absent']
      exact Or.inl ⟨_, rfl, rfl⟩
    · rw [found, found']
      exact Or.inr ⟨x, x', same, rfl, rfl⟩
  cases call with
  | read r name usage tweaks =>
    refine (onResource r _ _).imp_right fun ⟨x, x', same, made, made'⟩ => ?_
    have next := without.modifyResource r (Resource.blind_read q tweaks)
    exact ⟨_, _, _, made, made', next.modifyPass apart _⟩
  | readDefault r name tweaks =>
    refine (onResource r _ _).imp_right fun ⟨x, x', same, made, made'⟩ => ?_
    rw [(Resource.eq_of_forget same).2.2.2] at made'
    have next := without.modifyResource r (Resource.blind_read q tweaks)
    exact ⟨_, _, _, made, made', next.modifyPass apart _⟩
  | write r name usage tweaks =>
    refine (onResource r _ _).imp_right fun ⟨x, x', same, made, made'⟩ => ?_
    rw [(Resource.eq_of_forget same).2.1] at made'
    have next := without.modifyResource r (Resource.blind_write q tweaks)
    exact ⟨_, _, _, made, made', next.modifyPass apart _⟩
  | create blueprint name usage tweaks =>
    obtain ⟨same, created⟩ := without.create apart queue blueprint name usage tweaks
    refine Or.inr ⟨_, _, _, rfl, ?_, created⟩
    exact congrArg (fun r => Except.ok (PassReply.access r false, _)) same
  | sideEffects value => exact Or.inr ⟨_, _, _, rfl, rfl, without.modifyPass apart _⟩

theorem stateAll (without : d.Without p overridden d') (apart : q ≠ p) (queue : Queue)
    (calls : List PassCall) : ∃ replies misuse e e',
      d.stateAll q queue calls = (replies, misuse, e) ∧
      d'.stateAll q queue calls = (replies, misuse, e') ∧ e.Without p overridden e' := by
  induction calls generalizing d d' with
  | nil => exact ⟨_, _, _, _, rfl, rfl, without⟩
  | cons call rest ih =>
    rcases without.state apart queue call with
      ⟨misuse, failed, failed'⟩ | ⟨reply, e, e', made, made', next⟩
    · rw [Declaration.stateAll, Declaration.stateAll, failed, failed']
      exact ⟨_, _, _, _, rfl, rfl, without⟩
    · obtain ⟨replies, misuse, f, f', rest, rest', last⟩ := ih next
      rw [Declaration.stateAll, Declaration.stateAll, made, made']
      dsimp only
      rw [rest, rest']
      exact ⟨_, _, _, _, rfl, rfl, last⟩

theorem declare (without : d.Without p overridden d') (name : String) (queue : Queue)
    (calls : List PassCall) (recorder : Option (List ResourceId)) :
    (d'.declare name queue calls recorder).1 = (d.declare name queue calls recorder).1 ∧
      (d.declare name queue calls recorder).2.Without p overridden
        (d'.declare name queue calls recorder).2 := by
  obtain ⟨same, apart, added⟩ := without.addPass { name, queue }
  obtain ⟨replies, misuse, e, e', stated, stated', next⟩ := added.stateAll apart queue calls
  unfold Declaration.declare
  dsimp only
  rw [same, stated, stated']
  refine ⟨rfl, ?_⟩
  dsimp only
  split
  · exact next.modifyPass apart _
  · exact next

end Without

/-! Declaring the pass itself with its accesses and without them. -/

theorem sameRows_state {call : PassCall} {reply : PassReply} (owned : call.isCreation = false)
    (covers : ∀ r, call.overrides r = true → overridden r = true)
    (ok : d.state q queue call = .ok (reply, d')) : SameRows overridden d d' := by
  have accessed (r : ResourceId) (tweaks : List Tweak) {f : Resource → Resource}
      (marks : ∀ x, (f x).forget (overridden r) = x.forget (overridden r))
      (states : tweaks.any Tweak.isOverride = true → call.overrides r = true) :
      SameRows overridden d
        (d.modifyResource r fun x => tweaks.foldl Tweak.onResource (f x)) :=
    (SameRows.refl overridden d).modifyResource_right r fun x =>
      (Resource.forget_foldl_onResource tweaks (f x) fun overrides =>
        covers r (states overrides)).trans (marks x)
  cases call with
  | read r name usage tweaks =>
    obtain ⟨_, _, made⟩ := exists_of_getResource ok
    cases made
    exact { accessed r tweaks (f := fun x => { x with lastReader := some q }) (fun _ => rfl)
      fun overrides => by simp [PassCall.overrides, overrides] with }
  | readDefault r name tweaks =>
    obtain ⟨_, _, made⟩ := exists_of_getResource ok
    cases made
    exact { accessed r tweaks (f := fun x => { x with lastReader := some q }) (fun _ => rfl)
      fun overrides => by simp [PassCall.overrides, overrides] with }
  | write r name usage tweaks =>
    obtain ⟨_, _, made⟩ := exists_of_getResource ok
    cases made
    exact { accessed r tweaks (f := fun x => { x with producer := some q }) (fun _ => rfl)
      fun overrides => by simp [PassCall.overrides, overrides] with }
  | create blueprint name usage tweaks => cases owned
  | sideEffects value =>
    cases ok
    exact { SameRows.refl overridden d with }

theorem sameRows_stateAll (calls : List PassCall)
    (owned : ∀ call ∈ calls.take (d.stateAll q queue calls).1.length, call.isCreation = false)
    (covers : ∀ call ∈ calls.take (d.stateAll q queue calls).1.length,
      ∀ r, call.overrides r = true → overridden r = true) :
    SameRows overridden d (d.stateAll q queue calls).2.2 := by
  induction calls generalizing d with
  | nil => exact .refl overridden d
  | cons call rest ih =>
    unfold stateAll at owned covers ⊢
    cases made : d.state q queue call with
    | error misuse => exact .refl overridden d
    | ok result =>
      obtain ⟨reply, next⟩ := result
      rw [made] at owned covers
      dsimp only at owned covers ⊢
      rw [List.length_cons, List.take_succ_cons, List.forall_mem_cons] at owned covers
      exact (sameRows_state owned.1 covers.1 made).trans (ih owned.2 covers.2)

theorem stateAll_sideEffects (d : Declaration) (p : PassId) (queue : Queue) (values : List Bool) :
    d.stateAll p queue (values.map .sideEffects) =
      (values.map fun _ => .done, none, d.modifyPass p fun pass =>
        { pass with sideEffects := values.getLast?.getD pass.sideEffects }) := by
  induction values generalizing d with
  | nil =>
    have same : d.passes.modify p.index id = d.passes := List.modify_id ..
    exact congrArg (fun passes => ([], none, { d with passes })) same.symm
  | cons value rest ih =>
    rw [List.map_cons, stateAll, state]
    dsimp only [pure, Except.pure]
    rw [ih, modifyPass, modifyPass, modifyPass, List.modify_modify_eq, List.getLast?_cons]
    rfl

theorem declare_sideEffects (d : Declaration) (name : String) (queue : Queue) (values : List Bool)
    (recorder : Option (List ResourceId)) : ∃ pass,
      (d.declare name queue (values.map .sideEffects) recorder).2 =
        { d with passes := d.passes ++ [pass] } ∧
      pass.accesses = [] ∧ pass.sideEffects = values.getLast?.getD false := by
  unfold declare
  dsimp only [addPass]
  rw [stateAll_sideEffects]
  dsimp only [Option.isNone]
  rw [if_pos rfl, modifyPass, modifyPass, modify_concat, modify_concat]
  exact ⟨_, rfl, rfl, rfl⟩

theorem marked_of_flags {calls : List PassCall}
    (states : (calls.filterMap PassCall.flag?).getLast? = some true) : d.marked calls = true := by
  induction calls using List.reverseRecOn with
  | nil => cases states
  | append_singleton calls call ih =>
    rw [marked] at ih ⊢
    rw [List.filterMap_append, List.getLast?_append] at states ⊢
    cases call with
    | sideEffects value =>
      obtain rfl : value = true := Option.some.inj states
      rfl
    | write r name usage tweaks =>
      cases imported : d.importsResource r with
      | true => simp [marking, imported]
      | false => simpa [marking, imported] using ih states
    | read | readDefault | create => exact ih states

/-- Declaring a pass that creates nothing without its accesses makes no other difference than what
they override. -/
theorem without_declare (d : Declaration) (name : String) (queue : Queue) (calls : List PassCall)
    (recorder : Option (List ResourceId)) :
    let accepted := calls.take (d.declare name queue calls recorder).1.replies.length
    (∀ call ∈ accepted, call.isCreation = false) →
      (d.declare name queue calls recorder).2.Without ⟨d.passes.length⟩
        (fun r => accepted.any (·.overrides r))
        (d.declare name queue (PassCall.withoutAccesses accepted) recorder).2 := by
  intro accepted owned
  obtain ⟨pass, passes, effects⟩ := d.passes_declare name queue calls recorder
  obtain ⟨pass', declared, idle, effects'⟩ :=
    d.declare_sideEffects name queue (accepted.filterMap PassCall.flag?) recorder
  have same : SameRows (fun r => accepted.any (·.overrides r)) d
      (d.declare name queue calls recorder).2 := by
    have stated := sameRows_stateAll (d := (d.addPass { name, queue }).2) calls owned
      fun call accepts r overrides => List.any_eq_true.mpr ⟨call, accepts, overrides⟩
    unfold declare
    dsimp only
    split <;> exact { stated with }
  rw [PassCall.withoutAccesses, declared]
  refine { same.symm with
    passes := by simp [passes], others := fun q other => ?_,
    idle := ⟨pass, pass', by simp [pass?, passes], by simp [pass?], idle, fun marks => ?_⟩ }
  · have apart : q.index ≠ d.passes.length := fun same => other (congrArg PassId.mk same)
    rw [pass?, pass?, passes]
    rcases Nat.lt_or_gt_of_ne apart with before | beyond
    · rw [List.getElem?_append_left before, List.getElem?_append_left before]
    · have outside : d.passes.length + 1 ≤ q.index := beyond
      rw [List.getElem?_eq_none (by simpa using outside),
        List.getElem?_eq_none (by simpa using outside)]
  · rw [effects]
    refine marked_of_flags ?_
    rw [effects'] at marks
    cases last : (accepted.filterMap PassCall.flag?).getLast? with
    | none => simp [last] at marks
    | some value => simpa [last] using marks

end Declaration

end RenderGraph
