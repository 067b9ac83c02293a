import RenderGraph.Proofs.CreatedOnce
import RenderGraph.Proofs.DeclaredOrder

/-! What the calls on a pass come to. They change the pass being declared and no other, and of those
that say anything about side effects the last one decides: a call that states them, or a write to an
imported resource, which gives the pass side effects. -/

namespace RenderGraph

namespace Declaration

variable {d d' : Declaration} {p : PassId} {queue : Queue} {r : ResourceId}

def importsResource (d : Declaration) (r : ResourceId) : Bool :=
  (d.resource? r).any (·.origin.isImported)

/-- What a call says about the side effects of its pass, if anything. -/
def marking (d : Declaration) : PassCall → Option Bool
  | .sideEffects value => some value
  | .write r _ _ _ => if d.importsResource r then some true else none
  | _ => none

/-- Whether the calls leave their pass with side effects. -/
def marked (d : Declaration) (calls : List PassCall) : Bool :=
  (calls.filterMap d.marking).getLast?.getD false

theorem marking_congr (same : ∀ r, d'.importsResource r = d.importsResource r) :
    d'.marking = d.marking := by
  funext call
  cases call with
  | write r name usage tweaks => rw [marking, marking, same]
  | read | readDefault | create | sideEffects => rfl

theorem importsResource_modifyResource (d : Declaration) (r q : ResourceId)
    {f : Resource → Resource} (kept : ∀ x, (f x).origin = x.origin) :
    (d.modifyResource r f).importsResource q = d.importsResource q := by
  rw [importsResource, importsResource, resource?_modifyResource]
  cases d.resource? q with
  | none => simp
  | some x => by_cases here : r = q <;> simp [here, kept]

theorem importsResource_addResource (d : Declaration) (q : ResourceId) {x : Resource}
    (owned : x.origin.isImported = false) :
    (d.addResource x).2.importsResource q = d.importsResource q := by
  simp only [importsResource, resource?, addResource]
  rcases Nat.lt_trichotomy q.index d.resources.length with inside | last | outside
  · rw [List.getElem?_append_left inside]
  · simp [last, owned]
  · have beyond : d.resources.length + 1 ≤ q.index := outside
    rw [List.getElem?_eq_none (by simpa using beyond), List.getElem?_eq_none (by omega)]

theorem state_cases {call : PassCall} {reply : PassReply}
    (ok : d.state p queue call = .ok (reply, d')) : ∃ f : Pass → Pass,
      d'.passes = d.passes.modify p.index f ∧
      (∀ pass, (f pass).sideEffects = (d.marking call).getD pass.sideEffects) ∧
      d'.marking = d.marking := by
  have tweaked (q : ResourceId) (tweaks : List Tweak) {g : Resource → Resource}
      (kept : ∀ x, (g x).origin = x.origin) :
      (d.modifyResource q fun x => tweaks.foldl Tweak.onResource (g x)).marking = d.marking :=
    marking_congr fun _ => d.importsResource_modifyResource q _ fun x =>
      (Tweak.origin_foldl_onResource _ _).trans (kept x)
  cases call with
  | read r name usage tweaks =>
    obtain ⟨_, _, made⟩ := exists_of_getResource ok
    cases made
    exact ⟨_, rfl, fun _ => rfl, tweaked r tweaks fun _ => rfl⟩
  | readDefault r name tweaks =>
    obtain ⟨_, _, made⟩ := exists_of_getResource ok
    cases made
    exact ⟨_, rfl, fun _ => rfl, tweaked r tweaks fun _ => rfl⟩
  | write r name usage tweaks =>
    obtain ⟨resource, found, made⟩ := exists_of_getResource ok
    cases made
    refine ⟨_, rfl, fun pass => ?_, tweaked r tweaks fun _ => rfl⟩
    rw [marking, importsResource, found, Option.any_some]
    cases resource.origin.isImported <;> simp
  | create blueprint name usage tweaks =>
    cases ok
    refine ⟨_, rfl, fun _ => rfl, marking_congr fun q => ?_⟩
    refine d.importsResource_addResource q ?_
    rw [Tweak.origin_foldl_onResource]
    rfl
  | sideEffects value =>
    cases ok
    exact ⟨_, rfl, fun _ => rfl, rfl⟩

theorem stateAll_cases (d : Declaration) (p : PassId) (queue : Queue) (calls : List PassCall) :
    ∃ f : Pass → Pass, (d.stateAll p queue calls).2.2.passes = d.passes.modify p.index f ∧
      ∀ pass, (f pass).sideEffects =
        ((calls.take (d.stateAll p queue calls).1.length).filterMap d.marking).getLast?.getD
          pass.sideEffects := by
  induction calls generalizing d with
  | nil => exact ⟨id, (List.modify_id ..).symm, fun _ => rfl⟩
  | cons call rest ih =>
    unfold stateAll
    cases made : d.state p queue call with
    | error misuse => exact ⟨id, (List.modify_id ..).symm, fun _ => rfl⟩
    | ok result =>
      obtain ⟨reply, next⟩ := result
      obtain ⟨f, passes, effects, marking⟩ := state_cases made
      obtain ⟨g, passes', effects'⟩ := ih next
      refine ⟨g ∘ f, ?_, fun pass => ?_⟩
      · exact passes'.trans (by rw [passes, List.modify_modify_eq])
      · rw [Function.comp_apply, effects', effects, marking]
        dsimp only
        rw [List.length_cons, List.take_succ_cons, List.filterMap_cons]
        cases d.marking call with
        | none => rfl
        | some value => rw [List.getLast?_cons, Option.getD_some, Option.getD_some]

theorem passes_declare (d : Declaration) (name : String) (queue : Queue) (calls : List PassCall)
    (recorder : Option (List ResourceId)) : ∃ pass,
      (d.declare name queue calls recorder).2.passes = d.passes ++ [pass] ∧
      pass.sideEffects =
        d.marked (calls.take (d.declare name queue calls recorder).1.replies.length) := by
  obtain ⟨f, passes, effects⟩ :=
    (d.addPass { name, queue }).2.stateAll_cases (d.addPass { name, queue }).1 queue calls
  have added : ((d.addPass { name, queue }).2.stateAll (d.addPass { name, queue }).1 queue
      calls).2.2.passes = d.passes ++ [f { name, queue }] :=
    passes.trans (modify_concat d.passes _ f)
  unfold declare
  dsimp only
  split
  · exact ⟨_, (congrArg (List.modify · _ _) added).trans (modify_concat d.passes _ _), effects _⟩
  · exact ⟨_, added, effects _⟩

theorem marked_of_marking {calls before after : List PassCall} {call : PassCall}
    (split : calls = before ++ call :: after) (marks : d.marking call = some true)
    (kept : .sideEffects false ∉ after) : d.marked calls = true := by
  have later : ∀ value ∈ after.filterMap d.marking, value = true := by
    intro value member
    obtain ⟨other, inside, stated⟩ := List.mem_filterMap.mp member
    cases other with
    | sideEffects value' =>
      cases stated
      cases value with
      | true => rfl
      | false => exact absurd inside kept
    | write r name usage tweaks =>
      rw [marking] at stated
      split at stated <;> cases stated
      rfl
    | read | readDefault | create => cases stated
  rw [marked, split, List.filterMap_append, List.filterMap_cons, marks, List.getLast?_append,
    List.getLast?_cons, Option.some_or, Option.getD_some]
  cases last : (after.filterMap d.marking).getLast? with
  | none => rfl
  | some value => exact later value (List.mem_of_getLast? last)

end Declaration

end RenderGraph
