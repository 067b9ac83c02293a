import Mathlib
import RenderGraph.Proofs.CullingBalance
import RenderGraph.Proofs.ResidencyPlaced
import RenderGraph.Proofs.ScheduleGrammar

/-! Why a pass survives. Following from pass to pass what a survivor contributes to, there is a pass
with side effects, or one of passes that feed each other in a circle. Counting references down does
not see that nobody else wants what goes round in the circle. -/

namespace RenderGraph

/-- Going on within a finite set ends where there is nowhere to go, or in a circle. -/
theorem exists_last_or_circle {α : Type} {R : α → α → Prop} {kept : α → Prop} {x : α}
    (finite : {y | kept y}.Finite) (member : kept x) :
    ∃ y, Relation.ReflTransGen (fun a b => R a b ∧ kept b) x y ∧ kept y ∧
      ((∀ z, kept z → ¬ R y z) ∨ Relation.TransGen R y y) := by
  by_contra endless
  push Not at endless
  let Reached := {y // kept y ∧ Relation.ReflTransGen (fun a b => R a b ∧ kept b) x y}
  have : Finite Reached := (finite.subset fun _ reached => reached.1).to_subtype
  let after (a b : Reached) : Prop := Relation.TransGen R b.1 a.1
  have : IsTrans Reached after := ⟨fun _ _ _ first second => second.trans first⟩
  have : Std.Irrefl after := ⟨fun a circle => (endless a.1 a.2.2 a.2.1).2 circle⟩
  obtain ⟨y, _, last⟩ := (Finite.wellFounded_of_trans_of_irrefl after).has_min Set.univ
    ⟨⟨x, member, .refl⟩, trivial⟩
  obtain ⟨z, kept', step⟩ := (endless y.1 y.2.2 y.2.1).1
  exact last ⟨z, kept', y.2.2.tail ⟨step, kept'⟩⟩ trivial (.single step)

namespace Declaration

variable {d : Declaration} {p q : PassId} {pass : Pass} {refs more : List Nat}

/-- The one pass outputs to a resource that the other reads, or creates one that the other writes.
-/
def Contributes (d : Declaration) (p q : PassId) : Prop :=
  ∃ r pass other, d.pass? p = some pass ∧ d.pass? q = some other ∧
    (pass.outputsTo r = true ∧ other.readsFrom r = true ∨
      pass.isCreatorOf r = true ∧ other.writesTo r = true)

theorem Feeds.contributes (feeds : d.Feeds p q) : d.Contributes p q := by
  obtain ⟨r, pass, reader, held, found, outputs, reads⟩ := feeds
  rw [Pass.onlyReads, Bool.and_eq_true] at reads
  exact ⟨r, pass, reader, held, found, Or.inl ⟨outputs, reads.1⟩⟩

theorem contributes_of_need (held : d.pass? p = some pass) (need : q ∈ d.needs pass) :
    d.Contributes q p := by
  rcases List.mem_append.mp need with creator | writer
  · obtain ⟨a, write, member⟩ := List.mem_flatMap.mp creator
    obtain ⟨writer, creates⟩ := List.mem_filter.mp member
    obtain ⟨other, found, _⟩ := mem_writers.mp writer
    refine ⟨a.resource, other, pass, found, held, Or.inr ⟨?_, ?_⟩⟩
    · simpa [found] using creates
    · exact List.any_eq_true.mpr ⟨a, write, beq_self_eq_true _⟩
  · obtain ⟨a, read, member⟩ := List.mem_flatMap.mp writer
    obtain ⟨other, found, outputs⟩ := mem_writers.mp member
    exact ⟨a.resource, other, pass, found, held, Or.inl ⟨outputs,
      List.any_eq_true.mpr ⟨a, read, beq_self_eq_true _⟩⟩⟩

/-- What the one pass is used for by way of used passes includes the other. -/
def Leads (d : Declaration) (refs : List Nat) : PassId → PassId → Prop :=
  Relation.ReflTransGen fun p q => d.Contributes p q ∧ d.Uses refs q

theorem Leads.mono (leads : d.Leads refs p q)
    (kept : ∀ x, d.Uses refs x → d.Uses more x) : d.Leads more p q :=
  Relation.ReflTransGen.mono (fun _ x => And.imp_right (kept x)) p q leads

end Declaration

namespace Revival

variable {d : Declaration} {v : Revival} {p q : PassId} {pass : Pass} {refs : List Nat}

structure Rooted (d : Declaration) (refs : List Nat) (v : Revival) : Prop where
  waits : ∀ p ∈ v.waiting, d.Uses v.passRefs p
  leads : ∀ p, d.Uses v.passRefs p → ∃ q, d.Uses refs q ∧ d.Leads v.passRefs p q

theorem Rooted.revive (rooted : v.Rooted d refs) (used : d.Uses v.passRefs p)
    (contributes : d.Contributes q p) :
    (v.revive d p q).Rooted d refs ∧ d.Uses (v.revive d p q).passRefs p := by
  have advances := advances_revive d v p q
  refine ⟨?_, advances.kept p used⟩
  have later {x y : PassId} (leads : d.Leads v.passRefs x y) :
      d.Leads (v.revive d p q).passRefs x y := leads.mono advances.kept
  rcases v.revive_cases d p q with ⟨same, _⟩ | ⟨left, positive, _, _, unused, made⟩
  · rwa [same]
  · have inside := (List.getElem?_eq_some_iff.mp unused).1
    have revived : d.Uses (v.revive d p q).passRefs q := by
      rw [made, Declaration.Uses, getD_set _ _ _ inside, if_pos rfl]
      exact Or.inl positive
    constructor
    · intro x member
      rw [made] at member
      rcases List.mem_cons.mp member with rfl | old
      · exact revived
      · exact advances.kept x (rooted.waits x old)
    · intro x used'
      by_cases here : x = q
      · subst here
        obtain ⟨root, first, leads⟩ := rooted.leads p used
        exact ⟨root, first, .head ⟨contributes, advances.kept p used⟩ (later leads)⟩
      · have before : d.Uses v.passRefs x := by
          rw [made, Declaration.Uses, getD_set _ _ _ inside,
            if_neg fun same => here (congrArg PassId.mk same.symm)] at used'
          exact used'
        obtain ⟨root, first, leads⟩ := rooted.leads x before
        exact ⟨root, first, later leads⟩

theorem Rooted.meetNeeds {rest : List PassId} (rooted : v.Rooted d refs)
    (next : v.waiting = p :: rest) :
    (({ v with waiting := rest } : Revival).meetNeeds d p).Rooted d refs := by
  have used : d.Uses v.passRefs p := rooted.waits p (next ▸ List.mem_cons_self)
  have taken : ({ v with waiting := rest } : Revival).Rooted d refs :=
    ⟨fun x member => rooted.waits x (next ▸ List.mem_cons_of_mem p member), rooted.leads⟩
  unfold Revival.meetNeeds
  refine (List.foldlRecOn (motive := fun w : Revival => w.Rooted d refs ∧ d.Uses w.passRefs p)
    _ _ ⟨taken, used⟩ ?_).1
  rintro w ⟨rooted', used'⟩ q need
  cases held : d.pass? p with
  | none =>
    rw [held] at need
    cases need
  | some pass =>
    rw [held] at need
    exact rooted'.revive used' (Declaration.contributes_of_need held need)

theorem Occurs.rooted {start : Revival} (rooted : start.Rooted d refs)
    (occurs : Occurs d start v) : v.Rooted d refs := by
  induction occurs with
  | start => exact rooted
  | meet _ next ih => exact ih.meetNeeds next

end Revival

namespace Declaration

variable {d : Declaration} {p q : PassId} {pass : Pass}

theorem rooted_firstRevival (d : Declaration) : d.firstRevival.Rooted d d.tally.passRefs where
  waits _ := uses_of_firstRevival
  leads p used := ⟨p, used, .refl⟩

theorem rooted_revival (d : Declaration) :
    (d.revival d.tally.passRefs).Rooted d d.tally.passRefs :=
  (Revival.Occurs.settle .start).1.rooted d.rooted_firstRevival

def Survives (d : Declaration) (p : PassId) : Prop := ∃ pass, (p, pass) ∈ d.surviving

theorem held_of_uses (used : d.Uses d.tally.passRefs p) : ∃ pass, d.pass? p = some pass :=
  ⟨_, List.getElem?_eq_getElem (index_lt_of_uses d.occurs_tally.shaped.passes used)⟩

theorem survives_of_uses (used : d.Uses d.tally.passRefs p) : d.Survives p := by
  have kept : ∀ x, d.Uses d.tally.passRefs x → d.Uses (d.revival d.tally.passRefs).passRefs x := by
    have occurs : Revival.Occurs d d.firstRevival (d.revival d.tally.passRefs) :=
      (Revival.Occurs.settle .start).1
    generalize d.revival d.tally.passRefs = v at occurs
    induction occurs with
    | start => exact fun _ => id
    | meet _ next ih =>
      exact fun x used => (Revival.advances_meetNeeds d _ _).kept x (ih x used)
  obtain ⟨pass, held⟩ := held_of_uses used
  exact ⟨pass, mem_survivors.mpr ⟨held, kept p used⟩⟩

/-- The pass feeds itself, directly or through other passes. -/
def FeedsItself (d : Declaration) (p : PassId) : Prop := Relation.TransGen d.Feeds p p

theorem FeedsItself.survives (circle : d.FeedsItself p) (closed : d.Closed) : d.Survives p := by
  have sustains : d.Sustains d.FeedsItself := by
    intro x around
    obtain ⟨y, feeds, back⟩ := Relation.TransGen.head'_iff.mp around
    obtain ⟨_, pass, _, held, _⟩ := id feeds
    exact ⟨pass, held, Or.inr ⟨y, .tail' back feeds, feeds⟩⟩
  obtain ⟨pass, held, _⟩ := sustains p circle
  exact survives_of_uses ((uses_tally_iff closed held).mpr ⟨_, sustains, circle⟩)

theorem Sustains.leads {kept : PassId → Prop} (sustains : d.Sustains kept) (member : kept p) :
    ∃ q, Relation.ReflTransGen (fun x y => d.Feeds x y ∧ kept y) p q ∧
      (d.hasSideEffects q = true ∨ d.FeedsItself q) := by
  have finite : {x | kept x}.Finite := by
    refine ((Set.finite_lt_nat d.passes.length).preimage
      fun _ _ _ _ same => congrArg PassId.mk same).subset fun x member => ?_
    obtain ⟨_, held, _⟩ := sustains x member
    exact index_lt_of_pass? held
  obtain ⟨q, path, last, ends⟩ := exists_last_or_circle (R := d.Feeds) finite member
  refine ⟨q, path, ends.imp_left fun none => ?_⟩
  obtain ⟨pass, held, effects | ⟨next, kept', feeds⟩⟩ := sustains q last
  · simp [hasSideEffects, held, effects]
  · exact absurd feeds (none next kept')

theorem Survives.leads (survives : d.Survives p) (closed : d.Closed) :
    ∃ q, Relation.ReflTransGen (fun x y => d.Contributes x y ∧ d.Survives y) p q ∧
      (d.hasSideEffects q = true ∨ d.FeedsItself q) := by
  obtain ⟨pass, member⟩ := survives
  obtain ⟨root, first, leads⟩ := d.rooted_revival.leads p (mem_survivors.mp member).2
  obtain ⟨_, held⟩ := held_of_uses first
  obtain ⟨kept, sustains, kept'⟩ := (uses_tally_iff closed held).mp first
  obtain ⟨q, path, ends⟩ := sustains.leads kept'
  refine ⟨q, .trans (b := root) ?_ ?_, ends⟩
  · refine Relation.ReflTransGen.mono (fun x y step => ⟨step.1, ?_⟩) p root leads
    obtain ⟨_, _, other, _, found, _⟩ := step.1
    exact ⟨other, mem_survivors.mpr ⟨found, step.2⟩⟩
  · refine Relation.ReflTransGen.mono (fun x y step => ⟨step.1.contributes, ?_⟩) root q path
    obtain ⟨_, found, _⟩ := sustains y step.2
    exact survives_of_uses ((uses_tally_iff closed found).mpr ⟨kept, sustains, step.2⟩)

theorem exists_touches_of_isLive {r : ResourceId} (live : d.cull.survival.isLive r = true) :
    ∃ p pass, (p, pass) ∈ d.surviving ∧ pass.touches r = true := by
  have listed : (d.resourceIds.map fun r => d.surviving.any fun e => e.2.touches r)[r.index]? =
      some true := by
    rw [Survival.isLive, List.getD_eq_getElem?_getD] at live
    cases found : d.cull.survival.live[r.index]? with
    | none => simp [found] at live
    | some value =>
      rw [found, Option.getD_some] at live
      exact live ▸ found
  rw [List.getElem?_map] at listed
  obtain ⟨r', found, touched⟩ := Option.map_eq_some_iff.mp listed
  have same : r' = r := by
    rw [resourceIds, List.getElem?_map] at found
    obtain ⟨n, number, rfl⟩ := Option.map_eq_some_iff.mp found
    obtain ⟨_, value⟩ := List.getElem?_eq_some_iff.mp number
    exact congrArg ResourceId.mk (by simpa using value.symm)
  subst same
  obtain ⟨⟨p, pass⟩, member, touches⟩ := List.any_eq_true.mp touched
  exact ⟨p, pass, member, touches⟩

end Declaration

namespace Session

variable {s s' : Session}

/-- The survivors of a compiled graph are the passes recorded, and what is held on the device is
accessed by one of them. Each of them contributes through survivors to a pass with side effects,
unless it contributes to a pass that feeds itself: these survive whether they contribute to a side
effect or not. -/
theorem survivors_contribute (reachable : s.Reachable) (does : s.Does Graph.compile s') :
    ∃ c, s'.graph.compilation = some c ∧
      (∀ p, p ∈ c.schedule.recordedPasses ↔ s'.graph.declaration.Survives p) ∧
      (∀ r, s'.graph.residency.copiesOf r ≠ [] →
        ∃ p pass, (p, pass) ∈ s'.graph.declaration.surviving ∧ pass.touches r = true) ∧
      (∀ p, s'.graph.declaration.Survives p → ∃ q,
        Relation.ReflTransGen (fun x y =>
          s'.graph.declaration.Contributes x y ∧ s'.graph.declaration.Survives y) p q ∧
        (s'.graph.declaration.hasSideEffects q = true ∨ s'.graph.declaration.FeedsItself q)) ∧
      ∀ p, s'.graph.declaration.FeedsItself p → s'.graph.declaration.Survives p := by
  obtain ⟨c, made, compiled, _, declaration, _⟩ := does.compiled
  have closed : s'.graph.declaration.Closed := declaration ▸ reachable.closed
  obtain ⟨c', blocks, compilation, consists⟩ := schedule_grammar reachable does
  cases compiled.compilation.symm.trans compilation
  refine ⟨c, compiled.compilation, fun p => ?_, fun r held => ?_,
    fun p survives => survives.leads closed, fun p circle => circle.survives closed⟩
  · rw [consists.recorded, List.mem_map]
    constructor
    · rintro ⟨⟨p, pass⟩, member, rfl⟩
      exact ⟨pass, member⟩
    · rintro ⟨pass, member⟩
      exact ⟨(p, pass), member, rfl⟩
  · have live := ((does.copiesOf_ne_nil_iff r).mp held).1
    rw [compiled.survival] at live
    exact Declaration.exists_touches_of_isLive live

theorem blurred_survivor_leads : blurred.Reachable ∧
    blurred.Does Graph.compile (blurred.act .compile) ∧
    ∃ q, Relation.ReflTransGen (fun x y =>
        (blurred.act .compile).graph.declaration.Contributes x y ∧
          (blurred.act .compile).graph.declaration.Survives y) ⟨0⟩ q ∧
      ((blurred.act .compile).graph.declaration.hasSideEffects q = true ∨
        (blurred.act .compile).graph.declaration.FeedsItself q) := by
  have reachable : blurred.Reachable := (Reachable.start {} [] {}).foldl _
  obtain ⟨_, _, _, _, leads, _⟩ := survivors_contribute reachable blurred_compiles
  refine ⟨reachable, blurred_compiles, leads ⟨0⟩ ⟨blurPass, ?_⟩⟩
  rw [blurred_surviving]
  exact List.mem_cons_self

/-! Two passes that only pass a pair of images on to each other, beside a pass with side effects. -/

def circling : Session := [
  .manage "front" { extent := .texture 8 8, format := .rgba8Unorm } .colorTarget,
  .manage "back" { extent := .texture 8 8, format := .rgba8Unorm } .colorTarget,
  .declare "ping" .graphics
    [.read ⟨0⟩ "front" .pixelShaderRead [], .write ⟨1⟩ "back" .colorTarget []] none,
  .declare "pong" .graphics
    [.read ⟨1⟩ "back" .pixelShaderRead [], .write ⟨0⟩ "front" .colorTarget []] none,
  .declare "present" .graphics [.sideEffects true] none].foldl act (start {} [] {})

theorem circling_cull : circling.graph.declaration.cull =
    ⟨{ passRefs := [1, 1, 0], resourceRefs := [1, 1], live := [true, true] }, []⟩ := by
  unfold circling
  cbv

theorem circling_compiles : circling.Does Graph.compile (circling.act .compile) := by
  apply does_after
  rw [Graph.run_compile_of_fresh (by decide +kernel) (by decide +kernel) circling_cull]
  decide +kernel

def pingPass : Pass where
  name := "ping"
  queue := .graphics
  reads := [{ name := "front", resource := ⟨0⟩, usage := .pixelShaderRead }]
  writes := [{ name := "back", resource := ⟨1⟩, usage := .colorTarget }]

def pongPass : Pass where
  name := "pong"
  queue := .graphics
  reads := [{ name := "back", resource := ⟨1⟩, usage := .pixelShaderRead }]
  writes := [{ name := "front", resource := ⟨0⟩, usage := .colorTarget }]

def presentPass : Pass where
  name := "present"
  queue := .graphics
  sideEffects := true

theorem circling_passes :
    (circling.act .compile).graph.declaration.passes = [pingPass, pongPass, presentPass] := by
  obtain ⟨_, _, _, _, declaration, _⟩ := circling_compiles.compiled
  rw [declaration]
  decide +kernel

theorem circling_survives : (circling.act .compile).graph.declaration.Survives ⟨0⟩ := by
  obtain ⟨_, _, _, _, declaration, _⟩ := circling_compiles.compiled
  refine ⟨pingPass, ?_⟩
  rw [declaration, Declaration.surviving, circling_cull]
  decide +kernel

theorem sideEffects_of_circling {q : PassId}
    (effects : (circling.act .compile).graph.declaration.hasSideEffects q = true) : q = ⟨2⟩ := by
  rw [Declaration.hasSideEffects, Declaration.pass?, circling_passes] at effects
  rcases q with ⟨_ | _ | _ | n⟩
  · cases effects
  · cases effects
  · rfl
  · cases effects

/-- Two images that only go back and forth between two passes keep both passes, although neither
contributes to a side effect. -/
theorem not_all_survivors_contribute :
    ¬ ∀ s s' : Session, s.Reachable → s.Does Graph.compile s' →
      ∀ p, s'.graph.declaration.Survives p → ∃ q,
        Relation.ReflTransGen (fun x y =>
          s'.graph.declaration.Contributes x y ∧ s'.graph.declaration.Survives y) p q ∧
        s'.graph.declaration.hasSideEffects q = true := by
  intro claim
  have reachable : circling.Reachable := (Reachable.start {} [] {}).foldl _
  obtain ⟨q, path, effects⟩ := claim circling _ reachable circling_compiles ⟨0⟩ circling_survives
  cases sideEffects_of_circling effects
  -- Nothing contributes to a pass that accesses nothing.
  rcases path.cases_tail with same | ⟨_, _, ⟨r, _, other, _, found, contributes⟩, _⟩
  · cases same
  · rw [Declaration.pass?, circling_passes] at found
    cases found
    rcases contributes with ⟨_, reads⟩ | ⟨_, writes⟩
    · cases reads
    · cases writes

end Session

end RenderGraph
