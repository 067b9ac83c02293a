import RenderGraph.Proofs.QueueOrder

/-! Order between transitions and the passes recorded before them. Syncs follow the contents of
resources, not their states. A transition comes after an earlier pass if conflicts between passes
and the order of the queues lead from that pass to the one that the transition is made for. -/

namespace RenderGraph

namespace Declaration

/-- The earlier of two surviving passes is on the same queue, or they share a resource that a pass
from the one to the other outputs to. -/
def DirectlyPrecedes (d : Declaration) (e f : PassId × Pass) : Prop :=
  e ∈ d.surviving ∧ f ∈ d.surviving ∧ e.1.index < f.1.index ∧
    (e.2.queue = f.2.queue ∨
      ∃ r, e.2.touches r = true ∧ f.2.touches r = true ∧ ∃ w ∈ d.surviving,
        e.1.index ≤ w.1.index ∧ w.1.index ≤ f.1.index ∧ w.2.outputsTo r = true)

def Precedes (d : Declaration) : PassId × Pass → PassId × Pass → Prop :=
  Relation.TransGen d.DirectlyPrecedes

end Declaration

/-- The first entry's list is the second's or an earlier one of the same queue, or it reaches the
second's queue before the second's list is submitted. -/
def Leads (events : List Event) (e f : Entry) : Prop :=
  e.pass.queue = f.pass.queue ∧ e.list.index ≤ f.list.index ∨
    ReachesBefore events e.list e.pass.queue f.list f.pass.queue

section

variable {b : Brief} {s : Schedule} {log : List Entry} {p : PassId} {pass : Pass}

theorem Brief.pass_eq (same : log.map (fun e => (e.id, e.pass)) = b.live) {e : Entry}
    (held : e ∈ log) (member : (e.id, pass) ∈ b.live) : e.pass = pass := by
  obtain ⟨k, f, found, sameId, rfl⟩ := Brief.exists_entry same member
  have equal : f = e := List.inj_on_of_nodup_map (Brief.nodup_ids same)
    (List.mem_of_getElem? found) held sameId
  rw [equal]

theorem Brief.mem_live (same : log.map (fun e => (e.id, e.pass)) = b.live) {e : Entry}
    (held : e ∈ log) : (e.id, e.pass) ∈ b.live := by
  rw [← same]
  exact List.mem_map_of_mem held

theorem Brief.le_of_index_le (same : log.map (fun e => (e.id, e.pass)) = b.live) {j k : Nat}
    {e f : Entry} (first : log[j]? = some e) (second : log[k]? = some f)
    (before : e.id.index ≤ f.id.index) : j ≤ k := by
  apply Nat.le_of_not_lt
  intro after
  have apart := List.pairwise_iff_getElem.mp (Brief.pairwise_log same)
  obtain ⟨inside, rfl⟩ := List.getElem?_eq_some_iff.mp first
  obtain ⟨inside', rfl⟩ := List.getElem?_eq_some_iff.mp second
  exact absurd (apart k j inside' inside after) (Nat.not_lt_of_le before)

end

section

variable {s : Schedule} {log : List Entry} {e f g : Entry}

namespace Schedule.Follows

theorem exists_submit (follows : s.Follows log) (member : e ∈ log) :
    ∃ n : Nat, s.events[n]? = some (.submit e.list) := by
  obtain ⟨n, once⟩ := follows.submittedAt (follows.queues e member)
  exact ⟨n, (once n).mpr rfl⟩

theorem leads_trans (follows : s.Follows log) (member : e ∈ log) (middle : f ∈ log)
    (first : Leads s.events e f) (second : Leads s.events f g) : Leads s.events e g := by
  obtain ⟨m, submit⟩ := follows.exists_submit member
  obtain ⟨n, submit'⟩ := follows.exists_submit middle
  rcases first with ⟨queue, le⟩ | before
  · rcases second with ⟨queue', le'⟩ | before'
    · exact Or.inl ⟨queue.trans queue', Nat.le_trans le le'⟩
    · refine Or.inr ?_
      rw [queue]
      exact before'.sooner submit fun l held => follows.submitted_le le submit held
  · rcases second with ⟨queue', le'⟩ | before'
    · refine Or.inr ?_
      rw [← queue']
      exact before.longer submit' fun l held => follows.submitted_le le' submit' held
    · exact Or.inr (before.comp before')

theorem leads_of_directlyPrecedes {d : Declaration} {b : Brief} (follows : s.Follows log)
    (live : b.live = d.surviving) (same : log.map (fun e => (e.id, e.pass)) = b.live)
    (member : e ∈ log) (member' : f ∈ log)
    (precedes : d.DirectlyPrecedes (e.id, e.pass) (f.id, f.pass)) : Leads s.events e f := by
  obtain ⟨_, _, lower, reason⟩ := precedes
  obtain ⟨j, held⟩ := List.mem_iff_getElem?.mp member
  obtain ⟨k, held'⟩ := List.mem_iff_getElem?.mp member'
  have before := Brief.lt_of_index_lt same held held' lower
  by_cases queue : e.pass.queue = f.pass.queue
  · obtain ⟨inside, rfl⟩ := List.getElem?_eq_some_iff.mp held
    obtain ⟨inside', rfl⟩ := List.getElem?_eq_some_iff.mp held'
    exact Or.inl ⟨queue, List.pairwise_iff_getElem.mp follows.rising j k inside inside' before⟩
  · obtain ⟨r, touches, touches', ⟨w, writer⟩, survives, low, high, outputs⟩ :=
      reason.resolve_left queue
    rw [← live] at survives
    obtain ⟨i, g, found, rfl, rfl⟩ := Brief.exists_entry same survives
    have output : OutputBetween log r j k :=
      ⟨i, g, Brief.le_of_index_le same held found low, Brief.le_of_index_le same found held' high,
        found, outputs⟩
    exact Or.inr (follows.sequenced r j k e f before held held' queue touches touches' output)

theorem leads_of_precedes {d : Declaration} {b : Brief} {other : PassId × Pass}
    (follows : s.Follows log) (live : b.live = d.surviving)
    (same : log.map (fun e => (e.id, e.pass)) = b.live) (member : e ∈ log)
    (precedes : d.Precedes (e.id, e.pass) other) :
    ∃ f ∈ log, (f.id, f.pass) = other ∧ Leads s.events e f := by
  have entry (x : PassId × Pass) (survives : x ∈ d.surviving) :
      ∃ f ∈ log, (f.id, f.pass) = x := by
    rw [← live, ← same] at survives
    exact List.mem_map.mp survives
  induction precedes with
  | single step =>
    obtain ⟨f, member', rfl⟩ := entry _ step.2.1
    exact ⟨f, member', rfl, follows.leads_of_directlyPrecedes live same member member' step⟩
  | tail _ step ih =>
    obtain ⟨f, middle, rfl, leads⟩ := ih
    obtain ⟨g, member', rfl⟩ := entry _ step.2.1
    have last := follows.leads_of_directlyPrecedes live same middle member' step
    exact ⟨g, member', rfl, follows.leads_trans member middle leads last⟩

end Schedule.Follows

end

namespace Session

variable {s s' : Session}

/-- A transition comes after a surviving pass recorded before it on another queue that shares the
resource, if it restores a state or if the pass precedes the one that the transition is made for. -/
theorem transitions_ordered (reachable : s.Reachable) (does : s.Does Graph.compile s') :
    ∃ c, s'.graph.compilation = some c ∧
      ∀ (m n : Nat) first list batch t p pass, m < n →
        c.schedule.events[m]? = some (.record first p) →
        c.schedule.events[n]? = some (.barriers list batch) → .transition t ∈ batch →
        (p, pass) ∈ s'.graph.declaration.surviving → pass.touches t.resource = true →
        c.schedule.listQueue? list ≠ some pass.queue →
        (∀ q other, c.schedule.events[n + 1]? = some (.record list q) →
          (q, other) ∈ s'.graph.declaration.surviving → other.touches t.resource = true →
          s'.graph.declaration.Precedes (p, pass) (q, other)) →
        c.schedule.Orders first list := by
  obtain ⟨c, b, log, compilation, live, same, follows⟩ := does.follows reachable
  refine ⟨c, compilation, ?_⟩
  intro m n first list batch t p pass before recorded barriers transition survives touches apart
    precedes
  rw [← live] at survives precedes
  obtain ⟨e, member, rfl, rfl⟩ := follows.exists_entry (List.mem_of_getElem? recorded)
  have own := Brief.pass_eq same member survives
  subst own
  rcases follows.batched n list batch barriers with placed | ⟨queue, opened, _, _, waits⟩
  · obtain ⟨f, member', record, shared⟩ := placed
    have here := (follows.recordedInto (Brief.nodup_ids same) member').list_eq record
    subst here
    have earlier := precedes f.id f.pass record (Brief.mem_live same member')
      (shared _ transition)
    obtain ⟨g, found, equal, leads⟩ := follows.leads_of_precedes live same member earlier
    have last : g = f := List.inj_on_of_nodup_map (Brief.nodup_ids same) found member'
      (congrArg Prod.fst equal)
    subst last
    rcases leads with ⟨queue, _⟩ | reaches
    · rw [queue] at apart
      exact absurd (follows.queues g member') apart
    · exact follows.orders (follows.queues e member) (follows.queues g member') reaches
  · have other : e.pass.queue ≠ queue := by
      rintro rfl
      exact apart opened
    exact follows.orders (follows.queues e member) opened
      (waits t transition e member other touches)

theorem blurred_transition_ordered : blurred.Reachable ∧
    blurred.Does Graph.compile (blurred.act .compile) ∧
    ∃ c, (blurred.act .compile).graph.compilation = some c ∧
      c.schedule.events[6]? =
        some (.barriers ⟨1⟩ [.transition ⟨⟨0⟩, .unorderedAccess, .pixelShaderResource, {}⟩]) ∧
      c.schedule.Orders ⟨0⟩ ⟨1⟩ := by
  have reachable : blurred.Reachable := (Reachable.start {} [] {}).foldl _
  obtain ⟨c, compilation, ordered⟩ := transitions_ordered reachable blurred_compiles
  have schedule := schedule_of_blurred compilation
  have blur : (⟨0⟩, blurPass) ∈ (blurred.act .compile).graph.declaration.surviving := by
    rw [blurred_surviving]
    exact List.mem_cons_self
  have recorded : c.schedule.events[2]? = some (.record ⟨0⟩ ⟨0⟩) := by
    rw [schedule]
    rfl
  have barriers : c.schedule.events[6]? =
      some (.barriers ⟨1⟩ [.transition ⟨⟨0⟩, .unorderedAccess, .pixelShaderResource, {}⟩]) := by
    rw [schedule]
    rfl
  have other : c.schedule.listQueue? ⟨1⟩ ≠ some blurPass.queue := by
    rw [schedule]
    decide
  refine ⟨reachable, blurred_compiles, c, compilation, barriers, ?_⟩
  refine ordered 2 6 ⟨0⟩ ⟨1⟩ _ _ ⟨0⟩ blurPass (by decide) recorded barriers List.mem_cons_self blur
    (by decide) other ?_
  intro q other record survives touched
  have later : q = ⟨1⟩ := by
    rw [schedule] at record
    cases record
    rfl
  subst later
  refine .single ⟨blur, survives, Nat.zero_lt_one, Or.inr ⟨⟨0⟩, by decide, touched, ?_⟩⟩
  exact ⟨(⟨0⟩, blurPass), blur, Nat.le_refl 0, Nat.zero_le 1, by decide⟩

/-! An image that two passes on different queues read in different states. -/

def shared : Session := [
  .declare "upload" .copy
    [.create { extent := .texture 8 8, format := .rgba8Unorm } "image" .copyDest []] none,
  .declare "histogram" .compute
    [.read ⟨0⟩ "image" .nonPixelShaderRead [], .sideEffects true] none,
  .declare "draw" .graphics
    [.read ⟨0⟩ "image" .pixelShaderRead [], .sideEffects true] none].foldl act (start {} [] {})

theorem shared_cull : shared.graph.declaration.cull =
    ⟨{ passRefs := [1, 0, 0], resourceRefs := [2], live := [true] }, []⟩ := by
  unfold shared
  cbv

theorem shared_compiles : shared.Does Graph.compile (shared.act .compile) := by
  apply does_after
  rw [Graph.run_compile_of_fresh (by decide +kernel) (by decide +kernel) shared_cull]
  decide +kernel

def histogramPass : Pass where
  name := "histogram"
  queue := .compute
  reads := [{ name := "image", resource := ⟨0⟩, usage := .nonPixelShaderRead }]
  sideEffects := true

theorem histogram_survives :
    (⟨1⟩, histogramPass) ∈ (shared.act .compile).graph.declaration.surviving := by
  obtain ⟨_, _, _, _, declaration, _⟩ := shared_compiles.compiled
  rw [declaration, Declaration.surviving, shared_cull]
  decide +kernel

def sharedSchedule : Schedule where
  events := [
    .openList .copy ⟨0⟩,
    .record ⟨0⟩ ⟨0⟩,
    .submit ⟨0⟩,
    .openList .compute ⟨1⟩,
    .sync .copy .compute ⟨0⟩,
    .barriers ⟨1⟩ [.transition ⟨⟨0⟩, .copyDest, .nonPixelShaderResource, {}⟩],
    .record ⟨1⟩ ⟨1⟩,
    .submit ⟨1⟩,
    .openList .graphics ⟨2⟩,
    .sync .copy .graphics ⟨0⟩,
    .barriers ⟨2⟩ [.transition ⟨⟨0⟩, .nonPixelShaderResource, .pixelShaderResource, {}⟩],
    .record ⟨2⟩ ⟨2⟩,
    .submit ⟨2⟩]
  lists := [.copy, .compute, .graphics]
  fences := [.copy]
  finalStates := [some .pixelShaderResource]

theorem schedule_of_shared {c : Compilation}
    (compilation : (shared.act .compile).graph.compilation = some c) :
    c.schedule = sharedSchedule := by
  have made := shared_compiles.schedule_eq shared_cull compilation
  have expected : (Brief.mk shared.graph.declaration
      { passRefs := [1, 0, 0], resourceRefs := [2], live := [true] }
      shared.graph.config.mergesReads).schedule = .ok sharedSchedule := by decide +kernel
  rw [expected] at made
  exact (Except.ok.inj made).symm

/-- No chain of syncs leaves the compute queue, although the histogram may still read the image
when the graphics queue changes its state. -/
theorem not_all_transitions_ordered :
    ¬ ∀ (s s' : Session) (c : Compilation) (m n : Nat) first list batch t p pass,
      s.Reachable → s.Does Graph.compile s' → s'.graph.compilation = some c → m < n →
      c.schedule.events[m]? = some (.record first p) →
      c.schedule.events[n]? = some (.barriers list batch) → .transition t ∈ batch →
      (p, pass) ∈ s'.graph.declaration.surviving → pass.touches t.resource = true →
      c.schedule.listQueue? list ≠ some pass.queue → c.schedule.Orders first list := by
  intro claim
  obtain ⟨c, _, compiled, _⟩ := shared_compiles.compiled
  have compilation := compiled.compilation
  have schedule := schedule_of_shared compilation
  have recorded : c.schedule.events[6]? = some (.record ⟨1⟩ ⟨1⟩) := by
    rw [schedule]
    rfl
  have barriers : c.schedule.events[10]? = some
      (.barriers ⟨2⟩ [.transition ⟨⟨0⟩, .nonPixelShaderResource, .pixelShaderResource, {}⟩]) := by
    rw [schedule]
    rfl
  have other : c.schedule.listQueue? ⟨2⟩ ≠ some histogramPass.queue := by
    rw [schedule]
    decide
  have reachable : shared.Reachable := (Reachable.start {} [] {}).foldl _
  obtain ⟨source, waiting, m, i, k, n, opened, _, _, _, chain, _⟩ :=
    claim shared _ c 6 10 ⟨1⟩ ⟨2⟩ _ _ ⟨1⟩ histogramPass reachable shared_compiles compilation
      (by decide) recorded barriers List.mem_cons_self histogram_survives (by decide) other
  obtain ⟨next, fence, sync⟩ := chain.first_sync
  rw [schedule] at opened sync
  cases opened
  have member := List.mem_of_getElem? sync
  simp [sharedSchedule] at member

end Session

end RenderGraph
