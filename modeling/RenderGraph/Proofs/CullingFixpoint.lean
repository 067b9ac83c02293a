import RenderGraph.Proofs.Compiled
import RenderGraph.Proofs.SurvivalClosure

/-! Culling as a least fixpoint. A pass without side effects is dead if it feeds only dead passes,
and culling keeps the passes that are not dead, with those they depend on from before. It does so
whatever an earlier run has left behind. -/

namespace RenderGraph

namespace Declaration

variable {d : Declaration} {p q : PassId} {pass : Pass}

/-- The least set of passes such that a pass without side effects is among them if every pass that
reads one of its outputs, and does not output to it in turn, is among them. -/
inductive Dead (d : Declaration) : PassId → Prop
  | unwanted {p : PassId} {pass : Pass} (held : d.pass? p = some pass)
    (idle : pass.sideEffects = false) (readers : ∀ q, d.Feeds p q → Dead d q) : Dead d p

/-- The least set that contains the passes that are not dead, and with each pass the earlier ones
that contribute to it. -/
inductive Kept (d : Declaration) : PassId → Prop
  | alive {p : PassId} {pass : Pass} (held : d.pass? p = some pass) (alive : ¬ d.Dead p) : Kept d p
  | needed {p q : PassId} (kept : Kept d q) (contributes : d.Contributes p q)
    (before : p.index < q.index) : Kept d p

theorem Dead.not_of_sustains {kept : PassId → Prop} (dead : d.Dead p)
    (sustains : d.Sustains kept) : ¬ kept p := by
  induction dead with
  | @unwanted p pass held idle _ ih =>
    intro member
    obtain ⟨found, held', effects | ⟨q, member', feeds⟩⟩ := sustains p member
    · cases held.symm.trans held'
      simp [idle] at effects
    · exact ih q feeds member'

theorem sustains_alive (d : Declaration) :
    d.Sustains fun p => (∃ pass, d.pass? p = some pass) ∧ ¬ d.Dead p := by
  rintro p ⟨⟨pass, held⟩, alive⟩
  refine ⟨pass, held, ?_⟩
  cases idle : pass.sideEffects with
  | true => exact Or.inl rfl
  | false =>
    right
    by_contra unfed
    refine alive (.unwanted held idle fun q feeds => ?_)
    obtain ⟨_, _, reader, _, found, _⟩ := id feeds
    by_contra alive'
    exact unfed ⟨q, ⟨⟨reader, found⟩, alive'⟩, feeds⟩

theorem sustained_iff_not_dead (held : d.pass? p = some pass) : d.Sustained p ↔ ¬ d.Dead p := by
  constructor
  · rintro ⟨kept, sustains, member⟩ dead
    exact dead.not_of_sustains sustains member
  · exact fun alive => ⟨_, d.sustains_alive, ⟨pass, held⟩, alive⟩

theorem kept_iff_retained : d.Kept p ↔ d.Retained p := by
  constructor
  · intro kept
    induction kept with
    | alive held alive => exact .sustained ((sustained_iff_not_dead held).mpr alive)
    | needed _ contributes before ih => exact .needed ih contributes before
  · intro retained
    induction retained with
    | sustained sustained =>
      obtain ⟨pass, held⟩ := sustained.exists_pass
      exact .alive held ((sustained_iff_not_dead held).mp sustained)
    | needed _ contributes before ih => exact .needed ih contributes before

theorem uses_cull_iff_kept (closed : d.Closed) (held : d.pass? p = some pass) :
    d.cull.survival.uses p pass = true ↔ d.Kept p := by
  rw [kept_iff_retained, ← survives_iff_retained closed]
  constructor
  · exact fun used => ⟨pass, mem_survivors.mpr ⟨held, (uses_iff held).mp used⟩⟩
  · intro survives
    exact (uses_iff held).mpr (mem_survivors.mp (mem_surviving.mpr ⟨held, survives⟩)).2

theorem isLive_cull_iff {r : ResourceId} (closed : d.Closed) : d.cull.survival.isLive r = true ↔
    ∃ p pass, d.pass? p = some pass ∧ d.cull.survival.uses p pass = true ∧
      pass.touches r = true := by
  rw [isLive_iff closed]
  refine exists_congr fun p => exists_congr fun pass => ?_
  rw [← and_assoc]
  refine and_congr_left fun _ => mem_survivors.trans (and_congr_right fun held => ?_)
  exact (uses_iff held).symm

end Declaration

namespace Graph

/-- Whatever earlier runs left, culling goes through on a declaration whose accesses are to declared
resources, the only ones that have references to count. It uses the passes of the least fixpoint and
finds live what they touch. -/
theorem cull_fixpoint (g : Graph) (rig : Rig) (closed : g.declaration.Closed) :
    ∃ result g' rig', Graph.cull.run g rig = (.ok result, g', rig') ∧
      g'.declaration = g.declaration ∧
      (∀ p pass, g.declaration.pass? p = some pass →
        (g'.survival.uses p pass = true ↔ g.declaration.Kept p)) ∧
      ∀ r, g'.survival.isLive r = true ↔ ∃ p pass, g.declaration.pass? p = some pass ∧
        g'.survival.uses p pass = true ∧ pass.touches r = true :=
  ⟨g.declaration.cull, g.culled g.declaration.cull, _, rfl, rfl,
    fun _ _ held => Declaration.uses_cull_iff_kept closed held,
    fun _ => Declaration.isLive_cull_iff closed⟩

/-! A pass that wipes an image for another one to cover, with a culling run behind it that
found nothing alive. Nobody reads the image, and so the first pass is dead, but not dispensable. -/

def layered : Session := [
  .declare "wipe" .graphics
    [.create { extent := .texture 8 8, format := .rgba8Unorm } "image" .colorTarget []] none,
  .declare "cover" .graphics [.write ⟨0⟩ "image" .colorTarget [], .sideEffects true]
    none].foldl Session.act (Session.start {} [] {})

def stale : Graph :=
  { layered.graph with survival := { passRefs := [0, 9], resourceRefs := [4], live := [false] } }

def wipePass : Pass where
  name := "wipe"
  queue := .graphics
  creates := [{ name := "image", resource := ⟨0⟩, usage := .colorTarget }]

def coverPass : Pass where
  name := "cover"
  queue := .graphics
  writes := [{ name := "image", resource := ⟨0⟩, usage := .colorTarget }]
  sideEffects := true

theorem passes_of_stale : stale.declaration.passes = [wipePass, coverPass] := by decide +kernel

theorem closed_of_stale : stale.declaration.Closed :=
  ((Session.Reachable.start {} [] {}).foldl _ : layered.Reachable).closed

theorem dead_of_stale : stale.declaration.Dead ⟨0⟩ := by
  refine @Declaration.Dead.unwanted _ _ wipePass ?_ rfl ?_
  · rw [Declaration.pass?, passes_of_stale]
    rfl
  · rintro q ⟨r, _, reader, _, found, _, reads⟩
    -- Neither pass reads anything.
    have read : reader.reads = [] := by
      have member : reader ∈ [wipePass, coverPass] := passes_of_stale ▸ List.mem_of_getElem? found
      simp only [List.mem_cons, List.not_mem_nil, or_false] at member
      rcases member with rfl | rfl <;> rfl
    simp [Pass.onlyReads, Pass.readsFrom, read] at reads

theorem stale_cull_fixpoint : stale.declaration.Closed ∧ stale.declaration.Dead ⟨0⟩ ∧
    ∃ result g' rig', Graph.cull.run stale layered.rig = (.ok result, g', rig') ∧
      g'.survival.uses ⟨0⟩ wipePass = true ∧ g'.survival.isLive ⟨0⟩ = true := by
  obtain ⟨result, g', rig', culls, _, used, live⟩ := cull_fixpoint stale layered.rig closed_of_stale
  have wipe : stale.declaration.pass? ⟨0⟩ = some wipePass := by
    rw [Declaration.pass?, passes_of_stale]
    rfl
  have cover : stale.declaration.pass? ⟨1⟩ = some coverPass := by
    rw [Declaration.pass?, passes_of_stale]
    rfl
  have drawn : stale.declaration.Kept ⟨1⟩ := by
    refine .alive cover ?_
    rintro ⟨held, idle, _⟩
    cases cover.symm.trans held
    cases idle
  have wiped : stale.declaration.Kept ⟨0⟩ :=
    .needed drawn ⟨⟨0⟩, wipePass, coverPass, wipe, cover, Or.inr ⟨rfl, rfl⟩⟩ Nat.zero_lt_one
  have uses := (used ⟨0⟩ wipePass wipe).mpr wiped
  exact ⟨closed_of_stale, dead_of_stale, result, g', rig', culls, uses,
    (live ⟨0⟩).mpr ⟨⟨0⟩, wipePass, wipe, uses, rfl⟩⟩

end Graph

end RenderGraph
