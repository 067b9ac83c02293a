import RenderGraph.Proofs.FeedingPasses
import RenderGraph.Proofs.ScheduleMade

/-! Who survives. A pass survives if it is one of passes that have side effects or feed each other,
or if it contributes to a surviving pass that is declared after it. No other pass does. -/

namespace RenderGraph

namespace Declaration

variable {d d' : Declaration} {p q : PassId} {pass : Pass}

theorem mem_needs_iff (held : d.pass? q = some pass) :
    p ∈ d.needs pass ↔ d.Contributes p q := by
  constructor
  · exact contributes_of_need held
  · rintro ⟨r, other, _, found, held', how⟩
    cases held.symm.trans held'
    rcases how with ⟨outputs, reads⟩ | ⟨creates, writes⟩
    · exact mem_needs_of_readsFrom reads (mem_writers.mpr ⟨other, found, outputs⟩)
    · exact mem_needs_of_writesTo writes found creates

/-- The pass is one of passes that have side effects or feed each other. -/
def Sustained (d : Declaration) (p : PassId) : Prop := ∃ kept, d.Sustains kept ∧ kept p

/-- The sustained passes, with those that contribute to one of them from before it, and so on. -/
inductive Retained (d : Declaration) : PassId → Prop
  | sustained {p : PassId} (sustained : d.Sustained p) : Retained d p
  | needed {p q : PassId} (retained : Retained d q) (contributes : d.Contributes p q)
    (before : p.index < q.index) : Retained d p

theorem Sustained.exists_pass (sustained : d.Sustained p) : ∃ pass, d.pass? p = some pass := by
  obtain ⟨kept, sustains, member⟩ := sustained
  obtain ⟨pass, held, _⟩ := sustains p member
  exact ⟨pass, held⟩

theorem sustained_of_sideEffects (effects : d.hasSideEffects p = true) : d.Sustained p := by
  cases held : d.pass? p with
  | none => simp [hasSideEffects, held] at effects
  | some pass =>
    refine ⟨(· = p), ?_, rfl⟩
    rintro q rfl
    exact ⟨pass, held, Or.inl (by simpa [hasSideEffects, held] using effects)⟩

theorem Sustained.of_feeds (sustained : d.Sustained q) (feeds : d.Feeds p q) : d.Sustained p := by
  obtain ⟨kept, sustains, member⟩ := sustained
  refine ⟨fun x => kept x ∨ x = p, ?_, Or.inr rfl⟩
  rintro x (old | rfl)
  · obtain ⟨pass, held, why⟩ := sustains x old
    exact ⟨pass, held, why.imp_right fun ⟨y, kept', feeds'⟩ => ⟨y, Or.inl kept', feeds'⟩⟩
  · obtain ⟨_, pass, _, held, _⟩ := id feeds
    exact ⟨pass, held, Or.inr ⟨q, Or.inl member, feeds⟩⟩

theorem sustained_iff :
    d.Sustained p ↔ d.hasSideEffects p = true ∨ ∃ q, d.Sustained q ∧ d.Feeds p q := by
  constructor
  · rintro ⟨kept, sustains, member⟩
    obtain ⟨pass, held, effects | ⟨q, kept', feeds⟩⟩ := sustains p member
    · exact Or.inl (by simpa [hasSideEffects, held] using effects)
    · exact Or.inr ⟨q, ⟨kept, sustains, kept'⟩, feeds⟩
  · rintro (effects | ⟨q, sustained, feeds⟩)
    · exact sustained_of_sideEffects effects
    · exact sustained.of_feeds feeds

end Declaration

namespace Revival

variable {d : Declaration} {v : Revival} {p q : PassId} {pass : Pass} {refs : List Nat}

def Justified (d : Declaration) (v : Revival) : Prop := ∀ p, d.Uses v.passRefs p → d.Retained p

theorem Justified.revive (justified : v.Justified d) (retained : d.Retained p)
    (contributes : d.Contributes q p) : (v.revive d p q).Justified d := by
  rcases v.revive_cases d p q with ⟨same, _⟩ | ⟨left, _, before, _, unused, made⟩
  · rwa [same]
  · have inside := (List.getElem?_eq_some_iff.mp unused).1
    intro x used
    by_cases here : x = q
    · subst here
      exact .needed retained contributes before
    · have apart : q.index ≠ x.index := fun same => here (congrArg PassId.mk same.symm)
      rw [made, Declaration.Uses, getD_set _ _ _ inside, if_neg apart] at used
      exact justified x used

theorem Justified.meetNeeds (justified : v.Justified d) (retained : d.Retained p) :
    (v.meetNeeds d p).Justified d := by
  unfold Revival.meetNeeds
  refine List.foldlRecOn _ _ justified ?_
  intro w justified' q need
  cases held : d.pass? p with
  | none =>
    rw [held] at need
    cases need
  | some pass =>
    rw [held] at need
    exact justified'.revive retained (Declaration.contributes_of_need held need)

theorem Occurs.justified {start : Revival} (rooted : start.Rooted d refs)
    (justified : start.Justified d) (occurs : Occurs d start v) : v.Justified d := by
  induction occurs with
  | start => exact justified
  | @meet v p rest occurs next ih =>
    have used : d.Uses v.passRefs p :=
      (occurs.rooted rooted).waits p (next ▸ List.mem_cons_self)
    have taken : ({ v with waiting := rest } : Revival).Justified d := ih
    exact taken.meetNeeds (ih p used)

end Revival

namespace Declaration

variable {d d' : Declaration} {p q : PassId} {pass : Pass} {r : ResourceId}

theorem mem_surviving : (p, pass) ∈ d.surviving ↔ d.pass? p = some pass ∧ d.Survives p := by
  constructor
  · exact fun member => ⟨(mem_survivors.mp member).1, pass, member⟩
  · rintro ⟨held, other, member⟩
    cases held.symm.trans (mem_survivors.mp member).1
    exact member

theorem Sustained.survives (sustained : d.Sustained p) (closed : d.Closed) : d.Survives p := by
  obtain ⟨pass, held⟩ := sustained.exists_pass
  exact survives_of_uses ((uses_tally_iff closed held).mpr sustained)

theorem Survives.of_contributes (survives : d.Survives q) (contributes : d.Contributes p q)
    (before : p.index < q.index) : d.Survives p := by
  obtain ⟨pass, member⟩ := survives
  have held : d.pass? q = some pass := (mem_surviving.mp member).1
  exact survives_of_need member ((mem_needs_iff held).mpr contributes) before

theorem survives_iff_retained (closed : d.Closed) : d.Survives p ↔ d.Retained p := by
  constructor
  · rintro ⟨pass, member⟩
    have justified : d.firstRevival.Justified d := by
      intro x used
      obtain ⟨_, held⟩ := held_of_uses used
      exact .sustained ((uses_tally_iff closed held).mp used)
    have occurs : Revival.Occurs d d.firstRevival (d.revival d.tally.passRefs) :=
      (Revival.Occurs.settle .start).1
    exact occurs.justified d.rooted_firstRevival justified p (mem_survivors.mp member).2
  · intro retained
    induction retained with
    | sustained sustained => exact sustained.survives closed
    | needed _ contributes before ih => exact ih.of_contributes contributes before

/-- A pass survives for its side effects, for a sustained pass that it feeds, or for a later
survivor that it contributes to. -/
theorem survives_iff (closed : d.Closed) : d.Survives p ↔ d.hasSideEffects p = true ∨
    (∃ q, d.Sustained q ∧ d.Feeds p q) ∨
    ∃ q, d.Survives q ∧ d.Contributes p q ∧ p.index < q.index := by
  rw [← or_assoc, ← sustained_iff]
  constructor
  · intro survives
    cases (survives_iff_retained closed).mp survives with
    | sustained sustained => exact Or.inl sustained
    | @needed _ q retained contributes before =>
      exact Or.inr ⟨q, (survives_iff_retained closed).mpr retained, contributes, before⟩
  · rintro (sustained | ⟨q, survives, contributes, before⟩)
    · exact sustained.survives closed
    · exact survives.of_contributes contributes before

theorem isLive_iff (closed : d.Closed) : d.cull.survival.isLive r = true ↔
    ∃ p pass, (p, pass) ∈ d.surviving ∧ pass.touches r = true := by
  constructor
  · exact exists_touches_of_isLive
  · rintro ⟨p, pass, survives, touches⟩
    obtain ⟨a, access, same⟩ := List.any_eq_true.mp touches
    refine isLive_of_touches survives touches ?_
    rw [← eq_of_beq same]
    exact closed pass (List.mem_of_getElem? (mem_surviving.mp survives).1) a access

/-! Two declarations that agree on the passes that are retained. -/

theorem Feeds.congr (feeds : d.Feeds p q) (same : d'.pass? p = d.pass? p)
    (same' : d'.pass? q = d.pass? q) : d'.Feeds p q := by
  obtain ⟨r, pass, reader, held, found, how⟩ := feeds
  exact ⟨r, pass, reader, same.trans held, same'.trans found, how⟩

theorem Contributes.congr (contributes : d.Contributes p q) (same : d'.pass? p = d.pass? p)
    (same' : d'.pass? q = d.pass? q) : d'.Contributes p q := by
  obtain ⟨r, pass, other, held, found, how⟩ := contributes
  exact ⟨r, pass, other, same.trans held, same'.trans found, how⟩

theorem Retained.congr (retained : d.Retained p)
    (same : ∀ x, d.Retained x → d'.pass? x = d.pass? x) : d'.Retained p := by
  induction retained with
  | sustained sustained =>
    obtain ⟨kept, sustains, member⟩ := sustained
    have found {x : PassId} (kept' : kept x) : d'.pass? x = d.pass? x :=
      same x (.sustained ⟨kept, sustains, kept'⟩)
    refine .sustained ⟨kept, fun x kept' => ?_, member⟩
    obtain ⟨pass, held, why⟩ := sustains x kept'
    refine ⟨pass, (found kept').trans held, why.imp_right ?_⟩
    rintro ⟨y, kept'', feeds⟩
    exact ⟨y, kept'', feeds.congr (found kept') (found kept'')⟩
  | @needed p q retained contributes before ih =>
    have contributes' := contributes.congr (same p (.needed retained contributes before))
      (same q retained)
    exact .needed ih contributes' before

theorem surviving_congr (closed : d.Closed) (closed' : d'.Closed)
    (same : ∀ p, d.Retained p ∨ d'.Retained p → d'.pass? p = d.pass? p) :
    d'.surviving = d.surviving := by
  have survives (p : PassId) : d'.Survives p ↔ d.Survives p := by
    rw [survives_iff_retained closed, survives_iff_retained closed']
    constructor
    · exact fun retained => retained.congr fun x retained => (same x (Or.inr retained)).symm
    · exact fun retained => retained.congr fun x retained => same x (Or.inl retained)
  have irreflexive : Std.Irrefl fun e f : PassId × Pass => e.1.index < f.1.index :=
    ⟨fun _ => Nat.lt_irrefl _⟩
  have antisymmetric : Std.Antisymm fun e f : PassId × Pass => e.1.index < f.1.index :=
    ⟨fun _ _ before after => absurd before (Nat.lt_asymm after)⟩
  refine (d'.pairwise_survivors _).eq_of_mem_iff (d.pairwise_survivors _) ?_
  rintro ⟨p, pass⟩
  change (p, pass) ∈ d'.surviving ↔ (p, pass) ∈ d.surviving
  rw [mem_surviving, mem_surviving, survives p]
  refine and_congr_left fun kept => ?_
  rw [same p (Or.inl ((survives_iff_retained closed).mp kept))]

theorem isLive_congr (closed : d.Closed) (closed' : d'.Closed)
    (same : d'.surviving = d.surviving) (r : ResourceId) :
    d'.cull.survival.isLive r = d.cull.survival.isLive r := by
  rw [Bool.eq_iff_iff, isLive_iff closed', isLive_iff closed, same]

end Declaration

end RenderGraph
