import RenderGraph.Proofs.RevivalClosure
import RenderGraph.Proofs.ScheduleOrder

/-! The balance of counting down. A resource holds one reference for every used pass that reads it
without outputting to it, and a pass without side effects one for every resource it outputs to that
has not been dropped. The resources without references are those to be dropped and those dropped. -/

namespace RenderGraph

theorem countP_of_flip {α : Type} {xs : List α} {x : α} {f g : α → Bool} (nodup : xs.Nodup)
    (member : x ∈ xs) (counts : f x = true) (drops : g x = false)
    (other : ∀ y ∈ xs, y ≠ x → f y = g y) : xs.countP f = xs.countP g + 1 := by
  obtain ⟨front, back, rfl⟩ := List.append_of_mem member
  obtain ⟨_, rest, apart⟩ := List.nodup_append.mp nodup
  have before : front.countP f = front.countP g := by
    apply List.countP_congr
    intro y early
    rw [other y (List.mem_append_left _ early) (apart y early x List.mem_cons_self)]
  have after : back.countP f = back.countP g := by
    apply List.countP_congr
    intro y late
    have distinct : y ≠ x := by
      rintro rfl
      exact (List.nodup_cons.mp rest).1 late
    rw [other y (List.mem_append_right _ (List.mem_cons_of_mem _ late)) distinct]
  simp only [List.countP_append, List.countP_cons, counts, drops, before, after]
  simp
  omega

def Pass.onlyReads (pass : Pass) (r : ResourceId) : Bool := pass.readsFrom r && !pass.outputsTo r

namespace Declaration

variable {d : Declaration} {p : PassId} {pass : Pass} {r : ResourceId}

theorem nodup_entered (d : Declaration) : (d.entries.map Prod.fst).Nodup := by
  apply List.pairwise_map.mpr
  apply d.pairwise_entries.imp
  intro e f before same
  rw [same] at before
  exact Nat.lt_irrefl _ before

theorem nodup_entries (d : Declaration) : d.entries.Nodup := d.nodup_entered.of_map _

theorem nodup_writers (d : Declaration) (r : ResourceId) : (d.writers r).Nodup :=
  d.nodup_entered.sublist (List.filter_sublist.map _)

theorem nodup_resourceIds (d : Declaration) : d.resourceIds.Nodup :=
  List.nodup_range.map fun _ _ same => ResourceId.mk.inj same

theorem mem_countedReads (declared : r ∈ d.resourceIds) :
    r ∈ d.countedReads pass ↔ pass.onlyReads r = true := by
  simp [countedReads, Pass.onlyReads, declared]

theorem mem_outputsOf (declared : r ∈ d.resourceIds) :
    r ∈ d.outputsOf pass ↔ pass.outputsTo r = true := by
  simp [outputsOf, declared]

def usedBy (refs : List Nat) (e : PassId × Pass) : Bool :=
  ({ passRefs := refs } : Survival).uses e.1 e.2

theorem usedBy_iff {refs : List Nat} (held : d.pass? p = some pass) :
    usedBy refs (p, pass) = true ↔ d.Uses refs p :=
  uses_iff (s := { passRefs := refs }) held

def readersLeft (d : Declaration) (refs : List Nat) (r : ResourceId) : Nat :=
  d.entries.countP fun e => e.2.onlyReads r && usedBy refs e

/-- The one pass outputs to a resource that the other reads without outputting to it. -/
def Feeds (d : Declaration) (p q : PassId) : Prop :=
  ∃ r pass reader, d.pass? p = some pass ∧ d.pass? q = some reader ∧
    pass.outputsTo r = true ∧ reader.onlyReads r = true

/-- Each of the passes has side effects or feeds one of them. -/
def Sustains (d : Declaration) (kept : PassId → Prop) : Prop :=
  ∀ p, kept p → ∃ pass, d.pass? p = some pass ∧
    (pass.sideEffects = true ∨ ∃ q, kept q ∧ d.Feeds p q)

def Spares (d : Declaration) (gone : List ResourceId) (kept : PassId → Prop) : Prop :=
  ∀ r ∈ gone, ∀ q reader, kept q → d.pass? q = some reader → reader.onlyReads r = false

theorem declared_of_outputsTo (closed : d.Closed) (held : d.pass? p = some pass)
    (outputs : pass.outputsTo r = true) : r ∈ d.resourceIds := by
  obtain ⟨a, member, same⟩ := List.any_eq_true.mp outputs
  have access : a ∈ pass.accesses := by
    simp only [Pass.outputs, Pass.accesses, List.mem_append] at member ⊢
    tauto
  rw [mem_resourceIds, ← eq_of_beq same]
  exact closed pass (List.mem_of_getElem? held) a access

end Declaration

namespace Tally

open Declaration

variable {d : Declaration} {t : Tally} {p : PassId} {pass : Pass} {r : ResourceId}
  {count : ResourceId → Nat} {gone : List ResourceId} {due : List PassId}

/-- The references of the resources are the given counts. Those without references are the unread
ones and the ones dropped before, each of them once. -/
structure Counted (d : Declaration) (t : Tally) (count : ResourceId → Nat)
    (gone : List ResourceId) : Prop where
  refs : ∀ r ∈ d.resourceIds, t.resourceRefs.getD r.index 0 = count r
  none : ∀ r ∈ d.resourceIds, count r = 0 ↔ r ∈ t.unread ∨ r ∈ gone
  once : (t.unread ++ gone).Nodup

theorem Counted.congr (counted : Counted d t count gone) {count' : ResourceId → Nat}
    (same : ∀ r ∈ d.resourceIds, count' r = count r) : Counted d t count' gone where
  refs r declared := (counted.refs r declared).trans (same r declared).symm
  none r declared := same r declared ▸ counted.none r declared
  once := counted.once

theorem Counted.unreadOnce (counted : Counted d t count gone) (shaped : t.Shaped d)
    (declared : r ∈ d.resourceIds) (positive : 0 < count r) :
    Counted d (t.unreadOnce r) (fun x => if r = x then count x - 1 else count x) gone := by
  have inside : r.index < t.resourceRefs.length :=
    shaped.resources ▸ mem_resourceIds.mp declared
  have left : t.resourceRefs.getD r.index 0 = count r := counted.refs r declared
  have fresh : ¬ (r ∈ t.unread ∨ r ∈ gone) := by
    rw [← counted.none r declared]
    omega
  constructor
  · intro x declared'
    simp only [Tally.unreadOnce]
    rw [Revival.getD_set _ _ _ inside]
    by_cases here : r = x
    · subst here
      rw [if_pos rfl, if_pos rfl, left]
    · have apart : r.index ≠ x.index := fun same => here (congrArg ResourceId.mk same)
      rw [if_neg apart, if_neg here, counted.refs x declared']
  · intro x declared'
    have before := counted.none x declared'
    simp only [Tally.unreadOnce, left]
    by_cases here : r = x
    · subst here
      rw [if_pos rfl]
      split
      · simp_all
      · simp_all
    · rw [if_neg here, before]
      split
      · simp [Ne.symm here]
      · rfl
  · simp only [Tally.unreadOnce]
    split
    · rw [List.append_assoc]
      apply List.nodup_middle.mpr
      exact List.nodup_cons.mpr ⟨by simpa using fresh, counted.once⟩
    · exact counted.once

theorem Counted.unreadAll {rs : List ResourceId} (counted : Counted d t count gone)
    (shaped : t.Shaped d) (nodup : rs.Nodup)
    (reads : ∀ r ∈ rs, r ∈ d.resourceIds ∧ 0 < count r) :
    Counted d (rs.foldl Tally.unreadOnce t) (fun x => if x ∈ rs then count x - 1 else count x)
      gone := by
  induction rs generalizing t count with
  | nil => exact counted.congr fun _ _ => by simp
  | cons r rs ih =>
    obtain ⟨fresh, distinct⟩ := List.nodup_cons.mp nodup
    obtain ⟨declared, positive⟩ := reads r List.mem_cons_self
    have first := counted.unreadOnce shaped declared positive
    have later := ih first (shaped.unreadOnce (mem_resourceIds.mp declared)) distinct
      fun x member => by
        have apart : r ≠ x := fun same => fresh (same ▸ member)
        have read := reads x (List.mem_cons_of_mem r member)
        rwa [if_neg apart]
    refine later.congr fun x _ => ?_
    by_cases here : r = x
    · subst here
      simp [fresh]
    · simp [here, Ne.symm here]

theorem Counted.release (counted : Counted d t count gone) (shaped : t.Shaped d)
    (held : d.pass? p = some pass)
    (reads : ∀ r ∈ d.resourceIds, pass.onlyReads r = true → 0 < count r) :
    Counted d (t.release d p) (fun x => if pass.onlyReads x then count x - 1 else count x)
      gone := by
  have same : t.release d p = (d.countedReads pass).foldl Tally.unreadOnce t := by
    unfold Tally.release
    rw [held]
    rfl
  rw [same]
  refine (counted.unreadAll shaped (d.nodup_resourceIds.filter _) fun r member => ?_).congr
    fun x declared => ?_
  · have declared := (List.mem_filter.mp member).1
    exact ⟨declared, reads r declared ((mem_countedReads declared).mp member)⟩
  · exact (if_congr (mem_countedReads declared) rfl rfl).symm

theorem uses_of_succ {refs : List Nat} {left : Nat} (found : refs[p.index]? = some (left + 1)) :
    d.Uses refs p :=
  Or.inl (Nat.lt_of_lt_of_eq (Nat.succ_pos left) (getD_eq_succ_iff.mpr found).symm)

theorem uses_set_other {refs : List Nat} {q : PassId} (inside : p.index < refs.length) (n : Nat)
    (apart : q ≠ p) : d.Uses (refs.set p.index n) q ↔ d.Uses refs q := by
  have distinct : p.index ≠ q.index := fun same => apart (congrArg PassId.mk same.symm)
  rw [Declaration.Uses, Revival.getD_set _ _ _ inside, if_neg distinct, Declaration.Uses]

theorem uses_set_self {refs : List Nat} (inside : p.index < refs.length) (n : Nat)
    (idle : d.hasSideEffects p = false) : d.Uses (refs.set p.index n) p ↔ n ≠ 0 := by
  rw [Declaration.Uses, Revival.getD_set _ _ _ inside, if_pos rfl, idle]
  simp [Nat.pos_iff_ne_zero]

theorem readersLeft_set {refs : List Nat} {left n : Nat} (held : d.pass? p = some pass)
    (idle : d.hasSideEffects p = false) (found : refs[p.index]? = some (left + 1))
    (r : ResourceId) : d.readersLeft (refs.set p.index n) r =
      if n = 0 ∧ pass.onlyReads r = true then d.readersLeft refs r - 1
      else d.readersLeft refs r := by
  have inside := (List.getElem?_eq_some_iff.mp found).1
  have before : usedBy refs (p, pass) = true :=
    (usedBy_iff held).mpr (uses_of_succ found)
  have after : usedBy (refs.set p.index n) (p, pass) = true ↔ n ≠ 0 :=
    (usedBy_iff held).trans (uses_set_self inside n idle)
  have others : ∀ e ∈ d.entries, e ≠ (p, pass) →
      (e.2.onlyReads r && usedBy refs e) =
        (e.2.onlyReads r && usedBy (refs.set p.index n) e) := by
    rintro ⟨q, other⟩ member apart
    have found' := mem_entries.mp member
    have distinct : q ≠ p := by
      rintro rfl
      cases held.symm.trans found'
      exact apart rfl
    rw [Bool.eq_iff_iff, Bool.and_eq_true, Bool.and_eq_true, usedBy_iff found',
      usedBy_iff found', uses_set_other inside n distinct]
  unfold readersLeft
  by_cases drops : n = 0 ∧ pass.onlyReads r = true
  · have flip := countP_of_flip d.nodup_entries (mem_entries.mpr held)
      (by simp [drops.2, before]) (by simpa [drops.2, drops.1] using after) others
    rw [if_pos drops]
    omega
  · rw [if_neg drops]
    apply List.countP_congr
    intro e member
    by_cases here : e = (p, pass)
    · subst here
      rw [Bool.and_eq_true, Bool.and_eq_true, after, before]
      tauto
    · rw [others e member here]

theorem readersLeft_pos {refs : List Nat} (held : d.pass? p = some pass) (used : d.Uses refs p)
    (reads : pass.onlyReads r = true) : 0 < d.readersLeft refs r :=
  List.countP_pos_iff.mpr ⟨(p, pass), mem_entries.mpr held, by
    rw [Bool.and_eq_true]
    exact ⟨reads, (usedBy_iff held).mpr used⟩⟩

/-- What holds of the references while a resource is dropped, when the writers in `due` have not
given up their reference to it yet. -/
structure Balanced (d : Declaration) (t : Tally) (gone : List ResourceId) (due : List PassId) :
    Prop where
  shaped : t.Shaped d
  counted : Counted d t (d.readersLeft t.passRefs) gone
  passes : ∀ p pass, d.pass? p = some pass → pass.sideEffects = false →
    t.passRefs.getD p.index 0 =
      (d.outputsOf pass).countP (· ∉ gone) + if p ∈ due then 1 else 0

def lower (d : Declaration) (t : Tally) (p : PassId) (left : Nat) : Tally :=
  if left = 0 then
    (({ t with passRefs := t.passRefs.set p.index left } : Tally).step (.culled p)).release d p
  else { t with passRefs := t.passRefs.set p.index left }

theorem dropWriter_eq_lower {left : Nat} (idle : d.hasSideEffects p = false)
    (found : t.passRefs[p.index]? = some (left + 1)) : t.dropWriter d p = t.lower d p left := by
  simp [Tally.dropWriter, idle, found, lower]

theorem passRefs_lower (d : Declaration) (t : Tally) (p : PassId) (left : Nat) :
    (t.lower d p left).passRefs = t.passRefs.set p.index left := by
  unfold lower
  split
  · exact passRefs_release ..
  · rfl

theorem Balanced.lower {left : Nat} (balanced : Balanced d t gone due)
    (held : d.pass? p = some pass) (idle : d.hasSideEffects p = false)
    (found : t.passRefs[p.index]? = some (left + 1)) :
    Counted d (t.lower d p left) (d.readersLeft (t.lower d p left).passRefs) gone := by
  have used : d.Uses t.passRefs p := uses_of_succ found
  rw [passRefs_lower]
  unfold Tally.lower
  split
  · rename_i last
    have counted : Counted d (({ t with passRefs := t.passRefs.set p.index left } : Tally).step
        (.culled p)) (d.readersLeft t.passRefs) gone :=
      ⟨balanced.counted.refs, balanced.counted.none, balanced.counted.once⟩
    have shaped : (({ t with passRefs := t.passRefs.set p.index left } : Tally).step
        (.culled p)).Shaped d :=
      ⟨List.length_set.trans balanced.shaped.passes, balanced.shaped.resources,
        balanced.shaped.unread⟩
    refine (counted.release shaped held fun r _ reads => readersLeft_pos held used reads).congr
      fun r _ => ?_
    rw [readersLeft_set held idle found]
    simp [last]
  · rename_i more
    have counted : Counted d ({ t with passRefs := t.passRefs.set p.index left } : Tally)
        (d.readersLeft t.passRefs) gone :=
      ⟨balanced.counted.refs, balanced.counted.none, balanced.counted.once⟩
    refine counted.congr fun r _ => ?_
    rw [readersLeft_set held idle found]
    simp [more]

theorem Balanced.found (balanced : Balanced d t gone (p :: due)) (held : d.pass? p = some pass)
    (effects : d.hasSideEffects p = false) :
    t.passRefs[p.index]? = some ((d.outputsOf pass).countP (· ∉ gone) + 1) := by
  have idle : pass.sideEffects = false := by simpa [hasSideEffects, held] using effects
  have refs := balanced.passes p pass held idle
  rw [if_pos List.mem_cons_self] at refs
  exact getD_eq_succ_iff.mp refs

theorem Balanced.dropWriter (balanced : Balanced d t gone (p :: due)) (fresh : p ∉ due)
    (held : d.pass? p = some pass) (occurs : Occurs d t) :
    Balanced d (t.dropWriter d p) gone due := by
  have shaped := (occurs.dropWriter p).shaped
  have others (q : PassId) (apart : q ≠ p) : (if q ∈ p :: due then 1 else 0) =
      if q ∈ due then 1 else 0 := by simp [apart]
  cases effects : d.hasSideEffects p with
  | true =>
    have same : t.dropWriter d p = t := by simp [Tally.dropWriter, effects]
    rw [same]
    refine ⟨balanced.shaped, balanced.counted, fun q other found idle => ?_⟩
    have distinct : q ≠ p := by
      rintro rfl
      simp [hasSideEffects, found, idle] at effects
    rw [balanced.passes q other found idle, others q distinct]
  | false =>
    have found := balanced.found held effects
    have inside := (List.getElem?_eq_some_iff.mp found).1
    rw [dropWriter_eq_lower effects found] at shaped ⊢
    refine ⟨shaped, balanced.lower held effects found, fun q other found' idle' => ?_⟩
    rw [passRefs_lower, Revival.getD_set _ _ _ inside]
    by_cases here : p = q
    · subst here
      cases held.symm.trans found'
      simp [fresh]
    · have apart : p.index ≠ q.index := fun same => here (congrArg PassId.mk same)
      rw [if_neg apart, balanced.passes q other found' idle', others q (Ne.symm here)]

theorem Balanced.dropWriters (balanced : Balanced d t gone due) (occurs : Occurs d t)
    (nodup : due.Nodup) (declared : ∀ p ∈ due, ∃ pass, d.pass? p = some pass) :
    Balanced d (due.foldl (Tally.dropWriter d) t) gone [] := by
  induction due generalizing t with
  | nil => exact balanced
  | cons p due ih =>
    obtain ⟨fresh, distinct⟩ := List.nodup_cons.mp nodup
    obtain ⟨pass, held⟩ := declared p List.mem_cons_self
    exact ih (balanced.dropWriter fresh held occurs) (occurs.dropWriter p) distinct
      fun q member => declared q (List.mem_cons_of_mem p member)

theorem Balanced.take {rest : List ResourceId} (balanced : Balanced d t gone [])
    (next : t.unread = r :: rest) :
    Balanced d { t with unread := rest } (r :: gone) (d.writers r) := by
  have once := balanced.counted.once
  rw [next] at once
  obtain ⟨fresh, _⟩ := List.nodup_cons.mp once
  have new : r ∉ gone := fun old => fresh (List.mem_append_right _ old)
  have inside : r ∈ d.resourceIds :=
    mem_resourceIds.mpr (balanced.shaped.unread r (next ▸ List.mem_cons_self))
  refine ⟨⟨balanced.shaped.passes, balanced.shaped.resources, fun x member =>
    balanced.shaped.unread x (next ▸ List.mem_cons_of_mem r member)⟩, ⟨?_, ?_, ?_⟩, ?_⟩
  · exact balanced.counted.refs
  · intro x declared
    rw [balanced.counted.none x declared, next]
    simp only [List.mem_cons]
    tauto
  · exact List.nodup_middle.mpr once
  · intro p pass held idle
    have refs := balanced.passes p pass held idle
    rw [if_neg List.not_mem_nil, Nat.add_zero] at refs
    rw [show ({ t with unread := rest } : Tally).passRefs = t.passRefs from rfl, refs]
    have writes : p ∈ d.writers r ↔ pass.outputsTo r = true := by
      rw [mem_writers]
      constructor
      · rintro ⟨other, found, outputs⟩
        cases held.symm.trans found
        exact outputs
      · exact fun outputs => ⟨pass, held, outputs⟩
    -- A writer of the resource has one needed output less, which is now due instead.
    by_cases outputs : pass.outputsTo r = true
    · rw [if_pos (writes.mpr outputs)]
      refine countP_of_flip (d.nodup_resourceIds.filter _) ((mem_outputsOf inside).mpr outputs)
        (by simpa using new) (by simp) fun x _ apart => by simp [apart]
    · rw [if_neg fun writer => outputs (writes.mp writer), Nat.add_zero]
      apply List.countP_congr
      intro x member
      have apart : x ≠ r := by
        rintro rfl
        exact outputs ((mem_outputsOf inside).mp member)
      simp [apart]

theorem Balanced.dropNext {rest : List ResourceId} (balanced : Balanced d t gone [])
    (occurs : Occurs d t) (next : t.unread = r :: rest) :
    Balanced d (({ t with unread := rest } : Tally).dropResource d r) (r :: gone) [] := by
  refine (balanced.take next).dropWriters (occurs.take next) (d.nodup_writers r) fun p writer => ?_
  obtain ⟨pass, held, _⟩ := mem_writers.mp writer
  exact ⟨pass, held⟩

theorem Balanced.uses {kept : PassId → Prop} (balanced : Balanced d t gone due)
    (closed : d.Closed) (sustains : d.Sustains kept) (spared : d.Spares gone kept)
    (member : kept p) : d.Uses t.passRefs p := by
  obtain ⟨pass, held, effects | ⟨q, other, r, feeder, reader, held', found, outputs, reads⟩⟩ :=
    sustains p member
  · exact Or.inr (by simp [hasSideEffects, held, effects])
  · cases held.symm.trans held'
    cases idle : pass.sideEffects with
    | true => exact Or.inr (by simp [hasSideEffects, held, idle])
    | false =>
      have stays : r ∉ gone := by
        intro dropped
        rw [spared r dropped q reader other found] at reads
        cases reads
      have output := (mem_outputsOf (declared_of_outputsTo closed held outputs)).mpr outputs
      have positive : 0 < (d.outputsOf pass).countP (· ∉ gone) :=
        List.countP_pos_iff.mpr ⟨r, output, by simpa using stays⟩
      left
      rw [balanced.passes p pass held idle]
      omega

theorem Balanced.spares_next {kept : PassId → Prop} {rest : List ResourceId}
    (balanced : Balanced d t gone due) (closed : d.Closed) (sustains : d.Sustains kept)
    (spared : d.Spares gone kept) (next : t.unread = r :: rest) :
    d.Spares (r :: gone) kept := by
  intro x member q reader other found
  rcases List.mem_cons.mp member with rfl | old
  · have inside := mem_resourceIds.mpr (balanced.shaped.unread x (next ▸ List.mem_cons_self))
    have none := (balanced.counted.none x inside).mpr (Or.inl (next ▸ List.mem_cons_self))
    apply Bool.eq_false_iff.mpr
    intro reads
    have some := readersLeft_pos found (balanced.uses closed sustains spared other) reads
    omega
  · exact spared x old q reader other found

/-- Dropping ends in balance with nothing unread. Nothing is dropped that passes read which sustain
each other. -/
theorem Balanced.settle (balanced : Balanced d t gone []) (occurs : Occurs d t)
    (closed : d.Closed) : ∃ gone', Balanced d (t.settle d) gone' [] ∧ (t.settle d).unread = [] ∧
      ∀ kept, d.Sustains kept → d.Spares gone kept → d.Spares gone' kept := by
  fun_induction Tally.settle d t generalizing gone with
  | case1 t done => exact ⟨gone, balanced, done, fun _ _ => id⟩
  | case2 t r rest next ih =>
    obtain ⟨gone', settled, done, spares⟩ :=
      ih (balanced.dropNext occurs next) ((occurs.take next).dropResource r)
    exact ⟨gone', settled, done, fun kept sustains spared =>
      spares kept sustains (balanced.spares_next closed sustains spared next)⟩

theorem readerCount_eq (d : Declaration) (r : ResourceId) :
    d.readerCount r = d.entries.countP fun e => e.2.onlyReads r := by
  have passes : d.passes = d.entries.map Prod.snd := by
    simp [entries, Function.comp_def]
  unfold readerCount
  rw [passes, List.countP_map]
  rfl

theorem passRefs_start (held : d.pass? p = some pass) :
    (start d).passRefs.getD p.index 0 = (d.outputsOf pass).length := by
  have found : d.passes[p.index]? = some pass := held
  simp [start, List.getD_eq_getElem?_getD, List.getElem?_map, found]

theorem resourceRefs_start (declared : r ∈ d.resourceIds) :
    (start d).resourceRefs.getD r.index 0 = d.readerCount r := by
  have inside := mem_resourceIds.mp declared
  simp [start, resourceIds, List.getD_eq_getElem?_getD, inside]

theorem usedBy_start (held : d.pass? p = some pass) :
    usedBy (start d).passRefs (p, pass) = false ↔
      ((d.outputsOf pass).isEmpty && !pass.sideEffects) = true := by
  rw [Bool.eq_false_iff, ne_eq, usedBy_iff held, Declaration.Uses, passRefs_start held,
    hasSideEffects, held]
  simp [List.isEmpty_iff]

/-- How many readers of a resource count while the passes that output to nothing are released and
those in `later` are still to come. -/
def readersBefore (d : Declaration) (later : List (PassId × Pass)) (r : ResourceId) : Nat :=
  d.entries.countP fun e => e.2.onlyReads r && (usedBy (start d).passRefs e || decide (e ∈ later))

theorem readersBefore_cons {later : List (PassId × Pass)} (held : d.pass? p = some pass)
    (fresh : (p, pass) ∉ later) (r : ResourceId) : readersBefore d later r =
      if usedBy (start d).passRefs (p, pass) = false ∧ pass.onlyReads r = true then
        readersBefore d ((p, pass) :: later) r - 1
      else readersBefore d ((p, pass) :: later) r := by
  unfold readersBefore
  by_cases drops : usedBy (start d).passRefs (p, pass) = false ∧ pass.onlyReads r = true
  · have flip := countP_of_flip (f := fun e => e.2.onlyReads r &&
        (usedBy (start d).passRefs e || decide (e ∈ (p, pass) :: later)))
      (g := fun e => e.2.onlyReads r && (usedBy (start d).passRefs e || decide (e ∈ later)))
      d.nodup_entries (mem_entries.mpr held) (by simp [drops.2]) (by simp [drops.1, fresh])
      fun e _ apart => by simp [apart]
    rw [if_pos drops]
    omega
  · rw [if_neg drops]
    apply List.countP_congr
    intro e member
    by_cases here : e = (p, pass)
    · subst here
      simp only [Bool.and_eq_true, Bool.or_eq_true, List.mem_cons, true_or, decide_true, or_true,
        and_true]
      have stays := not_and'.mp drops
      simp only [Bool.not_eq_false] at stays
      tauto
    · simp [here]

theorem counted_start (d : Declaration) :
    Counted d (start d) (readersBefore d d.entries) [] := by
  have counts (r : ResourceId) : readersBefore d d.entries r = d.readerCount r := by
    rw [readerCount_eq]
    apply List.countP_congr
    intro e member
    simp [member]
  constructor
  · intro r declared
    rw [counts, resourceRefs_start declared]
  · intro r declared
    rw [counts]
    simp [start, declared]
  · simpa [start] using d.nodup_resourceIds.filter _

def releaseIfEmpty (d : Declaration) (t : Tally) (e : PassId × Pass) : Tally :=
  if (d.outputsOf e.2).isEmpty && !e.2.sideEffects then (t.step (.empty e.1)).release d e.1 else t

theorem readersBefore_pos {later : List (PassId × Pass)} (held : d.pass? p = some pass)
    (reads : pass.onlyReads r = true) : 0 < readersBefore d ((p, pass) :: later) r :=
  List.countP_pos_iff.mpr ⟨(p, pass), mem_entries.mpr held, by simp [reads]⟩

theorem Occurs.releaseIfEmpty (occurs : Occurs d t) (e : PassId × Pass) :
    Occurs d (t.releaseIfEmpty d e) := by
  unfold Tally.releaseIfEmpty
  split
  · exact (occurs.step _).release e.1
  · exact occurs

theorem Counted.releaseIfEmpty {later : List (PassId × Pass)}
    (counted : Counted d t (readersBefore d ((p, pass) :: later)) []) (occurs : Occurs d t)
    (held : d.pass? p = some pass) (fresh : (p, pass) ∉ later) :
    Counted d (t.releaseIfEmpty d (p, pass)) (readersBefore d later) [] := by
  unfold Tally.releaseIfEmpty
  split
  · rename_i empty
    have unused := (usedBy_start held).mpr empty
    have stepped : Counted d (t.step (.empty p)) (readersBefore d ((p, pass) :: later)) [] :=
      ⟨counted.refs, counted.none, counted.once⟩
    refine (stepped.release (occurs.step _).shaped held fun r _ reads =>
      readersBefore_pos held reads).congr fun r _ => ?_
    rw [readersBefore_cons held fresh]
    simp [unused]
  · rename_i filled
    have used : usedBy (start d).passRefs (p, pass) = true :=
      Bool.not_eq_false _ ▸ (usedBy_start held).not.mpr filled
    refine counted.congr fun r _ => ?_
    rw [readersBefore_cons held fresh]
    simp [used]

theorem Counted.releaseEmpty {later : List (PassId × Pass)}
    (counted : Counted d t (readersBefore d later) []) (occurs : Occurs d t)
    (declared : ∀ e ∈ later, d.pass? e.1 = some e.2) (nodup : later.Nodup) :
    Counted d (later.foldl (Tally.releaseIfEmpty d) t) (readersBefore d []) [] := by
  induction later generalizing t with
  | nil => exact counted
  | cons e later ih =>
    obtain ⟨fresh, distinct⟩ := List.nodup_cons.mp nodup
    have next := counted.releaseIfEmpty occurs (declared e List.mem_cons_self) fresh
    exact ih next (occurs.releaseIfEmpty e)
      (fun e member => declared e (List.mem_cons_of_mem _ member)) distinct

theorem passRefs_releaseEmpty (d : Declaration) (t : Tally) :
    (t.releaseEmpty d).passRefs = t.passRefs := by
  unfold releaseEmpty
  refine List.foldlRecOn (motive := fun u : Tally => u.passRefs = t.passRefs) _ _ rfl ?_
  rintro u same ⟨p, pass⟩ _
  dsimp only
  split
  · exact (passRefs_release ..).trans same
  · exact same

theorem balanced_releaseEmpty (d : Declaration) :
    Balanced d ((start d).releaseEmpty d) [] [] where
  shaped := (Occurs.start (d := d)).releaseEmpty.shaped
  counted := by
    have counted := (counted_start d).releaseEmpty Occurs.start
      (fun _ member => mem_entries.mp member) d.nodup_entries
    refine counted.congr fun r _ => ?_
    rw [passRefs_releaseEmpty]
    simp [readersLeft, readersBefore]
  passes p pass held idle := by
    rw [passRefs_releaseEmpty, passRefs_start held]
    simp [List.countP_true]

theorem Balanced.feeds (balanced : Balanced d t gone []) (settled : t.unread = [])
    (held : d.pass? p = some pass) (idle : pass.sideEffects = false)
    (used : d.Uses t.passRefs p) : ∃ q, d.Uses t.passRefs q ∧ d.Feeds p q := by
  have refs := balanced.passes p pass held idle
  rw [if_neg List.not_mem_nil, Nat.add_zero] at refs
  have positive : 0 < t.passRefs.getD p.index 0 := by
    simpa [Declaration.Uses, hasSideEffects, held, idle] using used
  rw [refs] at positive
  obtain ⟨r, output, stays⟩ := List.countP_pos_iff.mp positive
  have declared := (List.mem_filter.mp output).1
  have read : 0 < d.readersLeft t.passRefs r := by
    apply Nat.pos_of_ne_zero
    intro none
    have dropped := (balanced.counted.none r declared).mp none
    simp_all
  obtain ⟨⟨q, reader⟩, member, reads⟩ := List.countP_pos_iff.mp read
  rw [Bool.and_eq_true] at reads
  have found := mem_entries.mp member
  exact ⟨q, (usedBy_iff found).mp reads.2, r, pass, reader, held, found,
    (mem_outputsOf declared).mp output, reads.1⟩

end Tally

namespace Declaration

variable {d : Declaration} {p : PassId} {pass : Pass}

/-- Counting references down leaves exactly the passes that sustain each other. -/
theorem uses_tally_iff (closed : d.Closed) (held : d.pass? p = some pass) :
    d.Uses d.tally.passRefs p ↔ ∃ kept, d.Sustains kept ∧ kept p := by
  obtain ⟨gone, balanced, settled, spares⟩ :=
    (Tally.balanced_releaseEmpty d).settle Tally.Occurs.start.releaseEmpty closed
  constructor
  · intro used
    refine ⟨fun q => q.index < d.passes.length ∧ d.Uses d.tally.passRefs q, ?_,
      index_lt_of_pass? held, used⟩
    rintro q ⟨inside, used'⟩
    refine ⟨_, List.getElem?_eq_getElem inside, ?_⟩
    cases idle : d.passes[q.index].sideEffects with
    | true => exact Or.inl rfl
    | false =>
      obtain ⟨next, used'', feeds⟩ :=
        balanced.feeds settled (List.getElem?_eq_getElem inside) idle used'
      obtain ⟨_, _, reader, _, found, _⟩ := id feeds
      exact Or.inr ⟨next, ⟨index_lt_of_pass? found, used''⟩, feeds⟩
  · rintro ⟨kept, sustains, member⟩
    refine balanced.uses closed sustains (spares kept sustains ?_) member
    intro r none
    cases none

end Declaration

end RenderGraph
