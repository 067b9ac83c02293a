import RenderGraph.Proofs.ScheduleGrammar

/-! Windows of lists. Whatever a schedule does with a list it does between opening the list and
submitting it, and lists are opened and submitted in the order of their numbers. -/

namespace RenderGraph

def Event.uses? : Event → Option ListId
  | barriers list _ | record list _ | submit list => some list
  | openList .. | sync .. => none

namespace Block

variable {blocks : List Block} {block : Block} {done early late rest : List Event} {e : Event}
  {i : Nat} {list : ListId}

/-- An event that neither opens nor submits a list and uses none but the given one. -/
structure Stays (i : Nat) (e : Event) : Prop where
  opened : e.opened? = none
  submitted : e.submitted? = none
  uses : ∀ list, e.uses? = some list → list = ⟨i⟩

def Tidy (blocks : List Block) : Prop :=
  ∀ (i : Nat) block, blocks[i]? = some block → ∀ e ∈ block.body, Stays i e

theorem Admits.stays {lists fences : List Queue} {live : List (PassId × Pass)} {queue : Queue}
    (admits : Admits lists fences live i queue e) : Stays i e := by
  cases e with
  | openList | submit => exact admits.elim
  | barriers list batch => exact ⟨rfl, rfl, by rintro _ ⟨⟩; exact admits.1⟩
  | record list p => exact ⟨rfl, rfl, by rintro _ ⟨⟩; exact admits.1⟩
  | sync => exact ⟨rfl, rfl, by rintro _ ⟨⟩⟩

theorem mem_layout_iff : e ∈ layout blocks ↔ ∃ (i : Nat) (block : Block),
    blocks[i]? = some block ∧ e ∈ block.events i := by
  unfold layout
  rw [List.mem_flatten]
  constructor
  · rintro ⟨events, member, inside⟩
    obtain ⟨i, bound, rfl⟩ := List.mem_mapIdx.mp member
    exact ⟨i, _, List.getElem?_eq_getElem bound, inside⟩
  · rintro ⟨i, block, held, inside⟩
    obtain ⟨bound, rfl⟩ := List.getElem?_eq_some_iff.mp held
    exact ⟨_, List.mem_mapIdx.mpr ⟨i, bound, rfl⟩, inside⟩

theorem cut_layout (cut : layout blocks = done ++ e :: rest) :
    ∃ (i : Nat) (block : Block) (early late : List Event), blocks[i]? = some block ∧
      done = layout (blocks.take i) ++ early ∧ block.events i = early ++ e :: late := by
  induction blocks using List.reverseRecOn generalizing rest with
  | nil => simp [layout] at cut
  | append_singleton init last ih =>
    rw [layout_concat] at cut
    rcases List.append_eq_append_iff.mp cut with ⟨early, split, inside⟩ | ⟨more, split, inside⟩
    · exact ⟨init.length, last, early, rest, List.getElem?_concat_length .., by simpa using split,
        inside⟩
    · cases more with
      | nil =>
        refine ⟨init.length, last, [], rest, List.getElem?_concat_length .., ?_, inside.symm⟩
        simpa using split.symm
      | cons f more =>
        obtain ⟨rfl, _⟩ := List.cons.inj inside
        obtain ⟨i, block, early, late, held, before, after⟩ := ih split
        have bound := (List.getElem?_eq_some_iff.mp held).1
        refine ⟨i, block, early, late, getElem?_concat_eq_some.mpr (Or.inl held), ?_, after⟩
        rwa [List.take_append_of_le_length (Nat.le_of_lt bound)]

theorem Tidy.lt_of_submit (tidy : Tidy blocks) (member : .submit list ∈ layout (blocks.take i)) :
    list.index < i := by
  obtain ⟨k, earlier, held, present⟩ := mem_layout_iff.mp member
  rw [List.getElem?_take] at held
  split at held
  · rename_i before
    rcases List.mem_append.mp present with opened | submitted
    · rcases List.mem_cons.mp opened with clash | body
      · cases clash
      · cases (tidy k earlier held _ body).submitted
    · cases List.mem_singleton.mp submitted
      exact before
  · cases held

theorem window_of_events (stays : ∀ e ∈ block.body, Stays i e)
    (cut : block.events i = early ++ e :: late) (uses : e.uses? = some list) :
    list = ⟨i⟩ ∧ .openList block.queue ⟨i⟩ ∈ early ∧ .submit ⟨i⟩ ∉ early := by
  rw [Block.events, Block.opened, List.cons_append] at cut
  cases early with
  | nil =>
    cases (List.cons.inj cut).1
    cases uses
  | cons first early =>
    rw [List.cons_append, List.cons.injEq] at cut
    obtain ⟨rfl, cut⟩ := cut
    have body : block.body = early ++ (e :: late).dropLast := by
      have init := congrArg List.dropLast cut
      rw [List.dropLast_concat] at init
      exact init.trans (List.dropLast_append_of_ne_nil (List.cons_ne_nil e late))
    have member : e ∈ block.body ++ [.submit ⟨i⟩] :=
      cut ▸ List.mem_append_right _ List.mem_cons_self
    refine ⟨?_, List.mem_cons_self, fun submitted => ?_⟩
    · rcases List.mem_append.mp member with own | last
      · exact (stays e own).uses list uses
      · rw [List.mem_singleton.mp last] at uses
        exact (Option.some.inj uses).symm
    · rcases List.mem_cons.mp submitted with clash | within
      · cases clash
      · cases (stays _ (body ▸ List.mem_append_left _ within)).submitted

theorem Tidy.window (tidy : Tidy blocks) (cut : layout blocks = done ++ e :: rest)
    (uses : e.uses? = some list) :
    (∃ queue, .openList queue list ∈ done) ∧ .submit list ∉ done := by
  obtain ⟨i, block, early, late, held, rfl, inside⟩ := cut_layout cut
  obtain ⟨rfl, opened, unsubmitted⟩ := window_of_events (tidy i block held) inside uses
  refine ⟨⟨block.queue, List.mem_append_right _ opened⟩, fun member => ?_⟩
  rcases List.mem_append.mp member with before | within
  · exact Nat.lt_irrefl i (tidy.lt_of_submit before)
  · exact unsubmitted within

theorem filterMap_layout {view : Event → Option ListId} (blocks : List Block)
    (inside : ∀ (i : Nat) block, blocks[i]? = some block → ∀ e ∈ block.body, view e = none)
    (own : ∀ queue i, (view (.openList queue ⟨i⟩)).toList ++ (view (.submit ⟨i⟩)).toList = [⟨i⟩]) :
    (layout blocks).filterMap view = (List.range blocks.length).map ListId.mk := by
  induction blocks using List.reverseRecOn with
  | nil => rfl
  | append_singleton init last ih =>
    have body : last.body.filterMap view = [] :=
      List.filterMap_eq_nil_iff.mpr (inside init.length last (List.getElem?_concat_length ..))
    have here : (last.events init.length).filterMap view = [⟨init.length⟩] := by
      rw [Block.events, Block.opened, List.filterMap_append, ← List.singleton_append,
        List.filterMap_append, body, List.append_nil, List.filterMap_eq_flatMap_toList,
        List.filterMap_eq_flatMap_toList, List.flatMap_singleton, List.flatMap_singleton]
      exact own last.queue init.length
    have before := ih fun i block held => inside i block (getElem?_concat_eq_some.mpr (Or.inl held))
    rw [layout_concat, List.filterMap_append, here, before, List.length_append,
      List.length_singleton, List.range_succ, List.map_append, List.map_singleton]

theorem Tidy.opened (tidy : Tidy blocks) :
    (layout blocks).filterMap Event.opened? = (List.range blocks.length).map ListId.mk :=
  filterMap_layout blocks (fun i block held e member => (tidy i block held e member).opened)
    fun _ _ => rfl

theorem Tidy.submitted (tidy : Tidy blocks) :
    (layout blocks).filterMap Event.submitted? = (List.range blocks.length).map ListId.mk :=
  filterMap_layout blocks (fun i block held e member => (tidy i block held e member).submitted)
    fun _ _ => rfl

end Block

namespace Schedule.ConsistsOf

variable {s : Schedule} {live : List (PassId × Pass)} {blocks : List Block}

theorem tidy (consists : s.ConsistsOf live blocks) : Block.Tidy blocks :=
  fun i block held e member => (consists.admits i block held e member).stays

theorem length_lists (consists : s.ConsistsOf live blocks) : s.lists.length = blocks.length := by
  rw [consists.lists, List.length_map]

theorem queue_of_record (consists : s.ConsistsOf live blocks) {list : ListId} {p : PassId}
    (member : .record list p ∈ s.events) :
    ∃ pass, (p, pass) ∈ live ∧ s.listQueue? list = some pass.queue := by
  rw [consists.events] at member
  obtain ⟨i, block, held, inside⟩ := Block.mem_layout_iff.mp member
  have body : .record list p ∈ block.body := by
    rcases List.mem_append.mp inside with opened | submitted
    · exact (List.mem_cons.mp opened).resolve_left (by simp)
    · cases List.mem_singleton.mp submitted
  obtain ⟨rfl, pass, survives, own⟩ := consists.admits i block held _ body
  refine ⟨pass, survives, ?_⟩
  rw [Schedule.listQueue?, consists.lists, List.getElem?_map, held, own]
  rfl

end Schedule.ConsistsOf

end RenderGraph
