import RenderGraph.Proofs.DraftLayout

/-! Replaying a schedule for the states of the resources alone. A pass begins with its barriers, if
it has any: what it creates is then in the state of the creating access. Barriers make their
transitions, and the copy queue, which records none, leaves a resource in the state of its last
access. -/

namespace RenderGraph

abbrev States := ResourceId → Option ResourceState

namespace States

def set (s : States) (r : ResourceId) (state : ResourceState) : States :=
  fun q => if q = r then some state else s q

/-- Every access in turn brings its resource into the state it requires. -/
def enter (s : States) (accesses : List Access) : States :=
  accesses.foldl (fun s a => s.set a.resource a.state) s

def cross (s : States) : Barrier → States
  | .transition t => s.set t.resource t.after
  | .unordered _ => s

def crossAll (s : States) (batch : List Barrier) : States := batch.foldl cross s

def begin (s : States) (d : Declaration) (p : PassId) : States :=
  s.enter ((d.pass? p).elim [] (·.creates))

/-- A recorded pass leaves the states as they are, except on the copy queue. -/
def finish (s : States) (d : Declaration) (p : PassId) : States :=
  match d.pass? p with
  | some pass => if pass.queue = .copy then s.enter (pass.reads ++ pass.writes) else s
  | none => s

/-- Every transition of the batch starts from the state that its resource is in and changes it. -/
def Chains (s : States) (batch : List Barrier) : Prop :=
  ∀ done t rest, batch = done ++ .transition t :: rest →
    s.crossAll done t.resource = some t.before ∧ t.before ≠ t.after

end States

/-- A held state covers a required one if the two are equal, or if both are read-only and the held
one contains the other. -/
def ResourceState.Covers (held required : ResourceState) : Prop :=
  held = required ∨
    held.isReadOnly = true ∧ required.isReadOnly = true ∧ held.contains required = true

/-- The last access of the pass to the resource: creates come before reads, reads before writes. -/
def Pass.lastAccess (pass : Pass) (r : ResourceId) : Option Access :=
  (pass.accesses.filter (·.resource == r)).getLast?

/-- Every resource that the pass accesses is in a state that covers its last access. -/
def States.Serves (s : States) (pass : Pass) : Prop :=
  ∀ r a, pass.lastAccess r = some a → ∃ held, s r = some held ∧ held.Covers a.state

/-- Imported and live managed resources start in their initial states. -/
def Declaration.startStates (d : Declaration) (survival : Survival) : States := fun r =>
  (d.resource? r).bind fun resource =>
    match resource.origin with
    | .imported _ => some resource.initialState
    | .managed => if survival.isLive r then some resource.initialState else none
    | .transient _ => none

/-- Every event of a replay with the states right before it, and the states at the end. -/
structure Replay where
  moments : List (Event × States)
  last : States

def Replay.after (moment : Event × States) (replay : Replay) : Replay :=
  { replay with moments := moment :: replay.moments }

def Declaration.replay (d : Declaration) : States → List Event → Replay
  | s, [] => ⟨[], s⟩
  | s, .barriers list batch :: .record into p :: rest =>
    let begun := s.begin d p
    let ready := begun.crossAll batch
    ((d.replay (ready.finish d p) rest).after (.record into p, ready)).after
      (.barriers list batch, begun)
  | s, .barriers list batch :: rest =>
    (d.replay (s.crossAll batch) rest).after (.barriers list batch, s)
  | s, .record into p :: rest =>
    let begun := s.begin d p
    (d.replay (begun.finish d p) rest).after (.record into p, begun)
  | s, e :: rest => (d.replay s rest).after (e, s)

theorem Declaration.map_fst_replay (d : Declaration) (s : States) (events : List Event) :
    (d.replay s events).moments.map Prod.fst = events := by
  fun_induction Declaration.replay d s events with
  | case1 => rfl
  | case2 _ _ _ _ _ _ _ _ ih | case3 _ _ _ _ _ ih | case4 _ _ _ _ _ ih | case5 _ _ _ _ _ _ ih =>
    simp only [Replay.after, List.map_cons, ih]

/-- A replay in which every transition fits, every pass off the copy queue finds its resources in
the states it requires, and the states at the end are the given ones. -/
structure Declaration.Replays (d : Declaration) (s : States) (events : List Event)
    (last : States) : Prop where
  chains : ∀ list batch states, (.barriers list batch, states) ∈ (d.replay s events).moments →
    states.Chains batch
  serves : ∀ list p states pass, (.record list p, states) ∈ (d.replay s events).moments →
    d.pass? p = some pass → pass.queue ≠ .copy → states.Serves pass
  ends : (d.replay s events).last = last

namespace Declaration.Replays

variable {d : Declaration} {s last : States} {rest : List Event} {list into : ListId}
  {batch : List Barrier} {p : PassId}

theorem nil (d : Declaration) (s : States) : d.Replays s [] s where
  chains _ _ _ member := by cases member
  serves _ _ _ _ member := by cases member
  ends := rfl

theorem plain {e : Event} (isPlain : e.isPlain = true) (replays : d.Replays s rest last) :
    d.Replays s (e :: rest) last := by
  have unfolded : d.replay s (e :: rest) = (d.replay s rest).after (e, s) := by
    cases e with
    | barriers list batch => cases isPlain
    | record into p => cases isPlain
    | openList | submit | sync => rw [Declaration.replay] <;> simp
  constructor
  · intro list batch states member
    rw [unfolded] at member
    rcases List.mem_cons.mp member with here | later
    · cases here
      cases isPlain
    · exact replays.chains list batch states later
  · intro list p states pass member
    rw [unfolded] at member
    rcases List.mem_cons.mp member with here | later
    · cases here
      cases isPlain
    · exact replays.serves list p states pass later
  · rw [unfolded]
    exact replays.ends

theorem plains {events : List Event} (plain : ∀ e ∈ events, e.isPlain = true)
    (replays : d.Replays s rest last) : d.Replays s (events ++ rest) last := by
  induction events with
  | nil => exact replays
  | cons e events ih =>
    have tail := ih fun e member => plain e (List.mem_cons_of_mem _ member)
    exact tail.plain (plain e List.mem_cons_self)

theorem record (serves : ∀ pass, d.pass? p = some pass → pass.queue ≠ .copy →
      (s.begin d p).Serves pass)
    (replays : d.Replays ((s.begin d p).finish d p) rest last) :
    d.Replays s (.record into p :: rest) last := by
  have unfolded : d.replay s (.record into p :: rest) =
      (d.replay ((s.begin d p).finish d p) rest).after (.record into p, s.begin d p) := by
    rw [Declaration.replay]
  constructor
  · intro list batch states member
    rw [unfolded] at member
    rcases List.mem_cons.mp member with here | later
    · cases here
    · exact replays.chains list batch states later
  · intro list q states pass member found
    rw [unfolded] at member
    rcases List.mem_cons.mp member with here | later
    · cases here
      exact serves pass found
    · exact replays.serves list q states pass later found
  · rw [unfolded]
    exact replays.ends

theorem barriers (chains : (s.begin d p).Chains batch)
    (serves : ∀ pass, d.pass? p = some pass → pass.queue ≠ .copy →
      ((s.begin d p).crossAll batch).Serves pass)
    (replays : d.Replays (((s.begin d p).crossAll batch).finish d p) rest last) :
    d.Replays s (.barriers list batch :: .record into p :: rest) last := by
  have unfolded : d.replay s (.barriers list batch :: .record into p :: rest) =
      ((d.replay (((s.begin d p).crossAll batch).finish d p) rest).after
        (.record into p, (s.begin d p).crossAll batch)).after
        (.barriers list batch, s.begin d p) := by
    rw [Declaration.replay]
  constructor
  · intro list batch states member
    rw [unfolded] at member
    rcases List.mem_cons.mp member with here | next
    · cases here
      exact chains
    rcases List.mem_cons.mp next with here | later
    · cases here
    · exact replays.chains list batch states later
  · intro list q states pass member found
    rw [unfolded] at member
    rcases List.mem_cons.mp member with here | next
    · cases here
    rcases List.mem_cons.mp next with here | later
    · cases here
      exact serves pass found
    · exact replays.serves list q states pass later found
  · rw [unfolded]
    exact replays.ends

theorem restore (chains : s.Chains batch) :
    d.Replays s [.barriers list batch, .submit into] (s.crossAll batch) where
  chains := by
    intro list batch states member
    simp only [Declaration.replay, Replay.after, List.mem_cons, List.not_mem_nil,
      or_false] at member
    rcases member with here | next
    · cases here
      exact chains
    · cases next
  serves := by
    intro list p states pass member
    simp [Declaration.replay, Replay.after] at member
  ends := by simp [Declaration.replay, Replay.after]

end Declaration.Replays

end RenderGraph
