import RenderGraph.Proofs.RevivalClosure
import RenderGraph.Proofs.ScheduleOrder

/-! Nothing is looked up outside the tables of culling, of the wanted views and of scheduling: they
have an entry for every pass or resource from start to end, and accesses name declared resources
only. -/

namespace RenderGraph

/-- An unread resource has its writers in the table by resource, a writer its references, and so
does what a pass reads. -/
structure Tally.InRange (d : Declaration) (t : Tally) : Prop where
  unread : ∀ r ∈ t.unread, r.index < d.resources.length
  writers : ∀ r, ∀ p ∈ d.writers r, p.index < t.passRefs.length
  reads : ∀ pass, ∀ r ∈ d.countedReads pass, r.index < t.resourceRefs.length

/-- A waiting pass is declared, and each pass that one depends on has its references when it is its
turn to be revived. -/
structure Revival.InRange (d : Declaration) (v : Revival) : Prop where
  waiting : ∀ p ∈ v.waiting, p.index < d.passes.length
  needs : ∀ p pass rest done q later, v.waiting = p :: rest → d.pass? p = some pass →
    d.needs pass = done ++ q :: later →
    q.index < (done.foldl (revive d p) { v with waiting := rest }).passRefs.length

/-- The survival of culling has an entry for every pass and every resource. -/
structure Survival.Covers (s : Survival) (d : Declaration) : Prop where
  passRefs : s.passRefs.length = d.passes.length
  resourceRefs : s.resourceRefs.length = d.resources.length
  live : s.live.length = d.resources.length

/-- Whatever culling, noting the wanted views and scheduling look up is in its table. -/
structure Brief.InRange (b : Brief) : Prop where
  accesses : b.declaration.Closed
  tallies : ∀ t, Tally.Occurs b.declaration t → t.InRange b.declaration
  revivals : ∀ v, Revival.Occurs b.declaration b.declaration.firstRevival v →
    v.InRange b.declaration
  survival : b.survival.Covers b.declaration
  wanted : (b.declaration.resourceIds.map (b.declaration.wantedViews b.survival)).length =
    b.declaration.resources.length
  recorded : ∀ done p pass later d, b.live = done ++ (p, pass) :: later →
    Draft.recordAll b 0 done { tracks := b.startTracks } = .ok d → pass.Within d.tracks.length
  restored : ∀ d, b.draft = .ok d → d.tracks.length = b.declaration.resources.length

theorem Tally.Shaped.inRange {d : Declaration} {t : Tally} (shaped : t.Shaped d) :
    t.InRange d where
  unread := shaped.unread
  writers _ p writer := by
    rw [shaped.passes]
    exact Declaration.index_lt_of_mem_writers writer
  reads _ r counted := by
    rw [shaped.resources]
    exact Declaration.mem_resourceIds.mp (List.mem_filter.mp counted).1

theorem Revival.Sound.inRange {d : Declaration} {v : Revival} (sound : v.Sound d) :
    v.InRange d where
  waiting := sound.within
  needs p pass rest done q later _ held split := by
    rw [(advances_foldl d { v with waiting := rest } p done).length, sound.length]
    apply Declaration.index_lt_of_mem_needs
    rw [split]
    exact List.mem_append_right _ List.mem_cons_self

theorem Declaration.covers_cull (d : Declaration) : d.cull.survival.Covers d where
  passRefs := d.sound_revival.1.length
  resourceRefs := d.occurs_tally.shaped.resources
  live := (List.length_map _).trans d.length_resourceIds

namespace Draft

variable {b : Brief} {d d' : Draft} {ordinal : Nat} {entries : List (PassId × Pass)}

theorem length_tracks_recordAll (recorded : recordAll b ordinal entries d = .ok d') :
    d'.tracks.length = d.tracks.length := by
  induction entries generalizing d ordinal with
  | nil =>
    cases recorded
    rfl
  | cons e rest ih =>
    rw [recordAll] at recorded
    split at recorded
    · cases recorded
    · rename_i next one
      exact (ih recorded).trans (length_tracks_recordPass one)

theorem length_tracks_of_start (recorded :
    recordAll b ordinal entries { tracks := b.startTracks } = .ok d) :
    d.tracks.length = b.declaration.resources.length :=
  (length_tracks_recordAll recorded).trans (length_startTracks b)

end Draft

namespace Brief

variable {b : Brief}

theorem inRange (closed : b.declaration.Closed)
    (culled : b.survival = b.declaration.cull.survival) : b.InRange where
  accesses := closed
  tallies _ occurs := occurs.shaped.inRange
  revivals _ occurs := (occurs.sound b.declaration.sound_firstRevival).inRange
  survival := culled ▸ b.declaration.covers_cull
  wanted := (List.length_map _).trans b.declaration.length_resourceIds
  recorded done p pass later d split recorded := by
    have survives : (p, pass) ∈ b.live := split ▸ List.mem_append_right _ List.mem_cons_self
    rw [Draft.length_tracks_of_start recorded]
    exact closed pass (Declaration.mem_passes_of_mem_survivors survives)
  restored _ made := Draft.length_tracks_of_start (recordAll_of_draft made)

end Brief

end RenderGraph
