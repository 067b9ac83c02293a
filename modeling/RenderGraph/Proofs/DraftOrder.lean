import RenderGraph.Proofs.DraftClock
import RenderGraph.Proofs.DraftTrack

/-! Why syncing with the last writer and the readers since is enough. Whatever else touched a
resource is before its last writer, by the order that earlier syncs established. -/

namespace RenderGraph

def OutputBetween (log : List Entry) (r : ResourceId) (j k : Nat) : Prop :=
  ∃ w g, j ≤ w ∧ w ≤ k ∧ log[w]? = some g ∧ g.pass.outputsTo r = true

/-- Of two passes on different queues that touch a resource, the first reaches the second if the
resource is output to in between. -/
def Sequenced (events : List Event) (log : List Entry) : Prop :=
  ∀ r j k e f, j < k → log[j]? = some e → log[k]? = some f → e.pass.queue ≠ f.pass.queue →
    e.pass.touches r = true → f.pass.touches r = true → OutputBetween log r j k →
    ReachesBefore events e.list e.pass.queue f.list f.pass.queue

theorem Sequenced.mono {log : List Entry} {events later : List Event}
    (sequenced : Sequenced events log) (longer : events <+: later) : Sequenced later log := by
  intro r j k e f before first second apart touches touched output
  exact (sequenced r j k e f before first second apart touches touched output).mono longer

/-- The track remembers the last of the recorded passes that outputs to the resource, and those that
read it since. -/
structure Track.Remembers (t : Track) (log : List Entry) (r : ResourceId) : Prop where
  written : ∀ (k : Nat) e, log[k]? = some e → e.pass.outputsTo r = true →
    ∃ w, t.lastWriter = some w ∧ k ≤ w.ordinal
  writer : ∀ w, t.lastWriter = some w →
    ∃ e, log[w.ordinal]? = some e ∧ e.pass.queue = w.queue ∧ e.pass.outputsTo r = true
  read : ∀ (k : Nat) e, log[k]? = some e → e.pass.readsFrom r = true →
    (∃ w, t.lastWriter = some w ∧ k ≤ w.ordinal) ∨ ⟨k, e.pass.queue⟩ ∈ t.readers
  reader : ∀ ref ∈ t.readers,
    ∃ e, log[ref.ordinal]? = some e ∧ e.pass.queue = ref.queue ∧ e.pass.readsFrom r = true

theorem Track.Remembers.congr {t t' : Track} {log : List Entry} {r : ResourceId}
    (remembers : t.Remembers log r) (writer : t'.lastWriter = t.lastWriter)
    (readers : t'.readers = t.readers) : t'.Remembers log r where
  written := writer ▸ remembers.written
  writer := writer ▸ remembers.writer
  read := writer ▸ readers ▸ remembers.read
  reader := readers ▸ remembers.reader

theorem Track.remembers_nil {t : Track} (r : ResourceId) (writer : t.lastWriter = none)
    (readers : t.readers = []) : t.Remembers [] r := by
  constructor <;> simp [writer, readers]

namespace Draft

variable {d d' : Draft} {log : List Entry} {queue : Queue} {list : ListId} {r : ResourceId}

def Tracked (d : Draft) (log : List Entry) : Prop :=
  ∀ r, r.index < d.tracks.length → (d.track r).Remembers log r

theorem Tracked.congr (tracked : d.Tracked log) (users : ∀ r, d'.users r = d.users r)
    (length : d'.tracks.length = d.tracks.length) : d'.Tracked log := by
  intro r inside
  exact (tracked r (length ▸ inside)).congr (congrArg Prod.fst (users r))
    (congrArg Prod.snd (users r))

theorem Tracked.conflict (tracked : d.Tracked log) {output : Bool} {ref : PassRef}
    (dependency : ref ∈ (d.track r).dependencies output) :
    ∃ e, log[ref.ordinal]? = some e ∧ e.pass.queue = ref.queue ∧
      (e.pass.outputsTo r = true ∨ output = true ∧ e.pass.readsFrom r = true) := by
  have inside : r.index < d.tracks.length := by
    apply Nat.lt_of_not_le
    intro outside
    rw [track_of_length_le outside] at dependency
    simp [Track.dependencies] at dependency
  unfold Track.dependencies at dependency
  rcases List.mem_append.mp dependency with last | reader
  · obtain ⟨e, held, own, outputs⟩ := (tracked r inside).writer ref (Option.mem_toList.mp last)
    exact ⟨e, held, own, Or.inl outputs⟩
  · split at reader
    · rename_i outputs
      obtain ⟨e, held, own, reads⟩ := (tracked r inside).reader ref reader
      exact ⟨e, held, own, Or.inr ⟨outputs, reads⟩⟩
    · cases reader

theorem Tracked.dependency (tracked : d.Tracked log) {output : Bool} {ref : PassRef}
    (dependency : ref ∈ (d.track r).dependencies output) :
    ∃ e, log[ref.ordinal]? = some e ∧ e.pass.queue = ref.queue := by
  obtain ⟨e, held, own, _⟩ := tracked.conflict dependency
  exact ⟨e, held, own⟩

variable {accesses : List (ResourceId × Bool)} {output : Bool}

theorem Ready.reaches_dependency (ready : d.Ready log queue list) (tracked : d.Tracked log)
    (access : (r, output) ∈ accesses) {ref : PassRef}
    (dependency : ref ∈ (d.track r).dependencies output) (other : ref.queue ≠ queue) {j : Nat}
    {e : Entry} (held : log[j]? = some e) (own : e.pass.queue = ref.queue)
    (le : j ≤ ref.ordinal) :
    Reaches (d.syncAll queue accesses).events e.list e.pass.queue queue := by
  have recorded : ∀ n, d.needed accesses ref.queue = some n →
      covers (d.lastOn.get ref.queue) n = true := by
    intro n needed
    obtain ⟨_, _, _, other, member, sameQueue, ordinal⟩ := dependency_of_needed needed
    obtain ⟨f, found, queueOf⟩ := tracked.dependency member
    have latest := ready.timed.latest _ f found
    rwa [queueOf, sameQueue, ordinal] at latest
  have hears := ready.hears_syncAll access dependency recorded other
  obtain ⟨n, clock, bound⟩ := covers_eq_true.mp hears
  refine (ready.syncAll accesses).timed.sound queue j e held ?_
  rw [own]
  exact covers_eq_true.mpr ⟨n, clock, Nat.le_trans le bound⟩

theorem Ready.reaches_shared (ready : d.Ready log queue list) (tracked : d.Tracked log)
    (sequenced : Sequenced d.events log) (access : (r, output) ∈ accesses)
    (inside : r.index < d.tracks.length) {j : Nat} {e : Entry} (held : log[j]? = some e)
    (other : e.pass.queue ≠ queue) (touches : e.pass.touches r = true)
    (outputs : output = true ∨ ∃ w g, j ≤ w ∧ log[w]? = some g ∧ g.pass.outputsTo r = true) :
    Reaches (d.syncAll queue accesses).events e.list e.pass.queue queue := by
  by_cases covered : ∃ w, (d.track r).lastWriter = some w ∧ j ≤ w.ordinal
  · obtain ⟨w, last, le⟩ := covered
    obtain ⟨g, found, queueOf, writes⟩ := (tracked r inside).writer w last
    have dependency : w ∈ (d.track r).dependencies output :=
      List.mem_append_left _ (Option.mem_toList.mpr last)
    by_cases same : e.pass.queue = g.pass.queue
    · exact ready.reaches_dependency tracked access dependency (by rwa [← queueOf, ← same]) held
        (same.trans queueOf) le
    -- The pass reached the last writer's queue before the writer's list was submitted.
    have apart : j ≠ w.ordinal := by
      rintro rfl
      rw [held] at found
      exact same (congrArg (·.pass.queue) (Option.some.inj found))
    have before := sequenced r j w.ordinal e g (Nat.lt_of_le_of_ne le apart) held found same
      touches (by rw [Pass.touches_eq, writes, Bool.true_or])
      ⟨w.ordinal, g, le, Nat.le_refl _, found, writes⟩
    by_cases here : g.pass.queue = queue
    · rw [← here]
      exact before.reaches.mono (d.events_syncAll g.pass.queue accesses)
    · have next := ready.reaches_dependency tracked access dependency (by rwa [← queueOf]) found
        queueOf (Nat.le_refl _)
      exact (before.mono (d.events_syncAll queue accesses)).trans next
  · -- No writer comes after the pass, so that it is a reader still remembered.
    have unwritten : ¬ e.pass.outputsTo r = true := fun writes =>
      covered ((tracked r inside).written j e held writes)
    have reads : e.pass.readsFrom r = true := by
      rw [Pass.touches_eq, Bool.or_eq_true] at touches
      exact touches.resolve_left unwritten
    have writesNow : output = true := by
      rcases outputs with now | ⟨w, g, le, found, writes⟩
      · exact now
      · obtain ⟨last, held, bound⟩ := (tracked r inside).written w g found writes
        exact absurd ⟨last, held, Nat.le_trans le bound⟩ covered
    have reader := ((tracked r inside).read j e held reads).resolve_left covered
    have dependency : (⟨j, e.pass.queue⟩ : PassRef) ∈ (d.track r).dependencies output := by
      rw [writesNow]
      exact List.mem_append_right _ reader
    exact ready.reaches_dependency tracked access dependency other held rfl (Nat.le_refl _)

end Draft

end RenderGraph
