import RenderGraph.Proofs.ExactOwnership
import RenderGraph.Proofs.LostSignals

/-! Tearing a graph down, for another declaration or another number of frames in flight. Before
anything is given up, the processor waits for every fence that has been given a value. If one of the
waits fails, that is all that happens; once they are over, nothing can go wrong. -/

namespace RenderGraph

def Asset.disposal : Asset → Command
  | list key => .destroyList key
  | resource key => .destroyResource key
  | view kind key => .freeView kind key
  | fence key => .destroyFence key

namespace Op

variable {σ α β : Type} {xs ys : List Asset}

def Disposes (op : Op σ α) (assets : List Asset) : Prop :=
  ∀ s rig, ∃ a after, op.run s rig = (.ok a, s, after) ∧
    after.traffic.toList = rig.traffic.toList ++ assets.map (.command ·.disposal)

theorem disposes_pure (a : α) : (pure a : Op σ α).Disposes [] := fun _ rig =>
  ⟨a, rig, rfl, (List.append_nil _).symm⟩

theorem disposes_call {c : Call} {x : Asset} (disposal : c.IsDisposal)
    (same : ∀ reply, c.logged reply = x.disposal) : (call c : Op σ c.Reply).Disposes [x] := by
  intro s rig
  obtain ⟨reply, ok⟩ : ∃ reply, (rig.call c).1 = .ok reply := Rig.ok_of_disposal disposal
  have ran : (call c : Op σ c.Reply).run s rig = (.ok reply, s, (rig.call c).2) := by
    rw [run_call, ok]
  refine ⟨reply, _, ran, ?_⟩
  rw [(traffic_of_call ran).2, same reply]
  rfl

theorem Disposes.bind {op : Op σ α} {next : α → Op σ β} (first : op.Disposes xs)
    (rest : ∀ a, (next a).Disposes ys) : (op >>= next).Disposes (xs ++ ys) := by
  intro s rig
  obtain ⟨a, mid, ran, early⟩ := first s rig
  obtain ⟨b, after, ran', late⟩ := rest a s mid
  refine ⟨b, after, ?_, ?_⟩
  · rw [run_bind, ran]
    exact ran'
  · rw [late, early, List.append_assoc, List.map_append]

theorem disposes_forM {f : α → Op σ Unit} {assets : α → List Asset} (entries : List α)
    (each : ∀ x, (f x).Disposes (assets x)) :
    (entries.forM f).Disposes (entries.flatMap assets) := by
  induction entries with
  | nil => exact disposes_pure ()
  | cons x entries ih => exact (each x).bind fun _ => ih

theorem disposes_destroyLists (lists : List ListKey) :
    (destroyLists lists : Op σ Unit).Disposes (lists.map .list) := by
  rw [List.map_eq_flatMap]
  exact disposes_forM lists fun _ => disposes_call trivial fun _ => rfl

theorem disposes_destroyFences (fences : List FenceSlot) :
    (destroyFences fences : Op σ Unit).Disposes (fences.map fun slot => .fence slot.fence) := by
  rw [List.map_eq_flatMap]
  exact disposes_forM fences fun _ => disposes_call trivial fun _ => rfl

theorem disposes_freeViews (copy : Copy) :
    (freeViews copy : Op σ Unit).Disposes copy.viewAssets := by
  rw [Copy.viewAssets, List.filterMap_eq_flatMap_toList]
  apply disposes_forM
  intro kind
  cases copy.views.get kind with
  | none => exact disposes_pure ()
  | some view => exact disposes_call (c := .freeView kind view) trivial fun _ => rfl

theorem disposes_releaseCopies (copies : List Copy) :
    (releaseCopies copies : Op σ Unit).Disposes
      (copies.flatMap Copy.viewAssets ++ copies.map fun copy => .resource copy.native) := by
  refine (disposes_forM copies disposes_freeViews).bind fun _ => ?_
  rw [List.map_eq_flatMap]
  exact disposes_forM copies fun _ => disposes_call trivial fun _ => rfl

end Op

theorem Player.disposes_destroy {σ : Type} (p : Player) :
    (p.destroy : Op σ Unit).Disposes p.assets :=
  (Op.disposes_destroyLists _).bind fun _ => Op.disposes_destroyFences _

def Holding.disposed (holding : Holding) : List Asset :=
  holding.copies.flatMap Copy.viewAssets ++ holding.copies.map fun copy => .resource copy.native

theorem Holding.perm_disposed (holding : Holding) : holding.disposed.Perm holding.assets := by
  rw [disposed, assets, List.map_eq_flatMap]
  exact List.perm_append_comm.trans (List.flatMap_append_perm holding.copies _ Copy.viewAssets)

namespace Graph

def disposed (g : Graph) : List Asset := g.playerAssets ++ g.residency.flatMap Holding.disposed

theorem perm_disposed (g : Graph) : g.disposed.Perm g.assets := by
  refine List.perm_append_comm.trans (List.Perm.append_right _ ?_)
  exact List.Perm.flatMap_left _ fun holding _ => holding.perm_disposed

variable {g g' : Graph} {rig rig' : Rig}

theorem run_releaseResidency (g : Graph) (rig : Rig) :
    ∃ after, releaseResidency.run g rig = (.ok (), { g with residency := [] }, after) ∧
      after.traffic.toList = rig.traffic.toList ++
        (g.residency.flatMap Holding.disposed).map (.command ·.disposal) := by
  have gives : (g.residency.forM fun holding => Op.releaseCopies holding.copies :
      Op Residency Unit).Disposes (g.residency.flatMap Holding.disposed) :=
    Op.disposes_forM g.residency fun holding => Op.disposes_releaseCopies holding.copies
  obtain ⟨⟨⟩, after, ran, traffic⟩ := gives g.residency rig
  refine ⟨after, ?_, traffic⟩
  rw [releaseResidency, Op.run_within, Residency.releaseAll, Op.run_bind, Op.run_read]
  dsimp only
  rw [Op.run_bind, ran]
  rfl

theorem traffic_giveUp (g : Graph) (rig : Rig) :
    ∃ after, giveUp.run g rig = (.ok (), { g with residency := [], compilation := none }, after) ∧
      after.traffic.toList = rig.traffic.toList ++ g.disposed.map (.command ·.disposal) := by
  have rest (rig : Rig) : ∃ after, (do releaseResidency; Op.update fun g : Graph =>
      { g with compilation := none }).run g rig =
        (.ok (), { g with residency := [], compilation := none }, after) ∧
      after.traffic.toList = rig.traffic.toList ++
        (g.residency.flatMap Holding.disposed).map (.command ·.disposal) := by
    obtain ⟨after, ran, traffic⟩ := g.run_releaseResidency rig
    refine ⟨after, ?_, traffic⟩
    rw [Op.run_bind, ran]
    rfl
  unfold giveUp disposed playerAssets
  rw [Op.run_bind, Op.run_read]
  dsimp only
  cases held : g.compilation with
  | none => exact rest rig
  | some c =>
    obtain ⟨⟨⟩, mid, destroyed, early⟩ := c.player.disposes_destroy g rig
    obtain ⟨after, ran, late⟩ := rest mid
    refine ⟨after, ?_, ?_⟩
    · dsimp only
      rw [Op.run_bind, destroyed]
      exact ran
    · rw [late, early, Option.toList_some, List.flatMap_singleton, List.map_append,
        List.append_assoc]

end Graph

/-- The waits of the processor, one for every fence that has been given a value. -/
def Player.waits (p : Player) : List Command :=
  (p.slots.filter (0 < ·.value)).map fun slot => .waitCpu slot.fence slot.value

namespace Op

variable {σ : Type} {s s' : σ} {rig rig' : Rig} {failure : Failure}

theorem traffic_of_wait_error {fence : FenceKey} {value : Nat}
    (ran : (call (.waitCpu fence value) : Op σ Unit).run s rig = (.error failure, s', rig')) :
    ∃ refused : List Traffic, (refused = [] ∨ refused = [.refused .waitCpu]) ∧
      rig'.traffic.toList = rig.traffic.toList ++ refused := by
  have failed : rig.call (.waitCpu fence value) = (.error failure, rig') := by
    cases ran' : rig.call (.waitCpu fence value)
    rw [run_call, ran'] at ran
    cases ran
    rfl
  rcases (Rig.call_error failed).1 with same | ⟨method, known, same⟩
  · exact ⟨[], Or.inl rfl, by rw [same, List.append_nil]⟩
  · cases known
    exact ⟨[.refused .waitCpu], Or.inr rfl, by rw [same, Array.toList_push]⟩

end Op

/-- Some of the waits went through, and the one after them failed. -/
def Stops (waits : List Command) (traffic : List Traffic) : Prop :=
  ∃ done wait late refused, waits = done ++ wait :: late ∧
    (refused = [] ∨ refused = [.refused .waitCpu]) ∧ traffic = done.map .command ++ refused

theorem Stops.cons {waits : List Command} {traffic : List Traffic} (stops : Stops waits traffic)
    (wait : Command) : Stops (wait :: waits) (.command wait :: traffic) := by
  obtain ⟨done, failed, late, refused, rfl, small, rfl⟩ := stops
  exact ⟨wait :: done, failed, late, refused, rfl, small, rfl⟩

namespace Player

variable {σ : Type} {s s' : σ} {p : Player} {rig rig' : Rig}

theorem traffic_of_drain (ran : (p.drain : Op σ Unit).run s rig = (.ok (), s', rig')) :
    rig'.traffic.toList = rig.traffic.toList ++ p.waits.map .command := by
  unfold drain at ran
  unfold waits
  generalize p.slots = slots at ran ⊢
  induction slots generalizing s rig with
  | nil =>
    cases ran
    exact (List.append_nil _).symm
  | cons slot slots ih =>
    obtain ⟨⟨⟩, mid, rigMid, one, rest⟩ := Op.run_bind_ok.mp ran
    dsimp only at one
    split at one
    · rename_i given
      rw [List.filter_cons_of_pos (by simpa using given), ih rest, (Op.traffic_of_call one).2,
        List.append_assoc]
      rfl
    · rename_i unused
      cases one
      rw [List.filter_cons_of_neg (by simpa using unused), ih rest]

theorem traffic_of_drain_error {failure : Failure}
    (ran : (p.drain : Op σ Unit).run s rig = (.error failure, s', rig')) :
    ∃ traffic, Stops p.waits traffic ∧ rig'.traffic.toList = rig.traffic.toList ++ traffic := by
  unfold drain at ran
  unfold waits
  generalize p.slots = slots at ran ⊢
  induction slots generalizing s rig with
  | nil => cases ran
  | cons slot slots ih =>
    rcases Op.run_bind_error.mp ran with failed | ⟨⟨⟩, mid, rigMid, one, rest⟩
    · dsimp only at failed
      split at failed
      · rename_i given
        rw [List.filter_cons_of_pos (by simpa using given), List.map_cons]
        obtain ⟨refused, small, traffic⟩ := Op.traffic_of_wait_error failed
        exact ⟨refused, ⟨[], _, _, refused, rfl, small, rfl⟩, traffic⟩
      · cases failed
    · obtain ⟨traffic, stops, late⟩ := ih rest
      dsimp only at one
      split at one
      · rename_i given
        rw [List.filter_cons_of_pos (by simpa using given), List.map_cons]
        refine ⟨_, stops.cons _, ?_⟩
        rw [late, (Op.traffic_of_call one).2, List.append_assoc]
        rfl
      · rename_i unused
        cases one
        rw [List.filter_cons_of_neg (by simpa using unused)]
        exact ⟨traffic, stops, late⟩

end Player

namespace Graph

/-- What the processor waits for before anything is given up. -/
def waits (g : Graph) : List Command := g.compilation.toList.flatMap fun c => c.player.waits

variable {g g' : Graph} {rig rig' : Rig}

theorem waits_of_compilation {c : Compilation} (held : g.compilation = some c) :
    g.waits = c.player.waits := by
  rw [waits, held, Option.toList_some, List.flatMap_singleton]

theorem traffic_of_drain (ran : drain.run g rig = (.ok (), g', rig')) :
    rig'.traffic.toList = rig.traffic.toList ++ g.waits.map .command := by
  cases held : g.compilation with
  | none =>
    rw [drain, Op.run_bind, Op.run_read] at ran
    dsimp only at ran
    rw [held] at ran
    cases ran
    rw [waits, held, Option.toList_none, List.flatMap_nil, List.map_nil, List.append_nil]
  | some c =>
    rw [run_drain held] at ran
    rw [waits_of_compilation held]
    exact Player.traffic_of_drain ran

theorem traffic_of_drain_error {failure : Failure}
    (ran : drain.run g rig = (.error failure, g', rig')) :
    ∃ traffic, Stops g.waits traffic ∧ rig'.traffic.toList = rig.traffic.toList ++ traffic := by
  cases held : g.compilation with
  | none =>
    rw [drain, Op.run_bind, Op.run_read] at ran
    dsimp only at ran
    rw [held] at ran
    cases ran
  | some c =>
    rw [run_drain held] at ran
    rw [waits_of_compilation held]
    exact Player.traffic_of_drain_error ran

theorem traffic_of_release (ran : release.run g rig = (.ok (), g', rig')) :
    rig'.traffic.toList = rig.traffic.toList ++ g.waits.map .command ++
      g.disposed.map (.command ·.disposal) := by
  rw [release_eq] at ran
  obtain ⟨⟨⟩, mid, rigMid, drained, given⟩ := Op.run_bind_ok.mp ran
  have keeps : drain.Keeps id := keeps_drain
  have same : mid = g := keeps.of_run drained
  subst same
  obtain ⟨after, gives, traffic⟩ := mid.traffic_giveUp rigMid
  cases gives.symm.trans given
  rw [traffic, traffic_of_drain drained]

end Graph

namespace Session

variable {s : Session}

/-- A wait of the processor failed. The graph is as it was, and no other calls were made than that
wait and those before it. -/
structure Spared (s t : Session) : Prop where
  graph : t.graph = s.graph
  traffic : ∃ waited, Stops s.graph.waits waited ∧
    t.rig.traffic.toList = s.rig.traffic.toList ++ waited

/-- After all waits, everything that the graph held was given up, each thing once. Nothing is left
on the device or compiled. -/
structure GaveUp (s t : Session) : Prop where
  traffic : ∃ assets : List Asset, assets.Perm s.graph.held ∧ assets.Nodup ∧
    t.rig.traffic.toList = s.rig.traffic.toList ++ s.graph.waits.map .command ++
      assets.map (.command ·.disposal)
  device : t.rig.device.assets = []
  residency : t.graph.residency = []
  uncompiled : t.graph.schedule? = none ∧ t.graph.isCompiled = false

theorem spared_or_gaveUp (reachable : s.Reachable) {next : Op Graph Unit} {f : Graph → Graph}
    (ends : ∀ g rig, ∃ journal, next.run g rig = (.ok (), f g, { rig with journal }))
    (residency : ∀ g, (f g).residency = g.residency)
    (compilation : ∀ g, (f g).compilation = g.compilation) :
    (∃ failure, ((Graph.release >>= fun _ => next).run s.graph s.rig).1 = .error failure ∧
        (Graph.drain.run s.graph s.rig).1 = .error failure ∧
        s.Spared (s.after (Graph.release >>= fun _ => next))) ∨
      s.Does (Graph.release >>= fun _ => next) (s.after (Graph.release >>= fun _ => next)) ∧
        (Graph.drain.run s.graph s.rig).1 = .ok () ∧
        s.GaveUp (s.after (Graph.release >>= fun _ => next)) := by
  unfold Does after
  rw [Op.run_bind]
  rcases released : Graph.release.run s.graph s.rig with ⟨failure | ⟨⟩, g, rig⟩
  · obtain ⟨same, drained⟩ := Graph.release_error released
    exact Or.inl ⟨failure, rfl, by rw [drained], same, Graph.traffic_of_drain_error drained⟩
  · obtain ⟨journal, ended⟩ := ends g rig
    have drained : (Graph.drain.run s.graph s.rig).1 = .ok () := by
      have succeeds : (pure () : Op Graph Unit).Succeeds := Op.succeeds_pure ()
      have result := Graph.result_of_release succeeds s.graph s.rig
      rw [bind_pure_unit, released] at result
      exact result.symm
    -- What the release gives up is what the graph holds, in another order.
    have owned : s.graph.disposed.Perm s.graph.held :=
      reachable.rowed.held_eq ▸ s.graph.perm_disposed
    have distinct : s.graph.held.Nodup :=
      (balances_of_accounts reachable.rowed reachable.accounts).once
    have none : (f g).compilation = none :=
      (compilation g).trans (Graph.compilation_of_release released)
    have traffic := Graph.traffic_of_release released
    dsimp only
    rw [ended]
    refine Or.inr ⟨rfl, drained, ⟨_, owned, owned.nodup_iff.mpr distinct, traffic⟩, ?_, ?_, ?_, ?_⟩
    · exact (Graph.accounts_release reachable.accounts released).alive.eq_nil
    · exact (residency g).trans (Graph.residency_of_release released)
    · rw [Graph.schedule?, none, Option.map_none]
    · rw [Graph.isCompiled, none, Option.isSome_none, Bool.false_and]

/-- Whatever a caller has done and whatever fails, to forget the declaration or to change the number
of frames in flight is all or nothing: it fails as draining does and leaves everything as it was, or
it gives up all that the graph holds. -/
theorem teardown_all_or_nothing (reachable : s.Reachable) {op : Op Graph Unit}
    (teardown : op = Graph.reset ∨ ∃ count, op = Graph.setFrameCount count) :
    (∃ failure, (op.run s.graph s.rig).1 = .error failure ∧
        (Graph.drain.run s.graph s.rig).1 = .error failure ∧ s.Spared (s.after op)) ∨
      s.Does op (s.after op) ∧ (Graph.drain.run s.graph s.rig).1 = .ok () ∧
        s.GaveUp (s.after op) := by
  rcases teardown with rfl | ⟨count, rfl⟩
  · exact spared_or_gaveUp reachable (fun _ rig => ⟨rig.journal.write _ _, rfl⟩) (fun _ => rfl)
      fun _ => rfl
  · exact spared_or_gaveUp reachable (fun _ rig => ⟨rig.journal, rfl⟩) (fun _ => rfl) fun _ => rfl

/-! The streamed image after one frame. Two fences have been given a value; in the second session
the device is lost between the two waits. -/

def streamedLostWait : Session :=
  streamedOnce.act (.plan [{ method := .waitCpu, skip := 1, error := .deviceLost }])

theorem streamed_torn_down :
    (streamedOnce.Reachable ∧ streamedLostWait.Reachable) ∧
      streamedOnce.graph.waits = [.waitCpu ⟨7⟩ 2, .waitCpu ⟨8⟩ 1] ∧
      streamedOnce.GaveUp (streamedOnce.after Graph.reset) ∧
      streamedLostWait.Spared (streamedLostWait.after (Graph.setFrameCount 3)) := by
  have reachable : streamedOnce.Reachable := streamed_reachable.act .execute
  have lost : streamedLostWait.Reachable := reachable.act (.plan _)
  refine ⟨⟨reachable, lost⟩, by decide +kernel, ?_, ?_⟩
  · rcases teardown_all_or_nothing reachable (Or.inl rfl) with ⟨failure, failed, _⟩ | ⟨_, _, gaveUp⟩
    · have ok : (Graph.reset.run streamedOnce.graph streamedOnce.rig).1 = .ok () := by
        decide +kernel
      cases ok.symm.trans failed
    · exact gaveUp
  · rcases teardown_all_or_nothing lost (Or.inr ⟨3, rfl⟩) with ⟨_, _, _, spared⟩ | ⟨_, drained, _⟩
    · exact spared
    · have failed : (Graph.drain.run streamedLostWait.graph streamedLostWait.rig).1 =
          .error (.device .deviceLost) := by decide +kernel
      cases failed.symm.trans drained

end Session

end RenderGraph
