import RenderGraph.Proofs.DeviceTables
import RenderGraph.Proofs.ReleaseResult
import RenderGraph.Proofs.ReplaySteady

/-! What actions leave of a compilation. Other than executing and compiling that goes through, they
leave the compilation as it is with its lists and fences on the device, or they leave none.
Executing leaves its schedule as it is. -/

namespace RenderGraph

namespace Graph

theorem tables_of_drain (g : Graph) (rig : Rig) :
    (drain.run g rig).2.2.device.lists = rig.device.lists ∧
      (drain.run g rig).2.2.device.fences = rig.device.fences := by
  exact (makes_drain g rig).tables_of_quiet fun _ => Call.isQuiet_of_isWait

end Graph

namespace Session

variable {s t u : Session} {c : Compilation} {frames : List (List Traffic)}

theorem compilation_rebound (r : ResourceId) (f : Copy → Copy) :
    (s.rebound (s.graph.rebind r f)).graph.compilation = s.graph.compilation ∧
      (s.rebound (s.graph.rebind r f)).rig = s.rig := by
  obtain ⟨declaration, same⟩ := s.rebound_eq r f
  rw [same]
  exact ⟨rfl, rfl⟩

/-- The compilation stays, and with it the lists and fences on the device. -/
structure KeepsCompilation (s t : Session) : Prop where
  compilation : t.graph.compilation = s.graph.compilation
  lists : t.rig.device.lists = s.rig.device.lists
  fences : t.rig.device.fences = s.rig.device.fences

theorem keepsCompilation_drain (s : Session) : s.KeepsCompilation (s.after Graph.drain) := by
  have keeps : Graph.drain.Keeps (·.compilation) := Graph.keeps_drain
  obtain ⟨lists, fences⟩ := Graph.tables_of_drain s.graph s.rig
  exact ⟨keeps s.graph s.rig, lists, fences⟩

theorem keepsCompilation_of_drain_error {failure : Failure} {rig : Rig}
    (ran : Graph.drain.run s.graph s.rig = (.error failure, s.graph, rig)) :
    s.KeepsCompilation ⟨s.graph, rig⟩ := by
  have kept := s.keepsCompilation_drain
  rwa [after, ran] at kept

theorem kept_or_none_of_release {next : Op Graph Unit} (keeps : next.Keeps (·.compilation)) :
    s.KeepsCompilation (s.after (Graph.release >>= fun _ => next)) ∨
      (s.after (Graph.release >>= fun _ => next)).graph.compilation = none := by
  unfold after
  rw [Op.run_bind]
  rcases ran : Graph.release.run s.graph s.rig with ⟨failure | ⟨⟩, released, rig⟩
  · obtain ⟨rfl, drained⟩ := Graph.release_error ran
    exact Or.inl (keepsCompilation_of_drain_error drained)
  · exact Or.inr ((keeps released rig).trans (Graph.compilation_of_release ran))

/-- Apart from executing and from compiling that goes through, whatever a caller does keeps the
compilation or leaves none. -/
theorem kept_or_none (s : Session) (a : Action) (other : a ≠ .execute)
    (fails : a = .compile → ∃ failure, (Graph.compile.run s.graph s.rig).1 = .error failure) :
    s.KeepsCompilation (s.act a) ∨ (s.act a).graph.compilation = none := by
  have rebound (r : ResourceId) (f : Copy → Copy) :
      s.KeepsCompilation (s.rebound (s.graph.rebind r f)) := by
    obtain ⟨compilation, rig⟩ := s.compilation_rebound r f
    exact ⟨compilation, congrArg (·.device.lists) rig, congrArg (·.device.fences) rig⟩
  cases a with
  | importResource | manage | declare | setFrameIndex | useData | clearData | plan
    | refuseResources => exact Or.inl ⟨rfl, rfl, rfl⟩
  | update r native => exact Or.inl (rebound r _)
  | updateView r kind view => exact Or.inl (rebound r _)
  | setFrameCount n => exact kept_or_none_of_release (Op.keeps_update fun _ => rfl)
  | compile =>
    obtain ⟨failure, failed⟩ := fails rfl
    rcases ran : Graph.compile.run s.graph s.rig with ⟨result, g', rig'⟩
    rw [ran] at failed
    subst failed
    have left : s.act .compile = ⟨g', rig'⟩ := by rw [act, after, ran]
    rw [left]
    rcases Graph.compile_error_cases ran with ⟨rfl, drained⟩ | gone
    · exact Or.inl (keepsCompilation_of_drain_error drained)
    · exact Or.inr gone
  | execute => exact absurd rfl other
  | drain => exact Or.inl s.keepsCompilation_drain
  | reset =>
    apply kept_or_none_of_release
    apply (Op.keeps_update _).bind
    · exact fun _ => Op.keeps_note _ _
    · exact fun _ => rfl

theorem compilation_execute_of_none (none : s.graph.compilation = none) :
    (s.act .execute).graph.compilation = .none := by
  rcases Graph.execute_cases s.graph s.rig with idle | ⟨c, held, _⟩
  · have same : (s.act .execute).graph = s.graph := congrArg (·.1) idle
    rw [same]
    exact none
  · rw [none] at held
    cases held

/-- One session comes of the other with its compilation kept all the time. The traffic of each frame
that was tried in between is listed, whether the frame went through or not. -/
inductive Serves (u : Session) : List (List Traffic) → Session → Prop
  | start : Serves u [] u
  | idle {frames : List (List Traffic)} {t : Session} (serves : Serves u frames t) (a : Action)
    (kept : t.KeepsCompilation (t.act a)) : Serves u frames (t.act a)
  | execute {frames : List (List Traffic)} {t : Session} (serves : Serves u frames t)
    (traffic : List Traffic)
    (made : (t.act .execute).rig.traffic.toList = t.rig.traffic.toList ++ traffic) :
    Serves u (frames ++ [traffic]) (t.act .execute)

theorem Serves.compilation (serves : u.Serves frames s) (held : u.graph.compilation = some c) :
    ∃ player executed, s.graph.compilation = some { c with player, executed } ∧
      (c.executed = true → executed = true) := by
  induction serves with
  | start => exact ⟨c.player, c.executed, held, id⟩
  | idle _ a kept ih =>
    obtain ⟨player, executed, held', still⟩ := ih
    exact ⟨player, executed, kept.compilation.trans held', still⟩
  | @execute frames t _ traffic made ih =>
    obtain ⟨player, executed, held', still⟩ := ih
    have left : (t.act .execute).graph = (Graph.execute.run t.graph t.rig).2.1 := rfl
    rcases Graph.execute_cases t.graph t.rig with idle | ⟨c', held'', played⟩
    · rw [left, idle]
      exact ⟨player, executed, held', still⟩
    · cases held'.symm.trans held''
      rw [left, played]
      exact ⟨_, _, rfl, fun done => by simp [still done]⟩

end Session

end RenderGraph
