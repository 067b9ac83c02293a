import RenderGraph.Declaration.Pass
import RenderGraph.Text.Quoted
import RenderGraph.Text.Record

/-! Passes written out as records, for inspection. -/

namespace RenderGraph

open Text (record listed optional wrapped)

def Hints.text (h : Hints) : String :=
  record "BarrierHints" [
    ("layout", optional (h.layout.map Layout.name)),
    ("access", optional (h.access.map fun scope =>
      wrapped "BarrierAccess" (MemoryScope.names.exact scope.bits))),
    ("sync", optional (h.stages.map fun scope =>
      wrapped "BarrierSync" (StageScope.names.exact scope.bits)))]

def Access.text (a : Access) : String :=
  record "ResourceAccess" [
    ("name", Text.quote a.name),
    ("handle", wrapped "ResourceHandle" (toString a.resource.index)),
    ("usage", a.usage.name),
    ("extra_states", wrapped "ResourceState" (ResourceState.names.exact a.extraStates.bits)),
    ("hints", a.hints.text)]

def Pass.text (p : Pass) (refs : Nat) : String :=
  record "RenderPass" [
    ("name", Text.quote p.name),
    ("queue", p.queue.name),
    ("reads", listed (p.reads.map Access.text)),
    ("writes", listed (p.writes.map Access.text)),
    ("creates", listed (p.creates.map Access.text)),
    ("has_side_effects", toString p.sideEffects),
    ("refcount", toString refs),
    ("has_callback", toString p.recorder.isSome)]

end RenderGraph
