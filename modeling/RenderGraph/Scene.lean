import RenderGraph.Residency

/-! A scene is what a schedule is replayed on: the declared passes, and what stands behind the
declared resources on the device. -/

namespace RenderGraph

structure Scene where
  declaration : Declaration
  residency : Residency
  deriving DecidableEq, Repr

namespace Scene

def copies (s : Scene) (r : ResourceId) : List Copy :=
  match s.declaration.resource? r with
  | some { origin := .imported bound, .. } => [bound]
  | some _ => s.residency.copiesOf r
  | none => []

/-- The copy for a frame index; indices beyond the copies wrap around. -/
def copy? (s : Scene) (r : ResourceId) (frameIndex : Nat) : Option Copy :=
  let copies := s.copies r
  copies[frameIndex % copies.length]?

def native? (s : Scene) (r : ResourceId) (frameIndex : Nat) : Option ResourceKey :=
  (s.copy? r frameIndex).map (·.native)

def view? (s : Scene) (r : ResourceId) (frameIndex : Nat) (kind : ViewKind) : Option ViewKey :=
  (s.copy? r frameIndex).bind (·.views.get kind)

def views (s : Scene) (r : ResourceId) (frameIndex : Nat) : PerView (Option ViewKey) :=
  PerView.tabulate (s.view? r frameIndex)

def binding (s : Scene) (frameIndex : Nat) (r : ResourceId) : Except Misuse Binding := do
  let resource ← s.declaration.getResource r
  match resource.blueprint.byteSize? with
  | some bytes => return ⟨r, s.native? r frameIndex, s.views r frameIndex, bytes⟩
  | none => throw .sizeOverflow

end Scene

end RenderGraph
