import RenderGraph.Culling
import RenderGraph.Operation

/-! Residency: what the graph holds on the device for the resources it owns. Live resources are
made resident in the order of declaration, each with one copy, or one for every frame in flight if
it is buffered. If the device fails, everything made so far is released again. -/

namespace RenderGraph

structure Holding where
  resource : ResourceId
  copies : List Copy := []
  deriving DecidableEq, Repr

abbrev Residency := List Holding

namespace Residency

def copiesOf (held : Residency) (r : ResourceId) : List Copy :=
  (held.find? (·.resource == r)).elim [] (·.copies)

def resident (held : Residency) : List ResourceId :=
  (held.filter fun holding => !holding.copies.isEmpty).map (·.resource)

end Residency

/-- A resource to be made resident: what to ask the device for, how often, and with which views. -/
structure Order where
  resource : ResourceId
  request : ResourceRequest
  count : Nat
  views : List (ViewKind × ViewSpec)
  deriving DecidableEq, Repr

namespace Declaration

def order (d : Declaration) (s : Survival) (frameCount : Nat) (r : ResourceId)
    (resource : Resource) : Order :=
  let wanted := d.wantedViews s r
  { resource := r
    request := {
      name := resource.name, blueprint := resource.blueprint
      views := wanted, state := resource.initialState }
    count := if resource.blueprint.buffered then max frameCount 1 else 1
    views := wanted.kinds.map fun kind => (kind, resource.viewSpec kind) }

/-- One order for every live resource that the graph owns. -/
def orders (d : Declaration) (s : Survival) (frameCount : Nat) : List Order :=
  d.resources.zipIdx.filterMap fun (resource, i) =>
    if s.isLive ⟨i⟩ && !resource.origin.isImported then
      some (d.order s frameCount ⟨i⟩ resource)
    else none

end Declaration

def Copy.addView (native : ResourceKey) (kind : ViewKind) (view : ViewKey) (copy : Copy) : Copy :=
  if copy.native = native then { copy with views := copy.views.set kind (some view) } else copy

namespace Order

def addView (native : ResourceKey) (kind : ViewKind) (spec : ViewSpec) : Op (List Copy) Unit := do
  let view ← Op.call (.createView native kind spec)
  Op.update (·.map (Copy.addView native kind view))

def addCopy (o : Order) : Op (List Copy) Unit := do
  let native ← Op.call (.createResource o.request)
  Op.update (· ++ [{ native }])
  o.views.forM fun (kind, spec) => addView native kind spec

def addCopies (o : Order) : Nat → Op (List Copy) Unit
  | 0 => pure ()
  | n + 1 => do
    o.addCopy
    o.addCopies n

end Order

def Op.freeViews {σ : Type} (copy : Copy) : Op σ Unit :=
  ViewKind.all.forM fun kind =>
    match copy.views.get kind with
    | some view => Op.call (.freeView kind view)
    | none => pure ()

/-- Frees the views of all copies, then destroys the copies. -/
def Op.releaseCopies {σ : Type} (copies : List Copy) : Op σ Unit := do
  copies.forM Op.freeViews
  copies.forM fun copy => Op.call (.destroyResource copy.native)

namespace Residency

def releaseAll : Op Residency Unit := do
  (← Op.read).forM fun holding => Op.releaseCopies holding.copies
  Op.update fun _ => []

/-- Makes a resource resident. Whatever goes wrong, the copies made so far are accounted for: they
are released if the device failed, and kept if the caller broke the contract. -/
def place (o : Order) : Op Residency Unit := do
  let (result, copies) ← Op.aside (o.addCopies o.count) []
  match result with
  | .ok () => Op.update (· ++ [⟨o.resource, copies⟩])
  | .error (.device error) =>
    Op.note .error s!"Failed to materialize {Text.quote o.request.name}: {error.message}"
    Op.releaseCopies copies
    releaseAll
    Op.fail (.device error)
  | .error failure =>
    Op.update (· ++ [⟨o.resource, copies⟩])
    Op.fail failure

def placeAll (orders : List Order) : Op Residency Unit := do
  orders.forM place
  Op.note .debug s!"Materialized {orders.length} resources"

end Residency

end RenderGraph
