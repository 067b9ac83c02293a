import RenderGraph.Culling.Revival
import RenderGraph.Journal

/-! Culling decides which passes a frame needs: references are counted down, then the passes that
survivors depend on are revived. It goes by the declaration alone. -/

namespace RenderGraph

structure CullResult where
  survival : Survival
  steps : List CullStep
  deriving DecidableEq, Repr

namespace Declaration

def tally (d : Declaration) : Tally := ((Tally.start d).releaseEmpty d).settle d

def revival (d : Declaration) (passRefs : List Nat) : Revival :=
  let used := d.survivors { passRefs }
  ({ passRefs, waiting := (used.map Prod.fst).reverse } : Revival).settle d

def cull (d : Declaration) : CullResult :=
  let tally := d.tally
  let revival := d.revival tally.passRefs
  let used := d.survivors { passRefs := revival.passRefs }
  { survival := {
      passRefs := revival.passRefs
      resourceRefs := tally.resourceRefs
      live := d.resourceIds.map fun r => used.any fun (_, pass) => pass.touches r }
    steps := tally.steps ++ revival.steps }

def cullStepLine (d : Declaration) : CullStep → LogLine
  | .empty p => ⟨.warn, s!"Pass {Text.quote (d.passName p)} writes nothing and is culled"⟩
  | .culled p => ⟨.trace, s!"Culling pass {Text.quote (d.passName p)}"⟩
  | .revived p q =>
    ⟨.trace, s!"Reviving pass {Text.quote (d.passName p)} for {Text.quote (d.passName q)}"⟩

def cullLines (d : Declaration) (result : CullResult) : List LogLine :=
  let total := d.passes.length
  let culled := total - (d.survivors result.survival).length
  result.steps.map d.cullStepLine ++
    [⟨.debug, s!"Culled {culled} of {total} passes, {result.survival.liveCount} live resources"⟩]

def wantedViews (d : Declaration) (s : Survival) (r : ResourceId) : ViewMask :=
  ((d.survivors s).flatMap fun (_, pass) => pass.accesses.filter (·.resource == r)).foldl
    (fun mask access => mask.union access.usage.views) .none

end Declaration

end RenderGraph
