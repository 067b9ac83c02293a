import RenderGraph.Journal

/-! The version of the library, and its greeting in the journal. -/

namespace RenderGraph

def version : String := "0.1.0"

def announce (j : Journal) : Journal :=
  j.write .info s!"RedLilium Frame Graph v{version} initialized"

end RenderGraph
