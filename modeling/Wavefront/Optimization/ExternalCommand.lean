import Wavefront.Graph.Node
import Wavefront.Optimization.Revision
set_option autoImplicit false

/-!
Which phases of a node run external commands. A job that runs one must not be started twice, so a combine
plan, which may run any number of times, has none.
-/
namespace Wavefront.Optimization

/-- The phases of a node without streams in its combine plan that run an external command. -/
def streamMarker (n : Node) : StreamMarker :=
  ⟨n.map.any fun b => b.ops.any LocalOp.isStream, false, n.reduce.any LocalOp.isStream⟩

/-- Marks the phases of a node that run an external command. -/
def markStreams (n : Node) : Revision Node :=
  if n.combineOps.any LocalOp.isStream then .stopped n (.combineStreams n.id)
  else .done { n with annotations := { n.annotations with stream := streamMarker n } }

end Wavefront.Optimization
