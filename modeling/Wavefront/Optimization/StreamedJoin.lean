import Wavefront.Graph.Node
import Wavefront.Optimization.Revision
set_option autoImplicit false

/-!
Joins that stream their last input. The package and the cross product of an inner join become one
operation, which keeps all inputs of a key but the last in memory and takes the last one in chunks.
-/
namespace Wavefront.Optimization

/-- Streams the last input of every inner join among some operations. -/
def streamJoins (node chunkSize : Nat) : List LocalOp → Revision (List LocalOp)
  | [] => .done []
  | .package (.join .inner) inputs known :: .flatten flattened :: rest =>
    if flattened = inputs then
      (streamJoins node chunkSize rest).map
        (.joinPackage inputs .inner chunkSize (inputs - 1) known :: ·)
    else
      .stopped (.package (.join .inner) inputs known :: .flatten flattened :: rest)
        (.flattenMismatch node inputs flattened)
  | .package (.join .inner) inputs known :: rest =>
    .stopped (.package (.join .inner) inputs known :: rest) (.noFlatten node)
  | op :: rest => (streamJoins node chunkSize rest).map (op :: ·)

/-- Streams the last input of every inner join of a node. -/
def streamLastInputs (chunkSize : Nat) (n : Node) : Revision Node :=
  (streamJoins n.id chunkSize n.reduce).map fun reduce => { n with reduce }

end Wavefront.Optimization
