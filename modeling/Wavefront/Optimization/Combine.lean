import Wavefront.Graph.Node
import Wavefront.Optimization.Revision
set_option autoImplicit false

/-!
Combine plans. Where a group with one input is followed by algebraic calls only, the calls are split in
three: each record becomes a partial result before the shuffle, partial results are merged on the map
side, and the reduce side merges what is left and finishes.
-/
namespace Wavefront.Optimization

/-- Merges the partial results of a key and passes them on. -/
def combinePlan (chunkSize : Nat) (keys : List String) (calls : List AggregateCall) : CombinePlan :=
  ⟨[.package .group 1 none, .aggregate keys calls .intermediate, .rearrange 0 keys], chunkSize⟩

/-- Gives a node a combine plan if its calls can be split. -/
def addCombinePlan (chunkSize : Nat) (n : Node) : Revision Node :=
  match n.map, n.combine, n.reduce with
  | [branch], none, .package .group inputs known :: .aggregate keys calls .full :: rest =>
    if calls.all (·.function.isAlgebraic) then
      let finishing := { n with
        reduce := .package .group inputs known :: .aggregate keys calls .final :: rest }
      match branch.ops.getLast? with
      | some (.rearrange index shuffleKeys) =>
        .done { finishing with
          map := [{ branch with ops := branch.ops.dropLast ++
            [.aggregate keys calls .initial, .rearrange index shuffleKeys] }]
          combine := some (combinePlan chunkSize keys calls) }
      | _ => .stopped finishing (.noFinalRearrange n.id)
    else .done n
  | _, _, _ => .done n

end Wavefront.Optimization
