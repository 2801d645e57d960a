import Wavefront.Error
import Wavefront.Plan.Operator
import Wavefront.Precedence
set_option autoImplicit false

/-!
Dataflow plans. A plan is a list of operators; each carries its number, which in a well-formed plan is
its position, and the numbers of the operators it reads.
-/
namespace Wavefront

/-- An operator at its place in a plan. -/
structure PlanOp where
  id : Nat
  kind : Operator
  inputs : List Nat
deriving DecidableEq, Repr, Inhabited

structure Plan where
  ops : List PlanOp
deriving DecidableEq, Repr, Inhabited

namespace Plan

/-- The plan without operators. -/
def empty : Plan := ⟨[]⟩

/-- Appends an operator, which is numbered by its position. -/
def add (p : Plan) (kind : Operator) (inputs : List Nat) : Plan :=
  ⟨p.ops ++ [⟨p.ops.length, kind, inputs⟩]⟩

/-- The operator of a number, if it stands where its number says. -/
def op? (p : Plan) (id : Nat) : Option PlanOp := p.ops[id]?.filter fun op => op.id == id

/-- The readers of an operator, one for each edge, in the order of the plan. -/
def consumers (p : Plan) (id : Nat) : List Nat :=
  p.ops.flatMap fun op => (op.inputs.filter (· == id)).map fun _ => op.id

/-- The number of edges into the operator at a position. -/
def inputCount (p : Plan) (id : Nat) : Nat := (p.ops[id]?.map fun op => op.inputs.length).getD 0

/-- All operators, each after its inputs, the smallest number first where there is a choice. -/
def topologicalOrder (p : Plan) : Except Error (List Nat) :=
  match Precedence.order (List.range p.ops.length) p.inputCount p.consumers with
  | .ok order => .ok order
  | .error .cycle => .error (.plan .cycle)
  | .error .counter => .error (.invariant .counter)

def opToJson (op : PlanOp) : Json :=
  .obj [("id", Json.nat op.id), ("kind", op.kind.toJson), ("inputs", Json.list Json.nat op.inputs)]

def opOfJson? (j : Json) : Option PlanOp := do
  let members ← Json.record? ["id", "kind", "inputs"] j
  return {
    id := ← Json.field? members "id" Json.word?
    kind := ← Json.field? members "kind" Operator.ofJson?
    inputs := ← Json.field? members "inputs" (Json.list? Json.word?) }

def toJson (p : Plan) : Json := .obj [("ops", Json.list opToJson p.ops)]

def ofJson? (j : Json) : Option Plan := do
  let members ← Json.record? ["ops"] j
  return ⟨← Json.field? members "ops" (Json.list? opOfJson?)⟩

end Plan

end Wavefront
