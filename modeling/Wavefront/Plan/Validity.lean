import Wavefront.Plan.Basic
set_option autoImplicit false

/-!
Which plans can be compiled. Operators are checked in their order, each by the rules in theirs, and the
first broken rule is reported; a circle among the inputs is looked for last.
-/
namespace Wavefront.Plan

/-- The first broken rule on the key lists of an operator that has one list of keys an input. -/
def keysFault? (id : Nat) (name : String) (keys : List (List String)) (inputs : Nat) :
    Option PlanFault :=
  if keys.length ≠ inputs then some (.keyListCount id name keys.length inputs)
  else if keys.any List.isEmpty then some (.inputWithoutKeys id name)
  else if keys.any fun k => k.length ≠ (keys.head?.getD []).length then some (.keyWidths id name)
  else none

/-- The first broken rule on what an operator carries. -/
def payloadFault? (op : PlanOp) : Option PlanFault :=
  match op.kind with
  | .coGroup keys | .join keys _ => keysFault? op.id op.kind.name keys op.inputs.length
  | .aggregate [] => some (.noCalls op.id)
  | _ => none

/-- The first broken rule on who reads an operator: a store is read by nobody, all others by someone. -/
def consumerFault? (p : Plan) (op : PlanOp) : Option PlanFault :=
  match op.kind.isStore, p.consumers op.id with
  | true, consumer :: _ => some (.storeIsRead op.id consumer)
  | false, [] => some (.feedsNoStore op.id op.kind.name)
  | _, _ => none

/-- The first broken rule on the operator at a position. -/
def opFault? (p : Plan) (position : Nat) (op : PlanOp) : Option PlanFault :=
  if op.id ≠ position then some (.misplaced position op.id)
  else match op.inputs.find? fun input => (p.op? input).isNone with
    | some input => some (.unknownInput op.id op.kind.name input)
    | none =>
      if !op.kind.admits op.inputs.length then
        some (.inputCount op.id op.kind.name op.inputs.length)
      else (payloadFault? op).or (consumerFault? p op)

/-- Accepts the plans that can be compiled. -/
def validate (p : Plan) : Except Error Unit :=
  if p.ops.isEmpty then .error (.plan .noOperators)
  else match p.ops.zipIdx.findSome? fun (op, position) => p.opFault? position op with
    | some fault => .error (.plan fault)
    | none => p.topologicalOrder.map fun _ => ()

end Wavefront.Plan
