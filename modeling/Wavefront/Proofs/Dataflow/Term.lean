import Wavefront.Graph.Basic
import Wavefront.Plan.Basic
set_option autoImplicit false

/-!
What is computed, without saying where. A dataflow term unfolds an operator of a plan, or a node of
a job graph, down to the files it is computed from. Two things that unfold to the same term compute
the same records.
-/
namespace Wavefront

inductive RecordOp where
  | filter (predicate : String)
  | project (columns : List String)
  | stream (command : String) (outputSchema : Option Schema)
  | limit (n : Nat)
deriving DecidableEq

/-- How records are computed. -/
inductive Dataflow where
  | load (location : String) (schema : Option Schema)
  | each (op : RecordOp) (input : Dataflow)
  /-- Inputs brought together by their keys, for what `kind` says. -/
  | shuffle (kind : PackageKind) (inputs : List (List String × Dataflow))
  | aggregate (keys : List String) (calls : List AggregateCall) (groups : Dataflow)

namespace RecordOp

def toOperator : RecordOp → Operator
  | .filter predicate => .filter predicate
  | .project columns => .project columns
  | .stream command outputSchema => .stream command outputSchema
  | .limit n => .limit n

/-- The operation inside a phase that does the same. -/
def toLocal : RecordOp → LocalOp
  | .filter predicate => .filter predicate
  | .project columns => .project columns
  | .stream command outputSchema => .stream command outputSchema
  | .limit n => .limit n

/-- The operation on single records that an operation inside a phase is. -/
def ofLocal? : LocalOp → Option RecordOp
  | .filter predicate => some (.filter predicate)
  | .project columns => some (.project columns)
  | .stream command outputSchema => some (.stream command outputSchema)
  | .limit n => some (.limit n)
  | _ => none

/-- The operation on single records that an operator is. -/
def ofOperator? : Operator → Option RecordOp
  | .filter predicate => some (.filter predicate)
  | .project columns => some (.project columns)
  | .stream command outputSchema => some (.stream command outputSchema)
  | .limit n => some (.limit n)
  | _ => none

@[simp] theorem ofLocal?_toLocal (op : RecordOp) : ofLocal? op.toLocal = some op := by
  cases op <;> rfl

@[simp] theorem ofOperator?_toOperator (op : RecordOp) : ofOperator? op.toOperator = some op := by
  cases op <;> rfl

end RecordOp

namespace Dataflow

/-- What an operator computes from what its inputs compute. An aggregate works on the groups of a
group, by the keys of that group; a store passes its input on. -/
def ofOperator? (op : Operator) (inputs : List Dataflow) : Option Dataflow :=
  match op, inputs with
  | .load location schema, [] => some (.load location schema)
  | .filter predicate, [x] => some (.each (.filter predicate) x)
  | .project columns, [x] => some (.each (.project columns) x)
  | .stream command outputSchema, [x] => some (.each (.stream command outputSchema) x)
  | .limit n, [x] => some (.each (.limit n) x)
  | .group keys, [x] => some (.shuffle .group [(keys, x)])
  | .distinct, [x] => some (.shuffle .distinct [([], x)])
  | .coGroup keys, inputs => some (.shuffle .coGroup (keys.zip inputs))
  | .join keys joinType, inputs => some (.shuffle (.join joinType) (keys.zip inputs))
  | .aggregate calls, [.shuffle .group [(keys, x)]] =>
    some (.aggregate keys calls (.shuffle .group [(keys, x)]))
  | .store .., [x] => some x
  | _, _ => none

def throughRecords (x : Dataflow) (ops : List LocalOp) : Option Dataflow :=
  ops.foldlM (fun x op => (RecordOp.ofLocal? op).map fun r => .each r x) x

/-- What a branch brings to the shuffle. -/
structure Delivery where
  index : Nat
  keys : List String
  value : Dataflow

/-- What a branch that starts with `x` brings to the shuffle: its last operation, and only that one,
rearranges. -/
def delivery? : List LocalOp → Dataflow → Option Delivery
  | [], _ => none
  | [.rearrange index keys], x => some ⟨index, keys, x⟩
  | op :: rest, x => (RecordOp.ofLocal? op).bind fun r => delivery? rest (.each r x)

/-- What a branch brings to the shuffle, given what it starts with and what it does. -/
def deliveryOf (branch : Option Dataflow × List LocalOp) : Option Delivery :=
  branch.1.bind (delivery? branch.2)

/-- The deliveries in the order of their indices, if each of `count` indices occurs and no more are
there. -/
def inOrder (deliveries : List Delivery) (count : Nat) : Option (List (List String × Dataflow)) :=
  if deliveries.length = count then
    (List.range count).mapM fun index =>
      (deliveries.find? (·.index == index)).map fun d => (d.keys, d.value)
  else none

/-- What follows a package. The cross product belongs to a join. -/
def afterPackage (kind : PackageKind) (count : Nat) (ops : List LocalOp) : Option (List LocalOp) :=
  match kind, ops with
  | .join _, .flatten flattened :: rest => if flattened = count then some rest else none
  | .join _, _ => none
  | _, ops => some ops

/-- What one operation after the shuffle makes of the groups or records before it. -/
def reduceStep (x : Dataflow) (op : LocalOp) : Option Dataflow :=
  match op with
  | .aggregate keys calls .full => some (.aggregate keys calls x)
  | op => (RecordOp.ofLocal? op).map fun r => .each r x

def ofReduce (deliveries : List Delivery) : List LocalOp → Option Dataflow
  | .package kind count _ :: ops => do
    let inputs ← inOrder deliveries count
    let rest ← afterPackage kind count ops
    rest.foldlM reduceStep (.shuffle kind inputs)
  | _ => none

/-- What comes out of the two phases of a job, given what each branch starts with. -/
def ofPhases (branches : List (Option Dataflow × List LocalOp)) (reduce : List LocalOp) :
    Option Dataflow :=
  match reduce, branches with
  | [], [(start, ops)] => start.bind fun x => throughRecords x ops
  | [], _ => none
  | reduce, branches => do
    let deliveries ← branches.mapM deliveryOf
    ofReduce deliveries reduce

end Dataflow

/-- What an operator of a plan computes, unfolded over at most so many operators. -/
def Plan.meaningWithin (p : Plan) : Nat → Nat → Option Dataflow
  | 0, _ => none
  | depth + 1, id => do
    let op ← p.op? id
    let inputs ← op.inputs.mapM (p.meaningWithin depth)
    Dataflow.ofOperator? op.kind inputs

/-- What an operator of a plan computes. -/
def Plan.meaning (p : Plan) (id : Nat) : Option Dataflow := p.meaningWithin p.ops.length id

/-- What a branch starts with, given what each node writes. -/
def Source.meaning (outputs : Nat → Option Dataflow) : Source → Option Dataflow
  | .file location schema => some (.load location schema)
  | .temp node _ => outputs node

/-- What a node writes, given what each node it reads writes. -/
def Node.meaning (outputs : Nat → Option Dataflow) (n : Node) : Option Dataflow :=
  Dataflow.ofPhases (n.map.map fun b => (b.source.meaning outputs, b.ops)) n.reduce

/-- What a node of a graph writes, unfolded over at most so many nodes. -/
def Graph.meaningWithin (g : Graph) : Nat → Nat → Option Dataflow
  | 0, _ => none
  | depth + 1, id => (g.node? id).bind (Node.meaning (g.meaningWithin depth))

/-- What a node of a graph writes. -/
def Graph.meaning (g : Graph) (id : Nat) : Option Dataflow := g.meaningWithin g.nodes.length id

end Wavefront
