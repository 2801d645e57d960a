import Wavefront.Graph.Basic
import Wavefront.Optimization.Revision
set_option autoImplicit false

/-!
Schemas and key types. Schemas flow through the nodes in topological order: a branch starts with the
schema of its file or with what the node it reads writes. The type of a shuffle key follows from the
columns that the rearranges key on; branches that disagree leave it at bytes.
-/
namespace Wavefront.Optimization

/-- What a branch brings to the shuffle. -/
structure BranchFacts where
  schema : Option Schema
  /-- The keys of the rearrange, if the branch has one. -/
  keys : Option (List String)
deriving DecidableEq, Repr

/-- The schema after an operation on single records. A partial aggregate is left out of account. -/
def recordSchema (op : LocalOp) (schema : Option Schema) : Option Schema :=
  match op with
  | .project columns => schema.bind (·.project? columns)
  | .stream _ outputSchema => outputSchema
  | _ => schema

/-- The facts after one more operation of a branch. -/
def BranchFacts.step (facts : BranchFacts) (op : LocalOp) : BranchFacts :=
  match op with
  | .rearrange _ keys => { facts with keys := some keys }
  | op => { facts with schema := recordSchema op facts.schema }

/-- The schema a source brings, given what each node writes. -/
def sourceSchema (outputs : List (Option Schema)) : Source → Option Schema
  | .file _ schema => schema
  | .temp node _ => (outputs[node]?).join

/-- What a branch brings to the shuffle, given what each node writes. -/
def branchFacts (outputs : List (Option Schema)) (b : Branch) : BranchFacts :=
  b.ops.foldl BranchFacts.step ⟨sourceSchema outputs b.source, none⟩

/-- The kind of the first package of a reduce plan. -/
def packageKind? (reduce : List LocalOp) : Option PackageKind :=
  reduce.findSome? fun
    | .package kind _ _ => some kind
    | .joinPackage _ joinType _ _ _ => some (.join joinType)
    | _ => none

def keyTypeOf (kind : Option PackageKind) (schema : Option Schema) (keys : List String) : KeyType :=
  if kind = some .distinct then .tuple
  else match keys with
    | [] => .utf8
    | [key] => ((schema.bind (·.field? key)).map fun f => KeyType.ofDataType f.dataType).getD .bytes
    | _ => .tuple

/-- One type for all branches that shuffle. -/
def commonKeyType : List KeyType → Option KeyType
  | [] => none
  | first :: rest => some (if rest.all (· == first) then first else .bytes)

def keyFields? (value : Schema) (keys : List String) : Option (List Field) := keys.mapM value.field?

/-- The schema of groups: the keys, then one bag an input. -/
def groupedSchema (keys : List String) (value : Option Schema) (inputs : Nat) : Option Schema := do
  let keyFields ← if keys.isEmpty then some [⟨"group", .utf8, false⟩] else value.bind (keyFields? · keys)
  let bags := (List.range inputs).map fun i => ⟨"values_" ++ toString i, .binary, true⟩
  return ⟨keyFields ++ bags⟩

def callType? (value : Schema) (call : AggregateCall) : Option DataType :=
  let column := call.column.bind value.field?
  match call.function with
  | .count | .countDistinct => some .int64
  | .avg => some .float64
  | .sum => some (if (column.map (·.dataType.isFloat)).getD false then .float64 else .int64)
  | .min | .max => column.map Field.dataType
  | .collect => some .binary

/-- The schema of computed groups: the keys, then one column a call. -/
def aggregateSchema (keys : List String) (calls : List AggregateCall) (value : Option Schema) :
    Option Schema := do
  let value ← value
  let keyFields ← keyFields? value keys
  let callFields ← calls.mapM fun call =>
    (callType? value call).map fun dataType => ⟨call.resultName, dataType, true⟩
  return ⟨keyFields ++ callFields⟩

/-- The schema after an operation of the reduce plan. -/
def reduceStep (branches : List BranchFacts) (schema : Option Schema) (op : LocalOp) : Option Schema :=
  let value := branches.head?.bind BranchFacts.schema
  match op with
  | .package kind inputs _ =>
    match kind with
    | .group | .coGroup =>
      groupedSchema ((branches.head?.bind BranchFacts.keys).getD []) value inputs
    | .distinct => value
    | .join _ => none
  | .flatten _ | .joinPackage .. => (branches.mapM BranchFacts.schema).map Schema.concat
  | .aggregate keys calls phase =>
    match phase with
    | .full | .final => aggregateSchema keys calls value
    | .initial | .intermediate => none
  | op => recordSchema op schema

def outputSchema (reduce : List LocalOp) (branches : List BranchFacts) : Option Schema :=
  if reduce.isEmpty then branches.head?.bind BranchFacts.schema
  else reduce.foldl (reduceStep branches) none

/-- The annotations of a node, given what each node before it writes. -/
def schemaAnnotations (outputs : List (Option Schema)) (n : Node) : NodeAnnotations :=
  let branches := n.map.map (branchFacts outputs)
  let kind := packageKind? n.reduce
  { n.annotations with
    keyType := commonKeyType (branches.filterMap fun b => b.keys.map (keyTypeOf kind b.schema))
    outputSchema := outputSchema n.reduce branches }

/-- The nodes, and what those that the flow has passed write. -/
structure Flow where
  nodes : List Node
  outputs : List (Option Schema)
deriving DecidableEq, Repr

/-- Lets the flow pass the nodes of a list. -/
def Flow.through (s : Flow) : List Nat → Revision Flow
  | [] => .done s
  | id :: rest =>
    match s.nodes[id]? with
    | none => ⟨s, some (.invariant (.missingNode id))⟩
    | some n =>
      let annotations := schemaAnnotations s.outputs n
      Flow.through ⟨s.nodes.set id { n with annotations }, s.outputs.set id annotations.outputSchema⟩ rest

/-- Annotates all nodes of a graph with key type and schema. -/
def discoverKeyTypes (g : Graph) : Revision Graph :=
  match g.topologicalOrder with
  | .error fault => ⟨g, some fault⟩
  | .ok order =>
    (Flow.through ⟨g.nodes, g.nodes.map fun _ => none⟩ order).map fun s => { g with nodes := s.nodes }

end Wavefront.Optimization
