import Wavefront.Graph.LocalOp
import Wavefront.Label
set_option autoImplicit false

/-!
The nodes of a job graph. A node becomes one job of the cluster: its map branches read files or what
other nodes wrote, a combine plan may thin the records out before the shuffle, and the reduce plan, if
there is one, works on the shuffled groups.
-/
namespace Wavefront

/-- Where a map branch reads. -/
inductive Source where
  | file (location : String) (schema : Option Schema)
  /-- The temporary output of another node. -/
  | temp (node : Nat) (location : String)
deriving DecidableEq, Repr, Inhabited

/-- An input of a node and what is done to its records before the shuffle. -/
structure Branch where
  source : Source
  ops : List LocalOp
deriving DecidableEq, Repr, Inhabited

/-- What is done to the records of a key on the map side, so many of them at a time. -/
structure CombinePlan where
  ops : List LocalOp
  chunkSize : Nat
deriving DecidableEq, Repr, Inhabited

/-- Where a node writes. -/
inductive NodeOutput where
  | final (location format : String)
  | temporary (location : String)
deriving DecidableEq, Repr, Inhabited

/-- The type of a shuffle key; bytes stand for a type that is unknown or not the same for all inputs. -/
inductive KeyType where
  | boolean | int32 | int64 | float32 | float64 | utf8 | tuple | bytes
deriving DecidableEq, Repr, Inhabited

/-- The phases of a node that run an external command. -/
structure StreamMarker where
  map : Bool
  combine : Bool
  reduce : Bool
deriving DecidableEq, Repr, Inhabited

/-- What has been found out about a node. -/
structure NodeAnnotations where
  stream : StreamMarker
  keyType : Option KeyType
  outputSchema : Option Schema
deriving DecidableEq, Repr, Inhabited

/-- A node of a job graph. Without reduce operations it has no shuffle. -/
structure Node where
  id : Nat
  map : List Branch
  combine : Option CombinePlan
  reduce : List LocalOp
  output : NodeOutput
  parallelism : Option Nat
  annotations : NodeAnnotations
deriving DecidableEq, Repr, Inhabited

namespace Source

def location : Source → String
  | .file location _ => location
  | .temp _ location => location

def producer? : Source → Option Nat
  | .file .. => none
  | .temp node _ => some node

def toJson : Source → Json
  | .file location schema =>
    .obj [("File", .obj [("location", .str location), ("schema", Json.option Schema.toJson schema)])]
  | .temp node location =>
    .obj [("Temp", .obj [("node", Json.nat node), ("location", .str location)])]

def ofJson? (j : Json) : Option Source :=
  match Json.case? j with
  | some ("File", some payload) => do
    let members ← Json.record? ["location", "schema"] payload
    return .file (← Json.field? members "location" Json.text?)
      (← Json.optional? members "schema" (Schema.ofJson? false))
  | some ("Temp", some payload) => do
    let members ← Json.record? ["node", "location"] payload
    return .temp (← Json.field? members "node" Json.word?)
      (← Json.field? members "location" Json.text?)
  | _ => none

end Source

namespace Branch

def toJson (b : Branch) : Json :=
  .obj [("source", b.source.toJson), ("ops", Json.list LocalOp.toJson b.ops)]

def ofJson? (j : Json) : Option Branch := do
  let members ← Json.record? ["source", "ops"] j
  return {
    source := ← Json.field? members "source" Source.ofJson?
    ops := ← Json.field? members "ops" (Json.list? LocalOp.ofJson?) }

end Branch

namespace CombinePlan

def toJson (c : CombinePlan) : Json :=
  .obj [("ops", Json.list LocalOp.toJson c.ops), ("chunk_size", Json.nat c.chunkSize)]

def ofJson? (j : Json) : Option CombinePlan := do
  let members ← Json.record? ["ops", "chunk_size"] j
  return {
    ops := ← Json.field? members "ops" (Json.list? LocalOp.ofJson?)
    chunkSize := ← Json.field? members "chunk_size" Json.word? }

end CombinePlan

namespace NodeOutput

def location : NodeOutput → String
  | .final location _ => location
  | .temporary location => location

/-- Whether an output is read back by other nodes only. -/
def isTemporary : NodeOutput → Bool
  | .final .. => false
  | .temporary _ => true

def toJson : NodeOutput → Json
  | .final location format =>
    .obj [("Final", .obj [("location", .str location), ("format", .str format)])]
  | .temporary location => .obj [("Temporary", .obj [("location", .str location)])]

def ofJson? (j : Json) : Option NodeOutput :=
  match Json.case? j with
  | some ("Final", some payload) => do
    let members ← Json.record? ["location", "format"] payload
    return .final (← Json.field? members "location" Json.text?)
      (← Json.field? members "format" Json.text?)
  | some ("Temporary", some payload) => do
    let members ← Json.record? ["location"] payload
    return .temporary (← Json.field? members "location" Json.text?)
  | _ => none

end NodeOutput

namespace KeyType

/-- The type of keys whose only column has a given type. -/
def ofDataType : DataType → KeyType
  | .boolean => .boolean
  | .int32 => .int32
  | .int64 => .int64
  | .float32 => .float32
  | .float64 => .float64
  | .utf8 => .utf8
  | .binary => .bytes

def name : KeyType → String
  | .boolean => "Boolean"
  | .int32 => "Int32"
  | .int64 => "Int64"
  | .float32 => "Float32"
  | .float64 => "Float64"
  | .utf8 => "Utf8"
  | .tuple => "Tuple"
  | .bytes => "Bytes"

def all : List KeyType := [.boolean, .int32, .int64, .float32, .float64, .utf8, .tuple, .bytes]

def toJson (t : KeyType) : Json := .str t.name

def ofJson? (j : Json) : Option KeyType := Json.bareCase? (all.map fun t => (t.name, t)) false j

end KeyType

namespace StreamMarker

/-- The marker of a node without external commands. -/
def none : StreamMarker := ⟨false, false, false⟩

/-- Whether any phase runs an external command. -/
def any (m : StreamMarker) : Bool := m.map || m.combine || m.reduce

def toJson (m : StreamMarker) : Json :=
  .obj [("map", .bool m.map), ("combine", .bool m.combine), ("reduce", .bool m.reduce)]

def ofJson? (j : Json) : Option StreamMarker := do
  let members ← Json.record? ["map", "combine", "reduce"] j
  return {
    map := ← Json.field? members "map" Json.bool?
    combine := ← Json.field? members "combine" Json.bool?
    reduce := ← Json.field? members "reduce" Json.bool? }

end StreamMarker

namespace NodeAnnotations

/-- The annotations of a node of which nothing has been found out. -/
def none : NodeAnnotations := ⟨StreamMarker.none, .none, .none⟩

def toJson (a : NodeAnnotations) : Json :=
  .obj [("stream", a.stream.toJson), ("key_type", Json.option KeyType.toJson a.keyType),
    ("output_schema", Json.option Schema.toJson a.outputSchema)]

def ofJson? (j : Json) : Option NodeAnnotations := do
  let members ← Json.record? ["stream", "key_type", "output_schema"] j
  return {
    stream := ← Json.field? members "stream" StreamMarker.ofJson?
    keyType := ← Json.optional? members "key_type" KeyType.ofJson?
    outputSchema := ← Json.optional? members "output_schema" (Schema.ofJson? false) }

end NodeAnnotations

namespace Node

def isMapOnly (n : Node) : Bool := n.reduce.isEmpty

/-- The nodes whose outputs the branches read, branch by branch. -/
def producers (n : Node) : List Nat := n.map.filterMap (·.source.producer?)

/-- The operations of the combine plan, if there is one. -/
def combineOps (n : Node) : List LocalOp := (n.combine.map CombinePlan.ops).getD []

/-- All operations, phase by phase. -/
def ops (n : Node) : List LocalOp := n.map.flatMap Branch.ops ++ n.combineOps ++ n.reduce

def toJson (n : Node) : Json :=
  .obj [("id", Json.nat n.id), ("map", Json.list Branch.toJson n.map),
    ("combine", Json.option CombinePlan.toJson n.combine), ("reduce", Json.list LocalOp.toJson n.reduce),
    ("output", n.output.toJson), ("parallelism", Json.option Json.nat n.parallelism),
    ("annotations", n.annotations.toJson)]

def ofJson? (j : Json) : Option Node := do
  let members ←
    Json.record? ["id", "map", "combine", "reduce", "output", "parallelism", "annotations"] j
  return {
    id := ← Json.field? members "id" Json.word?
    map := ← Json.field? members "map" (Json.list? Branch.ofJson?)
    combine := ← Json.optional? members "combine" CombinePlan.ofJson?
    reduce := ← Json.field? members "reduce" (Json.list? LocalOp.ofJson?)
    output := ← Json.field? members "output" NodeOutput.ofJson?
    parallelism := ← Json.optional? members "parallelism" Json.halfWord?
    annotations := ← Json.field? members "annotations" NodeAnnotations.ofJson? }

end Node

end Wavefront
