import Wavefront.Plan.Operator
set_option autoImplicit false

/-!
The operations that run inside one phase of a job, record by record or group by group, and how they are
shown to people.
-/
namespace Wavefront

/-- Which step of an aggregation is done where: all of it in one place, or a record turned into a
partial result before the shuffle, partial results merged, and the last merge that finishes. -/
inductive AggregatePhase where
  | full | initial | intermediate | final
deriving DecidableEq, Repr, Inhabited

/-- What a package regroups shuffled records for. -/
inductive PackageKind where
  | group | coGroup | join (joinType : JoinType) | distinct
deriving DecidableEq, Repr, Inhabited

/-- Whether the values of a package still hold their key fields. -/
inductive ValueLayout where
  | full | keyStripped
deriving DecidableEq, Repr, Inhabited

/-- What a package knows of one of its inputs. -/
structure KeyInfo where
  index : Nat
  keys : List String
  stripKeyFromValue : Bool
deriving DecidableEq, Repr, Inhabited

/-- What a package knows of its inputs. -/
structure PackageAnnotation where
  inputs : List KeyInfo
  layout : ValueLayout
deriving DecidableEq, Repr, Inhabited

/-- An operation inside a phase. -/
inductive LocalOp where
  | filter (predicate : String)
  | project (columns : List String)
  | stream (command : String) (outputSchema : Option Schema)
  | limit (n : Nat)
  /-- Emits each record with its key and the index of its input. -/
  | rearrange (index : Nat) (keys : List String)
  /-- Collects the records of a key, one bag an input. -/
  | package (kind : PackageKind) (inputs : Nat) (known : Option PackageAnnotation)
  /-- The cross product of the bags of a join. -/
  | flatten (inputs : Nat)
  /-- Package and cross product in one; the records of one input pass by in chunks. -/
  | joinPackage (inputs : Nat) (joinType : JoinType) (chunkSize streamedInput : Nat)
      (known : Option PackageAnnotation)
  | aggregate (keys : List String) (calls : List AggregateCall) (phase : AggregatePhase)
deriving DecidableEq, Repr, Inhabited

namespace AggregatePhase

def name : AggregatePhase → String
  | .full => "Full"
  | .initial => "Initial"
  | .intermediate => "Intermediate"
  | .final => "Final"

def all : List AggregatePhase := [.full, .initial, .intermediate, .final]

def toJson (p : AggregatePhase) : Json := .str p.name

def ofJson? (j : Json) : Option AggregatePhase := Json.bareCase? (all.map fun p => (p.name, p)) false j

end AggregatePhase

namespace PackageKind

def display : PackageKind → String
  | .group => "Group"
  | .coGroup => "CoGroup"
  | .join joinType => "Join(" ++ joinType.title ++ ")"
  | .distinct => "Distinct"

def toJson : PackageKind → Json
  | .group => .str "Group"
  | .coGroup => .str "CoGroup"
  | .join joinType => .obj [("Join", joinType.toJson)]
  | .distinct => .str "Distinct"

def ofJson? (j : Json) : Option PackageKind :=
  match Json.case? j with
  | some ("Join", some payload) => (JoinType.ofJson? false payload).map .join
  | _ => Json.bareCase? [("Group", .group), ("CoGroup", .coGroup), ("Distinct", .distinct)] false j

end PackageKind

namespace ValueLayout

def toJson : ValueLayout → Json
  | .full => .str "Full"
  | .keyStripped => .str "KeyStripped"

def ofJson? (j : Json) : Option ValueLayout :=
  Json.bareCase? [("Full", .full), ("KeyStripped", .keyStripped)] false j

end ValueLayout

namespace KeyInfo

/-- The document form of what is known of an input. -/
def toJson (k : KeyInfo) : Json :=
  .obj [("index", Json.nat k.index), ("keys", Json.strings k.keys),
    ("strip_key_from_value", .bool k.stripKeyFromValue)]

/-- Reads the document form of what is known of an input. -/
def ofJson? (j : Json) : Option KeyInfo := do
  let members ← Json.record? ["index", "keys", "strip_key_from_value"] j
  return {
    index := ← Json.field? members "index" Json.word?
    keys := ← Json.field? members "keys" Json.strings?
    stripKeyFromValue := ← Json.field? members "strip_key_from_value" Json.bool? }

end KeyInfo

namespace PackageAnnotation

/-- The document form of what is known of the inputs. -/
def toJson (a : PackageAnnotation) : Json :=
  .obj [("inputs", Json.list KeyInfo.toJson a.inputs), ("layout", a.layout.toJson)]

/-- Reads the document form of what is known of the inputs. -/
def ofJson? (j : Json) : Option PackageAnnotation := do
  let members ← Json.record? ["inputs", "layout"] j
  return {
    inputs := ← Json.field? members "inputs" (Json.list? KeyInfo.ofJson?)
    layout := ← Json.field? members "layout" ValueLayout.ofJson? }

end PackageAnnotation

/-- Key columns as they are shown to people; without columns all records share one key. -/
def keysDisplay (keys : List String) : String :=
  if keys.isEmpty then "all" else String.intercalate "," keys

namespace LocalOp

def isStream : LocalOp → Bool
  | .stream .. => true
  | _ => false

def isRearrange : LocalOp → Bool
  | .rearrange .. => true
  | _ => false

def display : LocalOp → String
  | .filter predicate => "Filter[" ++ predicate ++ "]"
  | .project columns => "Project[" ++ String.intercalate "," columns ++ "]"
  | .stream command _ => "Stream[" ++ command ++ "]"
  | .limit n => "Limit[" ++ toString n ++ "]"
  | .rearrange index keys => "LocalRearrange[" ++ toString index ++ "] keys=(" ++ keysDisplay keys ++ ")"
  | .package kind inputs _ => "Package[" ++ kind.display ++ "] inputs=" ++ toString inputs
  | .flatten inputs => "JoinFlatten inputs=" ++ toString inputs
  | .joinPackage inputs joinType chunkSize streamedInput _ =>
    "JoinPackage[" ++ joinType.title ++ "] inputs=" ++ toString inputs ++ " streamed=" ++
      toString streamedInput ++ " chunk=" ++ toString chunkSize
  | .aggregate keys calls phase =>
    "Aggregate[" ++ phase.name ++ "] keys=(" ++ keysDisplay keys ++ ") " ++
      String.intercalate ", " (calls.map AggregateCall.display)

/-- The document form of an operation: an object whose only member names it. -/
def toJson : LocalOp → Json
  | .filter predicate => .obj [("Filter", .obj [("predicate", .str predicate)])]
  | .project columns => .obj [("Project", .obj [("columns", Json.strings columns)])]
  | .stream command outputSchema =>
    .obj [("Stream", .obj [("command", .str command),
      ("output_schema", Json.option Schema.toJson outputSchema)])]
  | .limit n => .obj [("Limit", .obj [("n", Json.nat n)])]
  | .rearrange index keys =>
    .obj [("LocalRearrange", .obj [("index", Json.nat index), ("keys", Json.strings keys)])]
  | .package kind inputs known =>
    .obj [("Package", .obj [("kind", kind.toJson), ("inputs", Json.nat inputs),
      ("annotation", Json.option PackageAnnotation.toJson known)])]
  | .flatten inputs => .obj [("JoinFlatten", .obj [("inputs", Json.nat inputs)])]
  | .joinPackage inputs joinType chunkSize streamedInput known =>
    .obj [("JoinPackage", .obj [("inputs", Json.nat inputs), ("join_type", joinType.toJson),
      ("chunk_size", Json.nat chunkSize), ("streamed_input", Json.nat streamedInput),
      ("annotation", Json.option PackageAnnotation.toJson known)])]
  | .aggregate keys calls phase =>
    .obj [("Aggregate", .obj [("keys", Json.strings keys),
      ("calls", Json.list AggregateCall.toJson calls), ("phase", phase.toJson)])]

def ofPayload? (name : String) (j : Json) : Option LocalOp :=
  match name with
  | "Filter" => do
    let members ← Json.record? ["predicate"] j
    return .filter (← Json.field? members "predicate" Json.text?)
  | "Project" => do
    let members ← Json.record? ["columns"] j
    return .project (← Json.field? members "columns" Json.strings?)
  | "Stream" => do
    let members ← Json.record? ["command", "output_schema"] j
    return .stream (← Json.field? members "command" Json.text?)
      (← Json.optional? members "output_schema" (Schema.ofJson? false))
  | "Limit" => do
    let members ← Json.record? ["n"] j
    return .limit (← Json.field? members "n" Json.word?)
  | "LocalRearrange" => do
    let members ← Json.record? ["index", "keys"] j
    return .rearrange (← Json.field? members "index" Json.word?)
      (← Json.field? members "keys" Json.strings?)
  | "Package" => do
    let members ← Json.record? ["kind", "inputs", "annotation"] j
    return .package (← Json.field? members "kind" PackageKind.ofJson?)
      (← Json.field? members "inputs" Json.word?)
      (← Json.optional? members "annotation" PackageAnnotation.ofJson?)
  | "JoinFlatten" => do
    let members ← Json.record? ["inputs"] j
    return .flatten (← Json.field? members "inputs" Json.word?)
  | "JoinPackage" => do
    let members ←
      Json.record? ["inputs", "join_type", "chunk_size", "streamed_input", "annotation"] j
    return .joinPackage (← Json.field? members "inputs" Json.word?)
      (← Json.field? members "join_type" (JoinType.ofJson? false))
      (← Json.field? members "chunk_size" Json.word?)
      (← Json.field? members "streamed_input" Json.word?)
      (← Json.optional? members "annotation" PackageAnnotation.ofJson?)
  | "Aggregate" => do
    let members ← Json.record? ["keys", "calls", "phase"] j
    return .aggregate (← Json.field? members "keys" Json.strings?)
      (← Json.field? members "calls" (Json.list? (AggregateCall.ofJson? false)))
      (← Json.field? members "phase" AggregatePhase.ofJson?)
  | _ => none

def ofJson? (j : Json) : Option LocalOp :=
  match Json.case? j with
  | some (name, some payload) => ofPayload? name payload
  | _ => none

end LocalOp

end Wavefront
