import Wavefront.Document.Basic
import Wavefront.Yaml.Value
import Wavefront.Yaml.Walk
set_option autoImplicit false

/-!
Plan documents from text. The names of steps and the settings may be any scalars and count as they are
written; what an operator carries must be of its type, a text where a text is due. Keys that nobody
knows are passed over, a key that is known must not come twice.
-/
namespace Wavefront.Document
open Wavefront.Yaml

/-- The members of the known names, each of which may come once. -/
def known? {β : Type} (names : List String) : List (String × β) → Option (List (String × β))
  | [] => some []
  | (name, value) :: rest => do
    let others ← known? names rest
    if name ∉ names then return others
    else if (others.lookup name).isSome then none
    else return (name, value) :: others

/-- A member that must be there. -/
def field? {α : Type} (members : List (String × Value)) (name : String)
    (decode : Value → Option α) : Option α :=
  (members.lookup name).bind decode

/-- A member with a value for its absence. -/
def withDefault? {α : Type} (members : List (String × Value)) (name : String)
    (decode : Value → Option α) (absent : α) : Option α :=
  match members.lookup name with
  | none => some absent
  | some v => decode v

/-- A member whose absence means nothing. -/
def optional? {α : Type} (members : List (String × Value)) (name : String)
    (decode : Value → Option α) : Option (Option α) :=
  withDefault? members name (Value.option? decode) none

/-- The name of a key that stands for one of some names, itself or by its number among them. -/
def keyName? (names : List String) (key : Value) : Option String :=
  match key.nat? with
  | some n => some ((names[n]?).getD "")
  | none => key.text?

/-- The members of a record inside an operator: a mapping, or the sequence of its fields in their order,
of which the last `defaulted` may be left out. -/
def record? (defaulted : Nat) (names : List String) : Value → Option (List (String × Value))
  | .mapping entries => do
    known? names (← entries.mapM fun e => return (← keyName? names e.1, e.2))
  | .sequence items =>
    if items.length ≤ names.length ∧ names.length ≤ items.length + defaulted then
      some (names.zip items)
    else none
  | _ => none

/-- A case that carries nothing, by its name. As a mapping it may carry nothing expressly, and then its
number among the cases is as good as its name. -/
def case? {α : Type} (cases : List (String × α)) : Value → Option α
  | .mapping [(key, payload)] =>
    if payload.isVoid then (keyName? (cases.map (·.1)) key).bind (cases.lookup ·) else none
  | v => v.text?.bind (cases.lookup ·)

def texts? (v : Value) : Option (List String) := Value.list? Value.text? v

/-- The type of a name in a document; a name that is none means text. -/
def typeOfName (name : String) : DataType :=
  if name = "Boolean" ∨ name = "bool" then .boolean
  else if name = "Int32" ∨ name = "i32" then .int32
  else if name = "Int64" ∨ name = "i64" then .int64
  else if name = "Float32" ∨ name = "f32" then .float32
  else if name = "Float64" ∨ name = "f64" then .float64
  else if name = "Binary" ∨ name = "bytes" then .binary
  else .utf8

def column? (v : Value) : Option Field := do
  let members ← record? 1 ["name", "type", "nullable"] v
  return {
    name := ← field? members "name" Value.text?
    dataType := typeOfName (← field? members "type" Value.text?)
    nullable := ← withDefault? members "nullable" Value.bool? false }

def schema? (v : Value) : Option Schema := (Value.list? column? v).map Schema.mk

def call? (v : Value) : Option AggregateCall := do
  let members ← record? 0 ["function", "column", "alias"] v
  return {
    function := ← field? members "function" (case? (AggregateFunction.all.map fun f => (f.key, f)))
    column := ← optional? members "column" Value.text?
    resultName := ← field? members "alias" Value.text? }

def opNames : List String :=
  ["load", "filter", "project", "stream", "group", "cogroup", "join", "aggregate", "distinct", "limit",
    "store"]

/-- The operator that a value names, or that has its number. -/
def opName? (v : Value) : Option String :=
  match v.nat? with
  | some position => opNames[position]?
  | none => v.text?

def operator? (name : String) (entries : List (String × Value)) : Option Operator :=
  match name with
  | "load" => do
    let members ← known? ["location", "schema"] entries
    return .load (← field? members "location" Value.text?) (← optional? members "schema" schema?)
  | "filter" => do
    return .filter (← field? (← known? ["predicate"] entries) "predicate" Value.text?)
  | "project" => do return .project (← field? (← known? ["columns"] entries) "columns" texts?)
  | "stream" => do
    let members ← known? ["command", "output_schema"] entries
    return .stream (← field? members "command" Value.text?) (← optional? members "output_schema" schema?)
  | "group" => do return .group (← withDefault? (← known? ["keys"] entries) "keys" texts? [])
  | "cogroup" => do
    return .coGroup (← field? (← known? ["keys"] entries) "keys" (Value.list? texts?))
  | "join" => do
    let members ← known? ["keys", "join_type"] entries
    return .join (← field? members "keys" (Value.list? texts?))
      (← withDefault? members "join_type" (case? (JoinType.all.map fun t => (t.name, t))) .inner)
  | "aggregate" => do
    return .aggregate (← field? (← known? ["calls"] entries) "calls" (Value.list? call?))
  | "distinct" => some .distinct
  | "limit" => do
    return .limit (← field? (← known? ["n"] entries) "n" (Value.natBelow? Text.wordBound))
  | "store" => do
    let members ← known? ["location", "format"] entries
    return .store (← field? members "location" Value.text?)
      (← withDefault? members "format" Value.text? "csv")
  | _ => none

/-- Collections may stand in one another to this depth. -/
def depthLimit : Nat := 128

/-- The depth that is left below the entries of a step, which stand in a mapping in a sequence in the
mapping of the document. -/
def operatorDepth : Nat := depthLimit - 3

def field {α : Type} (members : List (String × Yaml.Node)) (name : String)
    (decode : Yaml.Node → Walk α) : Walk α := do
  decode (← Walk.ofOption (members.lookup name))

def withDefault {α : Type} (members : List (String × Yaml.Node)) (name : String)
    (decode : Yaml.Node → Walk α) (absent : α) : Walk α :=
  match members.lookup name with
  | none => pure absent
  | some n => decode n

def optional {α : Type} (members : List (String × Yaml.Node)) (name : String)
    (decode : Yaml.Node → Walk α) : Walk (Option α) :=
  withDefault members name (Yaml.Node.option decode) none

def list {α : Type} (decode : Yaml.Node → Walk α) (n : Yaml.Node) : Walk (List α) := do
  (← n.items).mapM decode

/-- The keys of a step that name no part of its operator. -/
def stepNames : List String := ["id", "input", "inputs"]

def step (n : Yaml.Node) : Walk PlanStep := do
  let entries ← n.members
  let members ← Walk.ofOption (known? stepNames entries)
  let id ← field members "id" Yaml.Node.text
  let input ← optional members "input" Yaml.Node.text
  let inputs ← withDefault members "inputs" (list Yaml.Node.text) []
  let carried ← (entries.filter (·.1 ∉ stepNames)).mapM fun e =>
    return (e.1, ← e.2.value operatorDepth)
  let name ← Walk.ofOption do field? (← known? ["op"] carried) "op" opName?
  return ⟨id, input, inputs, ← Walk.ofOption (operator? name carried)⟩

/-- Reads extra properties; of several with one name the last counts. -/
def properties (n : Yaml.Node) : Walk Properties := do
  return Properties.ofList (← (← n.members).mapM fun e => return (e.1, ← e.2.text))

def settings (n : Yaml.Node) : Walk ConfigOverlay := do
  let members ← Walk.ofOption (known? ["last_input_chunk_size", "disable_combiner", "poll_interval_ms",
    "temp_dir", "default_parallelism", "properties"] (← n.members))
  let number (name : String) (bound : Nat) : Walk (Option Nat) :=
    optional members name (Yaml.Node.natBelow bound)
  return {
    lastInputChunkSize := (← number "last_input_chunk_size" Text.wordBound).map .ofNat
    disableCombiner := ← optional members "disable_combiner" Yaml.Node.switch
    pollIntervalMs := (← number "poll_interval_ms" Text.wordBound).map .ofNat
    tempDir := ← optional members "temp_dir" Yaml.Node.text
    defaultParallelism := (← number "default_parallelism" Text.halfWordBound).map .ofNat
    properties := ← withDefault members "properties" properties Properties.empty }

def document (n : Yaml.Node) : Walk PlanDocument := do
  let members ← Walk.ofOption (known? ["config", "plan"] (← n.members))
  return ⟨← optional members "config" settings, ← field members "plan" (list step)⟩

end Wavefront.Document

namespace Wavefront.PlanDocument

def ofText? (s : String) : Option PlanDocument := do
  let t ← Yaml.Tree.ofText? s
  t.walk (Document.document t.root)

/-- The plan that a text describes, and the settings it asks for. -/
def load (s : String) : Except DocumentFault (Plan × ConfigOverlay) :=
  match ofText? s with
  | none => .error .unreadable
  | some d => d.resolve.map fun p => (p, d.overlay)

end Wavefront.PlanDocument
