import Wavefront.Schema
set_option autoImplicit false

/-!
The operators a dataflow plan is made of, and their document form: an object whose member `op` names the
operator and stands first.
-/
namespace Wavefront

/-- Which unmatched records a join keeps. -/
inductive JoinType where
  | inner | left | right | full
deriving DecidableEq, Repr, Inhabited

namespace JoinType

def name : JoinType → String
  | .inner => "inner"
  | .left => "left"
  | .right => "right"
  | .full => "full"

def title : JoinType → String
  | .inner => "Inner"
  | .left => "Left"
  | .right => "Right"
  | .full => "Full"

def all : List JoinType := [.inner, .left, .right, .full]

def toJson (t : JoinType) : Json := .str t.name

def ofJson? (tagged : Bool) (j : Json) : Option JoinType :=
  Json.bareCase? (all.map fun t => (t.name, t)) tagged j

end JoinType

/-- A function over the values of a group. -/
inductive AggregateFunction where
  | count | sum | avg | min | max | countDistinct | collect
deriving DecidableEq, Repr, Inhabited

namespace AggregateFunction

/-- An algebraic function can be computed from partial results, so part of the work can be done before
the shuffle. -/
def isAlgebraic : AggregateFunction → Bool
  | .count | .sum | .avg | .min | .max => true
  | .countDistinct | .collect => false

def key : AggregateFunction → String
  | .count => "count"
  | .sum => "sum"
  | .avg => "avg"
  | .min => "min"
  | .max => "max"
  | .countDistinct => "count_distinct"
  | .collect => "collect"

def name : AggregateFunction → String
  | .count => "COUNT"
  | .sum => "SUM"
  | .avg => "AVG"
  | .min => "MIN"
  | .max => "MAX"
  | .countDistinct => "COUNT_DISTINCT"
  | .collect => "COLLECT"

def all : List AggregateFunction := [.count, .sum, .avg, .min, .max, .countDistinct, .collect]

def toJson (f : AggregateFunction) : Json := .str f.key

def ofJson? (tagged : Bool) (j : Json) : Option AggregateFunction :=
  Json.bareCase? (all.map fun f => (f.key, f)) tagged j

end AggregateFunction

/-- A function applied to a column, or to whole records where no column is named. -/
structure AggregateCall where
  function : AggregateFunction
  column : Option String
  resultName : String
deriving DecidableEq, Repr, Inhabited

namespace AggregateCall

def display (c : AggregateCall) : String :=
  c.function.name ++ "(" ++ c.column.getD "*" ++ ") AS " ++ c.resultName

def toJson (c : AggregateCall) : Json :=
  .obj [("function", c.function.toJson), ("column", Json.option .str c.column), ("alias", .str c.resultName)]

def ofJson? (tagged : Bool) (j : Json) : Option AggregateCall := do
  let members ← Json.record? ["function", "column", "alias"] j
  return {
    function := ← Json.field? members "function" (AggregateFunction.ofJson? tagged)
    column := ← Json.optional? members "column" Json.text?
    resultName := ← Json.field? members "alias" Json.text? }

end AggregateCall

inductive Operator where
  /-- Reads records from a location. -/
  | load (location : String) (schema : Option Schema)
  /-- Keeps the records for which a predicate holds. -/
  | filter (predicate : String)
  /-- Keeps some columns. -/
  | project (columns : List String)
  /-- Sends the records through an external command. -/
  | stream (command : String) (outputSchema : Option Schema)
  /-- Groups one input by its keys; without keys all records form one group. -/
  | group (keys : List String)
  /-- Groups several inputs, each by its own keys, with one bag of records an input. -/
  | coGroup (keys : List (List String))
  /-- Joins several inputs on equal keys. -/
  | join (keys : List (List String)) (joinType : JoinType)
  /-- Computes the calls for each group of the group it follows. -/
  | aggregate (calls : List AggregateCall)
  /-- Keeps one copy of each record. -/
  | distinct
  /-- Keeps the first `n` records. -/
  | limit (n : Nat)
  /-- Writes the records to a location. -/
  | store (location : String) (format : String)
deriving DecidableEq, Repr, Inhabited

namespace Operator

def name : Operator → String
  | .load .. => "load"
  | .filter .. => "filter"
  | .project .. => "project"
  | .stream .. => "stream"
  | .group .. => "group"
  | .coGroup .. => "cogroup"
  | .join .. => "join"
  | .aggregate .. => "aggregate"
  | .distinct => "distinct"
  | .limit .. => "limit"
  | .store .. => "store"

def isStore : Operator → Bool
  | .store .. => true
  | _ => false

def isGroup : Operator → Bool
  | .group .. => true
  | _ => false

/-- Whether an operator may have `count` inputs: a load has none, a cogroup and a join have two or more,
every other operator has one. -/
def admits (op : Operator) (count : Nat) : Bool :=
  match op with
  | .load .. => count == 0
  | .coGroup .. | .join .. => 2 ≤ count
  | _ => count == 1

def toJson : Operator → Json
  | .load location schema =>
    .obj [("op", .str "load"), ("location", .str location), ("schema", Json.option Schema.toJson schema)]
  | .filter predicate => .obj [("op", .str "filter"), ("predicate", .str predicate)]
  | .project columns => .obj [("op", .str "project"), ("columns", Json.strings columns)]
  | .stream command outputSchema =>
    .obj [("op", .str "stream"), ("command", .str command),
      ("output_schema", Json.option Schema.toJson outputSchema)]
  | .group keys => .obj [("op", .str "group"), ("keys", Json.strings keys)]
  | .coGroup keys => .obj [("op", .str "co_group"), ("keys", Json.list Json.strings keys)]
  | .join keys joinType =>
    .obj [("op", .str "join"), ("keys", Json.list Json.strings keys), ("join_type", joinType.toJson)]
  | .aggregate calls => .obj [("op", .str "aggregate"), ("calls", Json.list AggregateCall.toJson calls)]
  | .distinct => .obj [("op", .str "distinct")]
  | .limit n => .obj [("op", .str "limit"), ("n", Json.nat n)]
  | .store location format =>
    .obj [("op", .str "store"), ("location", .str location), ("format", .str format)]

/-- The name of the operator a document form speaks of, and the rest: the members of an object, or the
elements of an array after the first. -/
def tagged? : Json → Option (String × Json)
  | .obj members => (Json.field? members "op" Json.text?).map fun name => (name, .obj members)
  | .arr (.str name :: rest) => some (name, .arr rest)
  | _ => none

def ofPayload? (name : String) (j : Json) : Option Operator :=
  match name with
  | "load" => do
    let members ← Json.recordUpTo? 1 ["location", "schema"] j
    return .load (← Json.field? members "location" Json.text?)
      (← Json.optional? members "schema" (Schema.ofJson? true))
  | "filter" => do
    let members ← Json.record? ["predicate"] j
    return .filter (← Json.field? members "predicate" Json.text?)
  | "project" => do
    let members ← Json.record? ["columns"] j
    return .project (← Json.field? members "columns" Json.strings?)
  | "stream" => do
    let members ← Json.recordUpTo? 1 ["command", "output_schema"] j
    return .stream (← Json.field? members "command" Json.text?)
      (← Json.optional? members "output_schema" (Schema.ofJson? true))
  | "group" => do
    let members ← Json.record? ["keys"] j
    return .group (← Json.field? members "keys" Json.strings?)
  | "co_group" => do
    let members ← Json.record? ["keys"] j
    return .coGroup (← Json.field? members "keys" (Json.list? Json.strings?))
  | "join" => do
    let members ← Json.record? ["keys", "join_type"] j
    return .join (← Json.field? members "keys" (Json.list? Json.strings?))
      (← Json.field? members "join_type" (JoinType.ofJson? true))
  | "aggregate" => do
    let members ← Json.record? ["calls"] j
    return .aggregate (← Json.field? members "calls" (Json.list? (AggregateCall.ofJson? true)))
  | "distinct" => (Json.record? [] j).map fun _ => .distinct
  | "limit" => do
    let members ← Json.record? ["n"] j
    return .limit (← Json.field? members "n" Json.word?)
  | "store" => do
    let members ← Json.record? ["location", "format"] j
    return .store (← Json.field? members "location" Json.text?)
      (← Json.field? members "format" Json.text?)
  | _ => none

def ofJson? (j : Json) : Option Operator := do
  let (name, payload) ← tagged? j
  ofPayload? name payload

end Operator

end Wavefront
