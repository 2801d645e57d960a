import Wavefront.Json.Value
import Wavefront.Text.Numeral
set_option autoImplicit false

/-!
Typed views of JSON values. A record may be written as an object, whose members stand in any order and
may include names that nobody asks for, or as the array of its fields in their order. A choice may be
written as the bare name of a case or as an object with the name as its only member.
-/
namespace Wavefront.Json
open Wavefront.Text

def text? : Json → Option String
  | .str s => some s
  | _ => none

def bool? : Json → Option Bool
  | .bool b => some b
  | _ => none

/-- A natural number below `bound`. -/
def natBelow? (bound : Nat) : Json → Option Nat
  | .num (.int (.ofNat n)) => if n < bound then some n else none
  | _ => none

/-- A natural number of 64 bits. -/
def word? (j : Json) : Option Nat := natBelow? wordBound j

/-- A natural number of 32 bits. -/
def halfWord? (j : Json) : Option Nat := natBelow? halfWordBound j

/-- A double; a whole number counts as one. -/
def float? : Json → Option Float
  | .num (.int (.ofNat n)) => some (Float.ofNat n)
  | .num (.int (.negSucc n)) => some (-Float.ofNat (n + 1))
  | .num (.float x) => some x
  | _ => none

def list? {α : Type} (decode : Json → Option α) : Json → Option (List α)
  | .arr items => items.mapM decode
  | _ => none

def strings? (j : Json) : Option (List String) := list? text? j

/-- `null`, or a value. -/
def option? {α : Type} (decode : Json → Option α) : Json → Option (Option α)
  | .null => some none
  | j => (decode j).map some

/-- The first member of a name. -/
def member (name : String) : List (String × Json) → Option Json
  | [] => none
  | (key, value) :: rest => if key = name then some value else member name rest

/-- The members of a record whose fields are `names`, the last `defaulted` of which the array form may
leave out. -/
def recordUpTo? (defaulted : Nat) (names : List String) : Json → Option (List (String × Json))
  | .obj members => some members
  | .arr items =>
    if items.length ≤ names.length ∧ names.length ≤ items.length + defaulted then
      some (names.zip items)
    else none
  | _ => none

/-- The members of a record whose fields are `names`. -/
def record? (names : List String) (j : Json) : Option (List (String × Json)) :=
  recordUpTo? 0 names j

/-- A field that must be there. -/
def field? {α : Type} (members : List (String × Json)) (name : String)
    (decode : Json → Option α) : Option α :=
  (member name members).bind decode

/-- A field whose absence means `null`. -/
def optional? {α : Type} (members : List (String × Json)) (name : String)
    (decode : Json → Option α) : Option (Option α) :=
  match member name members with
  | none => some none
  | some j => option? decode j

/-- A field with a value for its absence. -/
def withDefault? {α : Type} (members : List (String × Json)) (name : String)
    (decode : Json → Option α) (absent : α) : Option α :=
  match member name members with
  | none => some absent
  | some j => decode j

def case? : Json → Option (String × Option Json)
  | .str name => some (name, none)
  | .obj [(name, payload)] => some (name, some payload)
  | _ => none

/-- A case that carries nothing; it may carry `null`, and inside a tagged record also an object without
members. -/
def bareCase? {α : Type} (cases : List (String × α)) (tagged : Bool) (j : Json) : Option α :=
  match case? j with
  | some (name, none) => cases.lookup name
  | some (name, some .null) => cases.lookup name
  | some (name, some (.obj [])) => if tagged then cases.lookup name else none
  | _ => none

end Wavefront.Json
