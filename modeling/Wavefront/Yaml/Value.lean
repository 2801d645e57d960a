import Wavefront.Yaml.Meaning
import Wavefront.Yaml.Tree
set_option autoImplicit false

/-!
Values, in which the meaning of each scalar is settled and every reference is followed. A tag must fit what
it stands on.
-/
namespace Wavefront.Yaml

inductive Value where
  | null
  | bool (value : Bool)
  | nat (value : Nat)
  /-- A whole number with a minus sign. -/
  | negative (magnitude : Nat)
  | fraction
  | text (value : String)
  | sequence (items : List Value)
  | mapping (entries : List (Value × Value))
deriving Repr

/-- The value of a text of a meaning. Wide numbers have none. -/
def Meaning.value? (text : String) : Meaning → Option Value
  | .null => some .null
  | .bool b => some (.bool b)
  | .nat n => some (.nat n)
  | .negative magnitude => some (.negative magnitude)
  | .wide => none
  | .fraction => some .fraction
  | .text => some (.text text)

/-- The value of a scalar. The tags of switches, numbers and nothing ask for a text that spells one; every
other common tag makes a text, and a local tag has no meaning. Without a tag, only a plain scalar may be
more than a text. -/
def Scalar.value? (s : Scalar) : Option Value :=
  match s.tag with
  | none => if s.style = .plain then (meaning s.text).value? s.text else some (.text s.text)
  | some tag =>
    if isLocalTag tag then none
    else if tag = boolTag then (switch? s.text).map .bool
    else if tag = intTag then (whole? s.text).bind fun m => m.value? s.text
    else if tag = floatTag then if isDouble s.text then some .fraction else none
    else if tag = nullTag then if isNullWord s.text then some .null else none
    else some (.text s.text)

/-- The value of a part in which collections may stand in one another to a depth. -/
def Node.value : (depth : Nat) → Node → Walk Value
  | 0, n => do
    match ← n.follow with
    | .scalar s => Walk.ofOption s.value?
    | _ => failure
  | depth + 1, n => do
    match ← n.follow with
    | .scalar s => Walk.ofOption s.value?
    | .sequence tag items =>
      if tag.any isLocalTag then failure
      return .sequence (← items.mapM (value depth))
    | .mapping tag entries =>
      if tag.any isLocalTag then failure
      return .mapping (← entries.mapM fun e => return (← value depth e.1, ← value depth e.2))
    | _ => failure

namespace Value

def text? : Value → Option String
  | .text s => some s
  | _ => none

def bool? : Value → Option Bool
  | .bool b => some b
  | _ => none

/-- The number without a minus sign that a value is. -/
def nat? : Value → Option Nat
  | .nat n => some n
  | _ => none

/-- The number below `bound` that a value is; zero may have a minus sign. -/
def natBelow? (bound : Nat) : Value → Option Nat
  | .nat n => if n < bound then some n else none
  | .negative 0 => if 0 < bound then some 0 else none
  | _ => none

def isNull : Value → Bool
  | .null => true
  | _ => false

/-- Whether a value carries nothing: it is nothing, or a mapping without entries. -/
def isVoid : Value → Bool
  | .null | .mapping [] => true
  | _ => false

def list? {α : Type} (decode : Value → Option α) : Value → Option (List α)
  | .sequence items => items.mapM decode
  | _ => none

def option? {α : Type} (decode : Value → Option α) (v : Value) : Option (Option α) :=
  if v.isNull then some none else (decode v).map some

end Value

end Wavefront.Yaml
