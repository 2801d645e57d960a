import Wavefront.Decimal.Power
import Wavefront.Text.Numeral
import Wavefront.Yaml.Scalar
set_option autoImplicit false

/-!
What the text of a scalar means: nothing, a switch, a number, or just the text.
-/
namespace Wavefront.Yaml
open Wavefront.Text Wavefront.Decimal

/-- The meaning of a text. -/
inductive Meaning where
  | null
  | bool (value : Bool)
  /-- A whole number of 64 bits without a minus sign. -/
  | nat (value : Nat)
  /-- A whole number of 64 bits with a minus sign, which may be zero. -/
  | negative (magnitude : Nat)
  /-- A whole number that takes more than 64 bits. -/
  | wide
  | fraction
  | text
deriving DecidableEq, Repr

def digit? (base : Nat) (c : Char) : Option Nat :=
  (hexDigit? c).filter (· < base)

def wholeNumber? (base : Nat) (digits : List Char) : Option Nat :=
  if digits.isEmpty then none else digits.foldlM (fun n d => (digit? base d).map (base * n + ·)) 0

/-- Several digits of which the first is a zero. -/
def isZeroLed (digits : List Char) : Bool :=
  match digits with
  | '0' :: second :: rest => (second :: rest).all Char.isDigit
  | _ => false

/-- The magnitude of a whole number in one of its spellings. -/
def magnitude? : List Char → Option Nat
  | '0' :: 'x' :: digits => wholeNumber? 16 digits
  | '0' :: 'o' :: digits => wholeNumber? 8 digits
  | '0' :: 'b' :: digits => wholeNumber? 2 digits
  | digits => if isZeroLed digits then none else wholeNumber? 10 digits

/-- The meaning of a whole number of a sign; beyond 128 bits it is none. -/
def wholeMeaning? (negative : Bool) (magnitude : Nat) : Option Meaning :=
  if negative then
    if magnitude ≤ wordBound / 2 then some (.negative magnitude)
    else if magnitude ≤ doubleWordBound / 2 then some .wide else none
  else if magnitude < wordBound then some (.nat magnitude)
  else if magnitude < doubleWordBound then some .wide else none

/-- Whether some digits times a power of ten round to a double. -/
def isFinite (digits : List Char) (power : Int) : Bool :=
  let digits := digits.dropWhile (· == '0')
  let lead := digits.length + power
  if digits.isEmpty || lead ≤ 308 then true
  else if 310 < lead then false
  else
    digitsValue digits * tens power < (twos 1024 - twos 970) * tens (-power)

/-- Whether some characters spell a fraction that rounds to a double. -/
def isFraction (cs : List Char) : Bool :=
  let whole := cs.takeWhile Char.isDigit
  let (fraction, rest) := match cs.dropWhile Char.isDigit with
    | '.' :: rest => (rest.takeWhile Char.isDigit, rest.dropWhile Char.isDigit)
    | rest => ([], rest)
  let digits := whole ++ fraction
  if digits.isEmpty then false
  else
    match rest with
    | [] => isFinite digits (-fraction.length)
    | e :: power =>
      let (negative, power) := match power with
        | '-' :: rest => (true, rest)
        | '+' :: rest => (false, rest)
        | rest => (false, rest)
      let value : Int := digitsValue power
      (e == 'e' || e == 'E') && !power.isEmpty && power.all Char.isDigit &&
        isFinite digits ((if negative then -value else value) - fraction.length)

/-- The spellings of the doubles that are no decimals, behind a sign. -/
def isSpecial (s : String) : Bool :=
  [".inf", ".Inf", ".INF", "+.inf", "+.Inf", "+.INF", "-.inf", "-.Inf", "-.INF", ".nan", ".NaN",
    ".NAN"].contains s

/-- The sign of a number, and what is behind it. -/
def signed (s : String) : Bool × List Char :=
  match s.toList with
  | '-' :: rest => (true, rest)
  | '+' :: rest => (false, rest)
  | cs => (false, cs)

/-- The words for nothing. -/
def isNullWord (s : String) : Bool := ["~", "null", "Null", "NULL"].contains s

def switch? (s : String) : Option Bool :=
  if ["true", "True", "TRUE"].contains s then some true
  else if ["false", "False", "FALSE"].contains s then some false
  else none

/-- The meaning of a text that spells a whole number. -/
def whole? (s : String) : Option Meaning :=
  let (negative, digits) := signed s
  (magnitude? digits).bind (wholeMeaning? negative)

/-- Whether a text spells a double. -/
def isDouble (s : String) : Bool := isSpecial s || isFraction (signed s).2

/-- The meaning of a plain scalar. Digits behind a zero are no number. -/
def meaning (s : String) : Meaning :=
  if s.isEmpty || isNullWord s then .null
  else match switch? s, whole? s with
    | some b, _ => .bool b
    | none, some m => m
    | none, none => if !isZeroLed (signed s).2 && isDouble s then .fraction else .text

end Wavefront.Yaml
