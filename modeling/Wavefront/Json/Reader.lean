import Wavefront.Decimal.Scaled
import Wavefront.Json.Value
set_option autoImplicit false

/-!
A reader of JSON texts. `parse?` accepts one value with blanks around it and answers with the value, or
with `none` for every other text. Each reader of a part returns what follows the part.
-/
namespace Wavefront.Json
open Wavefront.Text

/-- The four characters that may stand between the parts of a document. -/
def isSpace (c : Char) : Bool := c == ' ' || c == '\t' || c == '\n' || c == '\r'

/-- Drops the spaces in front. -/
def skip (cs : List Char) : List Char := cs.dropWhile isSpace

def hexValue? (c : Char) : Option Nat :=
  if c.isDigit then some (c.toNat - '0'.toNat)
  else if 'a' ≤ c ∧ c ≤ 'f' then some (c.toNat - 'a'.toNat + 10)
  else if 'A' ≤ c ∧ c ≤ 'F' then some (c.toNat - 'A'.toNat + 10)
  else none

/-- The number that four hexadecimal digits spell. -/
def unit? (a b c d : Char) : Option Nat := do
  let a ← hexValue? a
  let b ← hexValue? b
  let c ← hexValue? c
  let d ← hexValue? d
  return ((a * 16 + b) * 16 + c) * 16 + d

/-- The character after a backslash, for the escapes of one letter. -/
def simpleEscape? : Char → Option Char
  | '"' => some '"'
  | '\\' => some '\\'
  | '/' => some '/'
  | 'b' => some (Char.ofNat 8)
  | 'f' => some (Char.ofNat 12)
  | 'n' => some '\n'
  | 'r' => some '\r'
  | 't' => some '\t'
  | _ => none

/-- The characters of a quoted text up to its closing quote, and what follows it. A pair of units from
the surrogate ranges is one character; a lone unit of these ranges is refused. -/
def quoted? : List Char → Option (List Char × List Char)
  | [] => none
  | '"' :: rest => some ([], rest)
  | '\\' :: 'u' :: a :: b :: c :: d :: rest =>
    match unit? a b c d with
    | none => none
    | some unit =>
      if 0xD800 ≤ unit ∧ unit ≤ 0xDBFF then
        match rest with
        | '\\' :: 'u' :: e :: f :: g :: h :: rest =>
          match unit? e f g h with
          | none => none
          | some low =>
            if 0xDC00 ≤ low ∧ low ≤ 0xDFFF then
              (quoted? rest).map fun (cs, left) =>
                (Char.ofNat (0x10000 + (unit - 0xD800) * 0x400 + (low - 0xDC00)) :: cs, left)
            else none
        | _ => none
      else if 0xDC00 ≤ unit ∧ unit ≤ 0xDFFF then none
      else (quoted? rest).map fun (cs, left) => (Char.ofNat unit :: cs, left)
  | '\\' :: c :: rest =>
    match simpleEscape? c with
    | none => none
    | some c => (quoted? rest).map fun (cs, left) => (c :: cs, left)
  | c :: rest =>
    if c.toNat < 32 ∨ c = '\\' then none
    else (quoted? rest).map fun (cs, left) => (c :: cs, left)

/-- A sign and digits after the mark of an exponent. -/
def exponent? (cs : List Char) : Option (Int × List Char) :=
  let (negative, cs) := match cs with
    | '-' :: rest => (true, rest)
    | '+' :: rest => (false, rest)
    | cs => (false, cs)
  let digits := cs.takeWhile Char.isDigit
  if digits.isEmpty then none
  else
    let value : Int := digitsValue digits
    some (if negative then -value else value, cs.dropWhile Char.isDigit)

/-- The number that whole digits spell, when neither point nor exponent follow them: an integer within
64 bits, else a double. A negative zero is a double. -/
def wholeNumber? (negative : Bool) (digits : List Char) : Option Number :=
  let value := digitsValue digits
  if negative then
    if 0 < value ∧ value ≤ wordBound / 2 then some (.int (-value))
    else (Decimal.ofDigits? digits [] 0).map fun x => .float (-x)
  else if value < wordBound then some (.int value)
  else (Decimal.ofDigits? digits [] 0).map .float

/-- A number, and what follows it. -/
def number? (cs : List Char) : Option (Number × List Char) :=
  let (negative, cs) := match cs with
    | '-' :: rest => (true, rest)
    | cs => (false, cs)
  let whole := cs.takeWhile Char.isDigit
  let rest := cs.dropWhile Char.isDigit
  if whole.isEmpty ∨ (whole.length ≠ 1 ∧ whole.head? = some '0') then none
  else
    let point : Option (Option (List Char) × List Char) := match rest with
      | '.' :: after =>
        let fraction := after.takeWhile Char.isDigit
        if fraction.isEmpty then none else some (some fraction, after.dropWhile Char.isDigit)
      | _ => some (none, rest)
    match point with
    | none => none
    | some (fraction, rest) =>
      let power : Option (Option Int × List Char) := match rest with
        | 'e' :: after => (exponent? after).map fun (n, left) => (some n, left)
        | 'E' :: after => (exponent? after).map fun (n, left) => (some n, left)
        | _ => some (none, rest)
      match power with
      | none => none
      | some (power, rest) =>
        let number := match fraction, power with
          | none, none => wholeNumber? negative whole
          | _, _ =>
            (Decimal.ofDigits? whole (fraction.getD []) (power.getD 0)).map fun x =>
              .float (if negative then -x else x)
        number.map fun n => (n, rest)

mutual

/-- One value, and what follows it. The first argument bounds the depth of the recursion. -/
def value? : Nat → List Char → Option (Json × List Char)
  | 0, _ => none
  | fuel + 1, cs =>
    match skip cs with
    | 'n' :: 'u' :: 'l' :: 'l' :: rest => some (.null, rest)
    | 't' :: 'r' :: 'u' :: 'e' :: rest => some (.bool true, rest)
    | 'f' :: 'a' :: 'l' :: 's' :: 'e' :: rest => some (.bool false, rest)
    | '"' :: rest => (quoted? rest).map fun (cs, left) => (.str (String.ofList cs), left)
    | '[' :: rest =>
      match skip rest with
      | ']' :: rest => some (.arr [], rest)
      | rest =>
        match value? fuel rest with
        | none => none
        | some (item, rest) => (items? fuel rest).map fun (items, left) => (.arr (item :: items), left)
    | '{' :: rest =>
      match skip rest with
      | '}' :: rest => some (.obj [], rest)
      | rest =>
        match member? fuel rest with
        | none => none
        | some (first, rest) =>
          (members? fuel rest).map fun (members, left) => (.obj (first :: members), left)
    | rest => (number? rest).map fun (n, left) => (.num n, left)

/-- The elements after the first, up to the closing bracket. -/
def items? : Nat → List Char → Option (List Json × List Char)
  | 0, _ => none
  | fuel + 1, cs =>
    match skip cs with
    | ']' :: rest => some ([], rest)
    | ',' :: rest =>
      match value? fuel rest with
      | none => none
      | some (item, rest) => (items? fuel rest).map fun (items, left) => (item :: items, left)
    | _ => none

/-- A quoted name, a colon and a value. -/
def member? : Nat → List Char → Option ((String × Json) × List Char)
  | 0, _ => none
  | fuel + 1, cs =>
    match skip cs with
    | '"' :: rest =>
      match quoted? rest with
      | none => none
      | some (name, rest) =>
        match skip rest with
        | ':' :: rest =>
          (value? fuel rest).map fun (value, left) => ((String.ofList name, value), left)
        | _ => none
    | _ => none

/-- The members after the first, up to the closing brace. -/
def members? : Nat → List Char → Option (List (String × Json) × List Char)
  | 0, _ => none
  | fuel + 1, cs =>
    match skip cs with
    | '}' :: rest => some ([], rest)
    | ',' :: rest =>
      match member? fuel rest with
      | none => none
      | some (first, rest) =>
        (members? fuel rest).map fun (members, left) => (first :: members, left)
    | _ => none

end

/-- The value a text spells, if it spells one and nothing else. Each level of recursion but the first
two of a part takes a character, so twice the length of the text bounds the depth. -/
def parse? (s : String) : Option Json :=
  match value? (2 * s.length + 2) s.toList with
  | some (value, rest) => if (skip rest).isEmpty then some value else none
  | none => none

end Wavefront.Json
