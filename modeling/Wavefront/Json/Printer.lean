import Wavefront.Decimal.Shortest
import Wavefront.Json.Value
set_option autoImplicit false

/-!
JSON texts of values: `render` without any space, `pretty` with one member or element a line and two
spaces a level. Both escape the quote, the backslash and the control characters and nothing else.
-/
namespace Wavefront.Json

/-- The lower-case hexadecimal digit of a number below sixteen. -/
def hexDigit (n : Nat) : Char := Nat.digitChar n

def escapeChar (c : Char) : List Char :=
  if c = '"' then ['\\', '"']
  else if c = '\\' then ['\\', '\\']
  else if c = '\n' then ['\\', 'n']
  else if c = '\r' then ['\\', 'r']
  else if c = '\t' then ['\\', 't']
  else if c.toNat = 8 then ['\\', 'b']
  else if c.toNat = 12 then ['\\', 'f']
  else if c.toNat < 32 then ['\\', 'u', '0', '0', hexDigit (c.toNat / 16), hexDigit (c.toNat % 16)]
  else [c]

/-- A text between quotes. -/
def quote (s : String) : List Char := '"' :: s.toList.flatMap escapeChar ++ ['"']

/-- Numbers between one hundred-thousandth and ten to the sixteenth have their point in place; an
exponent carries its sign; what is no number is written as `null`. -/
def floatLayout : Decimal.Layout := ⟨-5, 15, "e", "+", "null"⟩

def Number.text : Number → String
  | .int value => toString value
  | .float value => Decimal.text floatLayout value

mutual

/-- The text of a value, without any space. -/
def chars : Json → List Char
  | .null => ['n', 'u', 'l', 'l']
  | .bool true => ['t', 'r', 'u', 'e']
  | .bool false => ['f', 'a', 'l', 's', 'e']
  | .num n => n.text.toList
  | .str s => quote s
  | .arr [] => ['[', ']']
  | .arr (item :: rest) => '[' :: chars item ++ itemChars rest
  | .obj [] => ['{', '}']
  | .obj ((name, value) :: rest) => '{' :: quote name ++ ':' :: chars value ++ memberChars rest

/-- The elements after the first, up to the closing bracket. -/
def itemChars : List Json → List Char
  | [] => [']']
  | item :: rest => ',' :: chars item ++ itemChars rest

/-- The members after the first, up to the closing brace. -/
def memberChars : List (String × Json) → List Char
  | [] => ['}']
  | (name, value) :: rest => ',' :: quote name ++ ':' :: chars value ++ memberChars rest

end

def render (j : Json) : String := String.ofList j.chars

/-- A new line, indented by two spaces a level. -/
def newLine (level : Nat) : List Char := '\n' :: List.replicate (2 * level) ' '

mutual

/-- The text of a value inside `level` brackets, one element or member a line. -/
def prettyChars (level : Nat) : Json → List Char
  | .arr (item :: rest) =>
    '[' :: newLine (level + 1) ++ prettyChars (level + 1) item ++ prettyItems level rest
  | .obj ((name, value) :: rest) =>
    '{' :: newLine (level + 1) ++ quote name ++ ':' :: ' ' :: prettyChars (level + 1) value ++
      prettyMembers level rest
  | other => chars other

/-- The elements after the first, up to the closing bracket on a line of its own. -/
def prettyItems (level : Nat) : List Json → List Char
  | [] => newLine level ++ [']']
  | item :: rest =>
    ',' :: newLine (level + 1) ++ prettyChars (level + 1) item ++ prettyItems level rest

/-- The members after the first, up to the closing brace on a line of its own. -/
def prettyMembers (level : Nat) : List (String × Json) → List Char
  | [] => newLine level ++ ['}']
  | (name, value) :: rest =>
    ',' :: newLine (level + 1) ++ quote name ++ ':' :: ' ' :: prettyChars (level + 1) value ++
      prettyMembers level rest

end

/-- The text of a value with one element or member a line. -/
def pretty (j : Json) : String := String.ofList (j.prettyChars 0)

end Wavefront.Json
