import Wavefront.Yaml.Scalar
set_option autoImplicit false

/-!
Tags say of what kind a part is. A tag is written in full between angle brackets, or as a handle and what
follows it; a document may state what a handle stands for.
-/
namespace Wavefront.Yaml

/-- The handles that every document knows, and what they stand for. -/
def commonHandles : List (String × String) := [("!", "!"), ("!!", "tag:yaml.org,2002:")]

def boolTag : String := "tag:yaml.org,2002:bool"

def intTag : String := "tag:yaml.org,2002:int"

def floatTag : String := "tag:yaml.org,2002:float"

def nullTag : String := "tag:yaml.org,2002:null"

/-- Whether a tag means something in its own document only. -/
def isLocalTag (tag : String) : Bool := tag.toList.head? == some '!'

/-- The characters of a tag that stand for themselves; between angle brackets there are some more. -/
def isTagChar (verbatim : Bool) (c : Char) : Bool :=
  isNameChar c || ";/?:@&=+$.!~*'()".toList.contains c || verbatim && ",[]".toList.contains c

/-- Reads a byte that is written in hexadecimal digits after a percent sign. -/
def escapedByte? (c : Cursor) : Option (Nat × Cursor) :=
  match c.rest with
  | '%' :: high :: low :: _ => do return (16 * (← hexDigit? high) + (← hexDigit? low), c.advance 3)
  | _ => none

/-- Reads bytes that are written so and continue a character. -/
def continuation? : (count : Nat) → Cursor → Option (List Nat × Cursor)
  | 0, c => some ([], c)
  | count + 1, c => do
    let (byte, c) ← escapedByte? c
    if byte < 0x80 ∨ 0xC0 ≤ byte then none
    let (bytes, c) ← continuation? count c
    return (byte :: bytes, c)

/-- How many bytes follow the first byte of a character. -/
def continuationCount? (first : Nat) : Option Nat :=
  if first < 0x80 then some 0
  else if first < 0xC0 then none
  else if first < 0xE0 then some 1
  else if first < 0xF0 then some 2
  else if first < 0xF8 then some 3
  else none

/-- Reads the text of a tag. A byte that is written in digits counts as the character of its number. -/
def tagText? (verbatim : Bool) : (fuel : Nat) → Cursor → Option (List Char × Cursor)
  | 0, c => some ([], c)
  | fuel + 1, c =>
    match c.rest with
    | '%' :: _ => do
      let (first, c) ← escapedByte? c
      let (bytes, c) ← continuation? (← continuationCount? first) c
      let (text, c) ← tagText? verbatim fuel c
      return ((first :: bytes).map Char.ofNat ++ text, c)
    | ch :: _ =>
      if isTagChar verbatim ch then
        (tagText? verbatim fuel (c.advance 1)).map fun (text, c) => (ch :: text, c)
      else some ([], c)
    | [] => some ([], c)

/-- Reads a handle, which starts with an exclamation mark and may end with one. -/
def handle (c : Cursor) : List Char × Cursor :=
  let name := (c.rest.drop 1).takeWhile isNameChar
  let c := c.advance (1 + name.length)
  if c.rest.head? = some '!' then ('!' :: name ++ ['!'], c.advance 1) else ('!' :: name, c)

/-- Reads a tag: its handle, what follows it, and the place behind it. A tag in full has the empty handle,
and so has the exclamation mark alone. -/
def tag? (c : Cursor) : Option (String × String × Cursor) :=
  if c.rest.take 2 = ['!', '<'] then do
    let (text, c) ← tagText? true c.rest.length (c.advance 2)
    if text.isEmpty || c.rest.head? ≠ some '>' then none
    return ("", String.ofList text, c.advance 1)
  else do
    let (front, c) := handle c
    let (text, c) ← tagText? false c.rest.length c
    if 1 < front.length ∧ front.getLast? = some '!' then
      if text.isEmpty then none else return (String.ofList front, String.ofList text, c)
    else
      let suffix := front.drop 1 ++ text
      if suffix.isEmpty then return ("", "!", c) else return ("!", String.ofList suffix, c)

/-- Reads what a document says of a handle: the handle, what it stands for, and the place behind. -/
def tagMeaning? (c : Cursor) : Option (String × String × Cursor) := do
  let c := c.overBlanks
  if c.rest.head? ≠ some '!' then none
  let (front, c) := handle c
  if front.getLast? ≠ some '!' || !(c.rest.head?.any isBlank) then none
  let c := c.overBlanks
  let (meaning, c) ← tagText? true c.rest.length c
  if meaning.isEmpty || !c.gapAt 0 then none
  return (String.ofList front, String.ofList meaning, c)

end Wavefront.Yaml
