set_option autoImplicit false

/-!
A place in a text of lines: what follows it, how many bytes came before it, and on which line and in which
column it lies. Columns count characters.
-/
namespace Wavefront.Yaml

/-- The characters that separate words on a line. -/
def isBlank (c : Char) : Bool := c == ' ' || c == '\t'

/-- The characters that end a line. -/
def isBreak (c : Char) : Bool :=
  c == '\n' || c == '\r' || c == '\u0085' || c == '\u2028' || c == '\u2029'

/-- The characters that a document may hold. -/
def isAllowed (c : Char) : Bool :=
  let code := c.toNat
  code == 9 || code == 10 || code == 13 || (0x20 ≤ code && code ≤ 0x7E) || code == 0x85 ||
    (0xA0 ≤ code && code ≤ 0xFFFD) || 0x10000 ≤ code

def isNameChar (c : Char) : Bool := c.isAlphanum || c == '_' || c == '-'

def byteSize (cs : List Char) : Nat := cs.foldl (fun size c => size + c.utf8Size) 0

/-- A place in a text. -/
structure Cursor where
  rest : List Char
  /-- The bytes in front. -/
  index : Nat
  line : Nat
  column : Nat
deriving Repr

namespace Cursor

def ofText (s : String) : Cursor := ⟨s.toList, 0, 0, 0⟩

def advance (c : Cursor) (count : Nat) : Cursor :=
  ⟨c.rest.drop count, c.index + byteSize (c.rest.take count), c.line, c.column + count⟩

/-- Moves over a line break. A carriage return and the line feed after it are one break; all breaks but
the separators of lines and paragraphs read as a line feed. -/
def readBreak (c : Cursor) : List Char × Cursor :=
  match c.rest with
  | '\r' :: '\n' :: rest => (['\n'], ⟨rest, c.index + 2, c.line + 1, 0⟩)
  | b :: rest =>
    (if b = '\u2028' ∨ b = '\u2029' then [b] else ['\n'], ⟨rest, c.index + b.utf8Size, c.line + 1, 0⟩)
  | [] => ([], c)

def toBreak (c : Cursor) : Cursor := c.advance (c.rest.takeWhile (!isBreak ·)).length

def overBlanks (c : Cursor) : Cursor := c.advance (c.rest.takeWhile isBlank).length

/-- Moves over the blanks and the comment that may end a line; fails where something else is left on
it. The place is in front of the line break. -/
def toLineEnd? (c : Cursor) : Option Cursor :=
  let c := c.overBlanks
  let c := if c.rest.head? = some '#' then c.toBreak else c
  if c.rest.isEmpty || c.rest.head?.any isBreak then some c else none

/-- Whether the character so many places on is a blank, a break or the end. -/
def gapAt (c : Cursor) (count : Nat) : Bool :=
  match c.rest[count]? with
  | none => true
  | some ch => isBlank ch || isBreak ch

/-- Whether a line of a document starts with three given characters that stand for themselves. -/
def startsWith (c : Cursor) (mark : List Char) : Bool :=
  c.column == 0 && c.rest.take 3 == mark && c.gapAt 3

/-- Whether the place starts a line that opens or closes a document. -/
def atMarker (c : Cursor) : Bool := c.startsWith ['-', '-', '-'] || c.startsWith ['.', '.', '.']

end Cursor

end Wavefront.Yaml
