import Wavefront.Yaml.Tag
set_option autoImplicit false

/-!
The tokens of a document. Indentation becomes tokens that open and close block collections. That a scalar
is the key of a mapping shows only at the colon after it, so the places where a key may have started are
remembered, and the tokens that open a mapping are put in there afterwards.
-/
namespace Wavefront.Yaml

inductive Token where
  | version (major minor : Nat)
  /-- What a handle stands for in the tags of the document. -/
  | tagHandle (handle meaning : String)
  | documentStart | documentEnd
  | blockSequence | blockMapping | blockEnd
  | openSequence | closeSequence | openMapping | closeMapping
  | entry | comma | key | value
  | anchor (name : String) | reference (name : String)
  | tag (handle suffix : String)
  | scalar (text : String) (style : Style)
deriving DecidableEq, Repr

/-- A place where a key may have started: the number of tokens before it and where it lies. A required
key starts a line of a block. -/
structure Candidate where
  position : Nat
  required : Bool
  index : Nat
  line : Nat
  column : Nat
deriving Repr

/-- The tokens so far and what is needed to find more. -/
structure Lexer where
  cursor : Cursor
  tokens : Array Token
  /-- For the block collections around the place, the columns behind those of their entries. -/
  floors : List Nat
  /-- The candidate at the place, and those of the brackets around it. -/
  candidate : Option Candidate
  outer : List (Option Candidate)
  /-- Whether a key may start here. -/
  keyAllowed : Bool

namespace Lexer

def start (s : String) : Lexer := ⟨Cursor.ofText s, #[], [], none, [], true⟩

/-- Whether the place is inside brackets. -/
def flow (s : Lexer) : Bool := !s.outer.isEmpty

/-- The column from which on a further line belongs to the entry at the place. -/
def floor (s : Lexer) : Nat := s.floors.head?.getD 0

def push (s : Lexer) (t : Token) : Lexer := { s with tokens := s.tokens.push t }

def advance (s : Lexer) (count : Nat) : Lexer := { s with cursor := s.cursor.advance count }

/-- Forgets the candidate at the place; fails if a key is required there. -/
def dropCandidate (s : Lexer) : Option Lexer :=
  if s.candidate.any Candidate.required then none else some { s with candidate := none }

/-- Remembers the place as one where a key may start. -/
def saveCandidate (s : Lexer) : Option Lexer :=
  if s.keyAllowed then
    s.dropCandidate.map fun s =>
      let c := s.cursor
      let required := !s.flow && s.floor == c.column + 1
      { s with candidate := some ⟨s.tokens.size, required, c.index, c.line, c.column⟩ }
  else some s

/-- A key must end on its line and within so many bytes. -/
def keyLength : Nat := 1024

/-- Forgets a candidate that lies too far back; fails if a key is required there. -/
def fresh (c : Cursor) : Option Candidate → Option (Option Candidate)
  | none => some none
  | some k =>
    if k.line < c.line ∨ k.index + keyLength < c.index then if k.required then none else some none
    else some (some k)

/-- Forgets all candidates that lie too far back. -/
def refresh (s : Lexer) : Option Lexer := do
  return { s with
    candidate := ← fresh s.cursor s.candidate
    outer := ← s.outer.mapM (fresh s.cursor) }

/-- Closes the block collections whose entries start behind a column. -/
def closeBlocks (floor : Nat) : List Nat → Array Token → List Nat × Array Token
  | [], tokens => ([], tokens)
  | f :: rest, tokens =>
    if floor < f then closeBlocks floor rest (tokens.push .blockEnd) else (f :: rest, tokens)

/-- Closes block collections down to a floor, unless the place is inside brackets. -/
def unroll (s : Lexer) (floor : Nat) : Lexer :=
  if s.flow then s
  else
    let (floors, tokens) := closeBlocks floor s.floors s.tokens
    { s with floors, tokens }

/-- Opens a block collection with entries at a column, unless one is open there; the token goes in front
of the tokens from a position on. -/
def roll (s : Lexer) (column : Nat) (t : Token) (position : Nat) : Lexer :=
  if s.flow || column < s.floor then s
  else { s with
    floors := (column + 1) :: s.floors
    tokens := s.tokens.insertIdxIfInBounds position t }

/-- Moves over blanks, comments and breaks to the next token. A tab counts as a blank where no key may
start or inside brackets. A mark of the byte order at the start of a line is passed over and takes a
column. -/
def toToken : (fuel : Nat) → Lexer → Lexer
  | 0, s => s
  | fuel + 1, s =>
    let c := s.cursor
    let c := if c.column = 0 ∧ c.rest.head? = some '\ufeff' then c.advance 1 else c
    let tabs := s.flow || !s.keyAllowed
    let c := c.advance (c.rest.takeWhile fun ch => ch == ' ' || tabs && ch == '\t').length
    let c := if c.rest.head? = some '#' then c.toBreak else c
    if c.rest.head?.any isBreak then
      toToken fuel { s with cursor := c.readBreak.2, keyAllowed := s.keyAllowed || !s.flow }
    else { s with cursor := c }

def digits? (c : Cursor) : Option (Nat × Cursor) :=
  let ds := c.rest.takeWhile Char.isDigit
  if ds.isEmpty ∨ 9 < ds.length then none else some (Nat.ofDigitChars 10 ds 0, c.advance ds.length)

def version? (c : Cursor) : Option (Token × Cursor) := do
  let (major, c) ← digits? c.overBlanks
  if c.rest.head? ≠ some '.' then none
  let (minor, c) ← digits? (c.advance 1)
  return (.version major minor, c)

/-- Reads a line that states the version of the format or what a handle stands for. -/
def directive (s : Lexer) : Option Lexer := do
  let s ← (s.unroll 0).dropCandidate
  let c := s.cursor.advance 1
  let name := c.rest.takeWhile isNameChar
  let c := c.advance name.length
  if !c.gapAt 0 then none
  let (t, c) ←
    if name = "YAML".toList then version? c
    else if name = "TAG".toList then
      (tagMeaning? c).map fun (handle, meaning, c) => (.tagHandle handle meaning, c)
    else none
  return { s.push t with cursor := (← c.toLineEnd?).readBreak.2, keyAllowed := false }

/-- Reads a line that opens or closes a document. -/
def marker (s : Lexer) (t : Token) : Option Lexer :=
  (s.unroll 0).dropCandidate.map fun s => { (s.advance 3).push t with keyAllowed := false }

def openFlow (s : Lexer) (t : Token) : Option Lexer :=
  s.saveCandidate.map fun s =>
    { (s.advance 1).push t with candidate := none, outer := s.candidate :: s.outer, keyAllowed := true }

def closeFlow (s : Lexer) (t : Token) : Option Lexer :=
  s.dropCandidate.map fun s =>
    let (candidate, outer) := match s.outer with
      | [] => (s.candidate, [])
      | k :: rest => (k, rest)
    { (s.advance 1).push t with candidate, outer, keyAllowed := false }

def comma (s : Lexer) : Option Lexer :=
  s.dropCandidate.map fun s => { (s.advance 1).push .comma with keyAllowed := true }

/-- Opens a block collection for an indicator at the place, where that is allowed. -/
def openBlock (s : Lexer) (t : Token) : Option Lexer :=
  if s.flow then some s
  else if s.keyAllowed then some (s.roll s.cursor.column t s.tokens.size)
  else none

def blockEntry (s : Lexer) : Option Lexer := do
  let s ← (← s.openBlock .blockSequence).dropCandidate
  return { (s.advance 1).push .entry with keyAllowed := true }

def keyMark (s : Lexer) : Option Lexer := do
  let s ← (← s.openBlock .blockMapping).dropCandidate
  return { (s.advance 1).push .key with keyAllowed := !s.flow }

def valueMark (s : Lexer) : Option Lexer :=
  match s.candidate with
  | some k =>
    let s := { s with tokens := s.tokens.insertIdxIfInBounds k.position .key }
    let s := s.roll k.column .blockMapping k.position
    some { (s.advance 1).push .value with candidate := none, keyAllowed := false }
  | none =>
    (s.openBlock .blockMapping).map fun s =>
      { (s.advance 1).push .value with keyAllowed := !s.flow }

def anchorName (s : Lexer) (make : String → Token) : Option Lexer := do
  let s ← s.saveCandidate
  let c := s.cursor.advance 1
  let name := c.rest.takeWhile isNameChar
  let c := c.advance name.length
  let ends := c.gapAt 0 || c.rest.head?.any fun ch => "?:,]\x7d%@\x60".toList.contains ch
  if name.isEmpty || !ends then none
  return { s.push (make (String.ofList name)) with cursor := c, keyAllowed := false }

def tag (s : Lexer) : Option Lexer := do
  let s ← s.saveCandidate
  let (handle, suffix, c) ← tag? s.cursor
  if !(s.flow && c.rest.head? == some ',') && !c.gapAt 0 then none
  return { s.push (.tag handle suffix) with cursor := c, keyAllowed := false }

def blockScalar (s : Lexer) (literal : Bool) : Option Lexer := do
  let s ← s.dropCandidate
  let (text, c) ← block? literal s.floor (s.cursor.advance 1)
  let style := if literal then Style.literal else .folded
  return { s.push (.scalar (String.ofList text) style) with cursor := c, keyAllowed := true }

def quotedScalar (s : Lexer) (double : Bool) : Option Lexer := do
  let s ← s.saveCandidate
  let (text, c) ← quoted? double (s.cursor.rest.length + 1) [] (s.cursor.advance 1)
  let style := if double then Style.doubleQuoted else .singleQuoted
  return { s.push (.scalar (String.ofList text) style) with cursor := c, keyAllowed := false }

def plainScalar (s : Lexer) : Option Lexer := do
  let s ← s.saveCandidate
  let (text, broken, c) ← plain? s.flow s.floor (s.cursor.rest.length + 1) [] Gap.none s.cursor
  return { s.push (.scalar (String.ofList text) .plain) with cursor := c, keyAllowed := broken }

/-- The characters that mean something at the start of a token. -/
def isIndicator (c : Char) : Bool := "-?:,[]\x7b\x7d#&*!|>'\"%@\x60".toList.contains c

def startsPlain (s : Lexer) (ch : Char) : Bool :=
  let blankNext := match s.cursor.rest[1]? with
    | some next => isBlank next
    | none => false
  !(isBlank ch || isIndicator ch) || ch == '-' && !blankNext ||
    !s.flow && (ch == '?' || ch == ':') && !s.cursor.gapAt 1

def token (s : Lexer) (ch : Char) : Option Lexer :=
  let c := s.cursor
  if c.column = 0 ∧ ch = '%' then s.directive
  else if c.startsWith ['-', '-', '-'] then s.marker .documentStart
  else if c.startsWith ['.', '.', '.'] then s.marker .documentEnd
  else if ch = '[' then s.openFlow .openSequence
  else if ch = '{' then s.openFlow .openMapping
  else if ch = ']' then s.closeFlow .closeSequence
  else if ch = '}' then s.closeFlow .closeMapping
  else if ch = ',' then s.comma
  else if ch = '-' ∧ c.gapAt 1 then s.blockEntry
  else if ch = '?' ∧ (s.flow ∨ c.gapAt 1) then s.keyMark
  else if ch = ':' ∧ (s.flow ∨ c.gapAt 1) then s.valueMark
  else if ch = '*' then s.anchorName .reference
  else if ch = '&' then s.anchorName .anchor
  else if ch = '!' then s.tag
  else if ch = '|' ∧ !s.flow then s.blockScalar true
  else if ch = '>' ∧ !s.flow then s.blockScalar false
  else if ch = '\'' then s.quotedScalar false
  else if ch = '"' then s.quotedScalar true
  else if s.startsPlain ch then s.plainScalar
  else none

/-- Reads tokens up to the end of the text. -/
def run : (fuel : Nat) → Lexer → Option (Array Token)
  | 0, _ => none
  | fuel + 1, s => do
    let s ← (s.toToken (s.cursor.rest.length + 1)).refresh
    let s := s.unroll (s.cursor.column + 1)
    match s.cursor.rest with
    | [] => return (← (s.unroll 0).dropCandidate).tokens
    | ch :: _ => run fuel (← s.token ch)

end Lexer

/-- The tokens of a text, if it has a reading. Every token takes a character of the text. -/
def tokens? (s : String) : Option (List Token) :=
  if s.toList.all isAllowed then ((Lexer.start s).run (s.length + 2)).map Array.toList else none

end Wavefront.Yaml
