import Wavefront.Yaml.Cursor
set_option autoImplicit false

/-!
The four written forms of a scalar: plain, between quotes of either kind, and as a block of lines. Each
reader returns the text and the place after the scalar. Line breaks inside a plain or quoted scalar fold
into a space, or into the breaks after the first where there are several.
-/
namespace Wavefront.Yaml

/-- The written forms of a scalar. -/
inductive Style where
  | plain | singleQuoted | doubleQuoted | literal | folded
deriving DecidableEq, Repr

/-- Blanks and breaks between two words of a scalar. -/
structure Gap where
  blanks : List Char
  firstBreak : List Char
  moreBreaks : List Char
  broken : Bool
deriving Repr

namespace Gap

/-- The gap without blanks and breaks. -/
def none : Gap := ⟨[], [], [], false⟩

/-- The gap after a break that was escaped away. -/
def joined : Gap := ⟨[], [], [], true⟩

def text (g : Gap) : List Char :=
  if g.broken then
    match g.firstBreak with
    | '\n' :: _ => if g.moreBreaks.isEmpty then [' '] else g.moreBreaks
    | first => first ++ g.moreBreaks
  else g.blanks

/-- Reads on through blanks and breaks. After a break, a tab in front of the column `floor` is refused. -/
def read? (floor : Nat) : (fuel : Nat) → Gap → Cursor → Option (Gap × Cursor)
  | 0, g, c => some (g, c)
  | fuel + 1, g, c =>
    match c.rest with
    | [] => some (g, c)
    | ch :: _ =>
      if isBlank ch then
        if g.broken then
          if ch = '\t' ∧ c.column < floor then .none else read? floor fuel g (c.advance 1)
        else read? floor fuel { g with blanks := g.blanks ++ [ch] } (c.advance 1)
      else if isBreak ch then
        let (b, c) := c.readBreak
        if g.broken then read? floor fuel { g with moreBreaks := g.moreBreaks ++ b } c
        else read? floor fuel ⟨[], b, [], true⟩ c
      else some (g, c)

end Gap

/-- The characters that end a plain scalar inside brackets. -/
def isFlowMark (c : Char) : Bool := c == ',' || c == '[' || c == ']' || c == '{' || c == '}'

/-- The characters of a plain scalar up to a gap or to what ends the scalar. -/
def plainWord? (flow : Bool) : List Char → Option (List Char)
  | [] => some []
  | ch :: rest =>
    let gapNext := match rest with
      | [] => true
      | next :: _ => isBlank next || isBreak next
    let markNext := rest.head?.any fun next => isFlowMark next || next == '?'
    if isBlank ch || isBreak ch then some []
    else if flow && ch == ':' && markNext then none
    else if ch == ':' && gapNext || flow && isFlowMark ch then some []
    else (plainWord? flow rest).map (ch :: ·)

/-- Reads a plain scalar whose further lines start at the column `floor` or behind it. The flag says that
the scalar ends with a line. -/
def plain? (flow : Bool) (floor : Nat) :
    (fuel : Nat) → List Char → Gap → Cursor → Option (List Char × Bool × Cursor)
  | 0, text, gap, c => some (text, gap.broken, c)
  | fuel + 1, text, gap, c =>
    if c.atMarker || c.rest.head? == some '#' then some (text, gap.broken, c)
    else
      match plainWord? flow c.rest with
      | none => none
      | some word =>
        let c := c.advance word.length
        let (text, gap) := if word.isEmpty then (text, gap) else (text ++ gap.text ++ word, Gap.none)
        if c.rest.isEmpty || !c.gapAt 0 then some (text, gap.broken, c)
        else
          match Gap.read? floor c.rest.length Gap.none c with
          | none => none
          | some (gap, c) =>
            if !flow && c.column < floor then some (text, gap.broken, c)
            else plain? flow floor fuel text gap c

/-- The character that a letter after a backslash stands for. -/
def escape? : Char → Option Char
  | '0' => some (Char.ofNat 0)
  | 'a' => some (Char.ofNat 7)
  | 'b' => some (Char.ofNat 8)
  | 't' | '\t' => some '\t'
  | 'n' => some '\n'
  | 'v' => some (Char.ofNat 11)
  | 'f' => some (Char.ofNat 12)
  | 'r' => some '\r'
  | 'e' => some (Char.ofNat 27)
  | ' ' => some ' '
  | '"' => some '"'
  | '/' => some '/'
  | '\\' => some '\\'
  | 'N' => some '\u0085'
  | '_' => some '\u00a0'
  | 'L' => some '\u2028'
  | 'P' => some '\u2029'
  | _ => none

/-- How many hexadecimal digits follow a letter after a backslash. -/
def hexWidth? : Char → Option Nat
  | 'x' => some 2
  | 'u' => some 4
  | 'U' => some 8
  | _ => none

def hexDigit? (c : Char) : Option Nat :=
  if c.isDigit then some (c.toNat - '0'.toNat)
  else if 'a' ≤ c ∧ c ≤ 'f' then some (c.toNat - 'a'.toNat + 10)
  else if 'A' ≤ c ∧ c ≤ 'F' then some (c.toNat - 'A'.toNat + 10)
  else none

/-- The character whose number some hexadecimal digits spell. -/
def hexChar? (width : Nat) (digits : List Char) : Option Char := do
  if digits.length ≠ width then none
  let code ← digits.foldlM (fun n d => (hexDigit? d).map (16 * n + ·)) 0
  if code.isValidChar then some (Char.ofNat code) else none

/-- Reads characters between quotes up to a gap, the closing quote or an escaped break; the flag says
that it was a break. -/
def quotedWord? (double : Bool) : (fuel : Nat) → Cursor → Option (List Char × Bool × Cursor)
  | 0, c => some ([], false, c)
  | fuel + 1, c =>
    let goOn (ch : Char) (count : Nat) : Option (List Char × Bool × Cursor) :=
      (quotedWord? double fuel (c.advance count)).map fun (word, joined, c) => (ch :: word, joined, c)
    match double, c.rest with
    | _, [] => some ([], false, c)
    | false, '\'' :: '\'' :: _ => goOn '\'' 2
    | false, '\'' :: _ => some ([], false, c)
    | true, '"' :: _ => some ([], false, c)
    | true, '\\' :: e :: rest =>
      if isBreak e then some ([], true, (c.advance 1).readBreak.2)
      else match escape? e, hexWidth? e with
        | some ch, _ => goOn ch 2
        | none, some width =>
          match hexChar? width (rest.take width) with
          | some ch => goOn ch (2 + width)
          | none => none
        | none, none => none
    | true, ['\\'] => none
    | _, ch :: _ => if isBlank ch || isBreak ch then some ([], false, c) else goOn ch 1

/-- Reads what follows an opening quote, the closing quote included. -/
def quoted? (double : Bool) : (fuel : Nat) → List Char → Cursor → Option (List Char × Cursor)
  | 0, _, _ => none
  | fuel + 1, text, c =>
    if c.atMarker || c.rest.isEmpty then none
    else
      match quotedWord? double c.rest.length c with
      | none => none
      | some (word, joined, c) =>
        if c.rest.isEmpty then none
        else if !joined && !c.gapAt 0 then some (text ++ word, c.advance 1)
        else
          match Gap.read? 0 c.rest.length (if joined then Gap.joined else Gap.none) c with
          | none => none
          | some (gap, c) => quoted? double fuel (text ++ word ++ gap.text) c

/-- What becomes of the breaks at the end of a block. -/
inductive Chomping where
  | strip | clip | keep
deriving DecidableEq, Repr

/-- Reads the marks after the bar or angle of a block: chomping and indentation, in either order. -/
def blockMarks? (c : Cursor) : Option (Chomping × Option Nat × Cursor) :=
  let sign? (c : Cursor) : Option (Chomping × Cursor) := match c.rest with
    | '+' :: _ => some (.keep, c.advance 1)
    | '-' :: _ => some (.strip, c.advance 1)
    | _ => none
  let digit? (c : Cursor) : Option (Option Nat × Cursor) := match c.rest with
    | d :: _ =>
      if d = '0' then none
      else if d.isDigit then some (some (d.toNat - '0'.toNat), c.advance 1)
      else some (none, c)
    | [] => some (none, c)
  match sign? c with
  | some (chomping, c) => (digit? c).map fun (width, c) => (chomping, width, c)
  | none =>
    (digit? c).map fun (width, c) =>
      match width, sign? c with
      | some width, some (chomping, c) => (chomping, some width, c)
      | width, _ => (.clip, width, c)

/-- Reads the indentation and the empty lines in front of a line of a block. While the indentation is not
known, all spaces count, and the widest line is remembered. -/
def blockBreaks? (indent : Option Nat) :
    (fuel : Nat) → List Char → (widest : Nat) → Cursor → Option (List Char × Nat × Cursor)
  | 0, breaks, widest, c => some (breaks, widest, c)
  | fuel + 1, breaks, widest, c =>
    let room := match indent with
      | some n => n - c.column
      | none => c.rest.length
    let c := c.advance ((c.rest.takeWhile (· == ' ')).length.min room)
    let widest := widest.max c.column
    let inside := match indent with
      | some n => decide (c.column < n)
      | none => true
    match c.rest with
    | [] => some (breaks, widest, c)
    | ch :: _ =>
      if inside && ch == '\t' then none
      else if isBreak ch then
        let (b, c) := c.readBreak
        blockBreaks? indent fuel (breaks ++ b) widest c
      else some (breaks, widest, c)

/-- The lines of a block so far. -/
structure BlockText where
  text : List Char
  /-- The break after the last line. -/
  lineBreak : List Char
  /-- The breaks of the empty lines after it. -/
  emptyLines : List Char
  /-- Whether the last line started with a blank. -/
  blankLed : Bool
deriving Repr

/-- What stands between the last line of a block and the next one. -/
def BlockText.joint (b : BlockText) (literal : Bool) (blankLeads : Bool) : List Char :=
  if !literal && b.lineBreak.head? == some '\n' && !b.blankLed && !blankLeads then
    if b.emptyLines.isEmpty then [' '] else b.emptyLines
  else b.lineBreak ++ b.emptyLines

/-- Reads the lines of a block at its indentation. -/
def blockLines? (literal : Bool) (indent : Nat) :
    (fuel : Nat) → BlockText → Cursor → Option (BlockText × Cursor)
  | 0, b, c => some (b, c)
  | fuel + 1, b, c =>
    if c.column ≠ indent || c.rest.isEmpty then some (b, c)
    else
      let blankLeads := c.rest.head?.any isBlank
      let line := c.rest.takeWhile (!isBreak ·)
      let (lineBreak, c) := c.toBreak.readBreak
      match blockBreaks? (some indent) (c.rest.length + 1) [] 0 c with
      | none => none
      | some (emptyLines, _, c) =>
        blockLines? literal indent fuel
          ⟨b.text ++ b.joint literal blankLeads ++ line, lineBreak, emptyLines, blankLeads⟩ c

/-- Reads what follows the bar or angle of a block, inside a collection whose entries start in front of
the column `floor`. -/
def block? (literal : Bool) (floor : Nat) (c : Cursor) : Option (List Char × Cursor) := do
  let (chomping, width, c) ← blockMarks? c
  let c := (← c.toLineEnd?).readBreak.2
  let (emptyLines, widest, c) ←
    blockBreaks? (width.map (floor - 1 + ·)) (c.rest.length + 1) [] 0 c
  let indent := match width with
    | some width => floor - 1 + width
    | none => (widest.max floor).max 1
  let (b, c) ← blockLines? literal indent (c.rest.length + 1) ⟨[], [], emptyLines, false⟩ c
  let ending := match chomping with
    | .strip => []
    | .clip => b.lineBreak
    | .keep => b.lineBreak ++ b.emptyLines
  return (b.text ++ ending, c)

end Wavefront.Yaml
