import Wavefront.Yaml.Token
set_option autoImplicit false

/-!
The tree of a document: scalars, sequences and mappings, with their tags. A part may have a number, and a
reference stands for the part of a number. The numbers count the names in use, so that a part may share its
number with an earlier one if a name comes twice.
-/
namespace Wavefront.Yaml

/-- A scalar as it is written. -/
structure Scalar where
  tag : Option String
  style : Style
  text : String
deriving DecidableEq, Repr

/-- A part of a document. -/
inductive Node where
  | scalar (s : Scalar)
  | sequence (tag : Option String) (items : List Node)
  | mapping (tag : Option String) (entries : List (Node × Node))
  /-- A part that has a number. -/
  | anchored (number : Nat) (content : Node)
  | reference (number : Nat)
deriving Repr

/-- The part that is not there is the plain scalar without characters. -/
def Node.absent : Node := .scalar ⟨none, .plain, ""⟩

/-- What may stand in front of a part. -/
structure Marks where
  anchor : Option String
  /-- The handle of the tag and what follows it. -/
  tag : Option (String × String)
deriving DecidableEq, Repr

namespace Marks

/-- Nothing in front of a part. -/
def none : Marks := ⟨.none, .none⟩

/-- The marks in front of a part, which may come in either order, and the tokens behind them. -/
def ofTokens : List Token → Marks × List Token
  | .anchor a :: .tag handle suffix :: rest => (⟨some a, some (handle, suffix)⟩, rest)
  | .tag handle suffix :: .anchor a :: rest => (⟨some a, some (handle, suffix)⟩, rest)
  | .anchor a :: rest => (⟨some a, .none⟩, rest)
  | .tag handle suffix :: rest => (⟨.none, some (handle, suffix)⟩, rest)
  | tokens => (none, tokens)

/-- The tag in full; fails where nobody says what the handle stands for. -/
def tag? (m : Marks) (handles : List (String × String)) : Option (Option String) :=
  match m.tag with
  | .none => some .none
  | some ("", suffix) => some (some suffix)
  | some (handle, suffix) => (handles.lookup handle).map fun meaning => some (meaning ++ suffix)

end Marks

/-- The tokens still to be read, what the handles stand for, and the numbers of the names so far. -/
structure Reading where
  tokens : List Token
  handles : List (String × String)
  names : List (String × Nat)

namespace Reading

def skip (r : Reading) : Reading := { r with tokens := r.tokens.tail }

/-- Skips the token in front, which must be a given one. -/
def expect (r : Reading) (t : Token) : Option Reading :=
  if r.tokens.head? = some t then some r.skip else none

/-- Names the part that starts here; returns its number, which is how many names there were before. -/
def name (r : Reading) (anchor : String) : Nat × Reading :=
  let number := r.names.length
  (number, { r with names := (anchor, number) :: r.names.filter (·.1 ≠ anchor) })

end Reading

mutual

/-- Reads one part. `block` allows block collections, `dashes` a sequence whose dashes are indented no
further than the key in front of it. -/
def node? : (fuel : Nat) → (block dashes : Bool) → Reading → Option (Node × Reading)
  | 0, _, _, _ => none
  | fuel + 1, block, dashes, r =>
    match r.tokens with
    | .reference a :: _ => (r.names.lookup a).map fun number => (.reference number, r.skip)
    | _ =>
      let (marks, tokens) := Marks.ofTokens r.tokens
      let r := { r with tokens }
      match marks.tag? r.handles, marks.anchor with
      | none, _ => none
      | some tag, none => content? fuel block dashes (marks ≠ Marks.none) tag r
      | some tag, some anchor =>
        let (number, r) := r.name anchor
        (content? fuel block dashes true tag r).map fun (n, r) => (.anchored number n, r)

/-- Reads a part behind its marks. The marks may stand alone and then belong to an absent part. -/
def content? : (fuel : Nat) → (block dashes marked : Bool) → (tag : Option String) → Reading →
    Option (Node × Reading)
  | 0, _, _, _, _, _ => none
  | fuel + 1, block, dashes, marked, tag, r =>
    match r.tokens with
    | .scalar text style :: _ => some (.scalar ⟨tag.filter (· ≠ "!"), style, text⟩, r.skip)
    | .openSequence :: _ =>
      (flowItems? fuel true r.skip).map fun (items, r) => (.sequence tag items, r)
    | .openMapping :: _ =>
      (flowEntries? fuel true r.skip).map fun (entries, r) => (.mapping tag entries, r)
    | t :: _ =>
      if dashes ∧ t = .entry then (dashItems? fuel r).map fun (items, r) => (.sequence tag items, r)
      else if block ∧ t = .blockSequence then
        (blockItems? fuel r.skip).map fun (items, r) => (.sequence tag items, r)
      else if block ∧ t = .blockMapping then
        (blockEntries? fuel r.skip).map fun (entries, r) => (.mapping tag entries, r)
      else if marked then some (.scalar ⟨tag, .plain, ""⟩, r) else none
    | [] => if marked then some (.scalar ⟨tag, .plain, ""⟩, r) else none

/-- Reads a part, or an absent part in front of the tokens that end one. -/
def optionalNode? : (fuel : Nat) → (block dashes : Bool) → (ends : List Token) → Reading →
    Option (Node × Reading)
  | 0, _, _, _, _ => none
  | fuel + 1, block, dashes, ends, r =>
    match r.tokens with
    | [] => none
    | t :: _ => if t ∈ ends then some (Node.absent, r) else node? fuel block dashes r

def blockItems? : (fuel : Nat) → Reading → Option (List Node × Reading)
  | 0, _ => none
  | fuel + 1, r =>
    match r.tokens with
    | .entry :: _ =>
      match optionalNode? fuel true false [.entry, .blockEnd] r.skip with
      | none => none
      | some (n, r) => (blockItems? fuel r).map fun (ns, r) => (n :: ns, r)
    | .blockEnd :: _ => some ([], r.skip)
    | _ => none

/-- Reads the items of a sequence that opens no block of its own. -/
def dashItems? : (fuel : Nat) → Reading → Option (List Node × Reading)
  | 0, _ => none
  | fuel + 1, r =>
    match r.tokens with
    | .entry :: _ =>
      match optionalNode? fuel true false [.entry, .key, .value, .blockEnd] r.skip with
      | none => none
      | some (n, r) => (dashItems? fuel r).map fun (ns, r) => (n :: ns, r)
    | _ => some ([], r)

def blockEntries? : (fuel : Nat) → Reading → Option (List (Node × Node) × Reading)
  | 0, _ => none
  | fuel + 1, r =>
    match r.tokens with
    | .blockEnd :: _ => some ([], r.skip)
    | .key :: _ =>
      match optionalNode? fuel true true [.key, .value, .blockEnd] r.skip with
      | none => none
      | some (k, r) => entryValue? fuel k r
    | _ => none

/-- Reads the value of a key and the entries after it. -/
def entryValue? : (fuel : Nat) → Node → Reading → Option (List (Node × Node) × Reading)
  | 0, _, _ => none
  | fuel + 1, k, r =>
    let value := match r.tokens with
      | .value :: _ => optionalNode? fuel true true [.key, .value, .blockEnd] r.skip
      | _ => some (Node.absent, r)
    match value with
    | none => none
    | some (v, r) => (blockEntries? fuel r).map fun (rest, r) => ((k, v) :: rest, r)

/-- Reads the items of a bracketed sequence; behind the first, a comma comes before each. A key in it
makes a mapping with a single entry. -/
def flowItems? : (fuel : Nat) → (first : Bool) → Reading → Option (List Node × Reading)
  | 0, _, _ => none
  | fuel + 1, first, r =>
    if r.tokens.head? = some .closeSequence then some ([], r.skip)
    else
      match if first then some r else r.expect .comma with
      | none => none
      | some r =>
        match r.tokens with
        | .closeSequence :: _ => some ([], r.skip)
        | .key :: _ =>
          match singleEntry? fuel r.skip with
          | none => none
          | some (n, r) => (flowItems? fuel false r).map fun (ns, r) => (n :: ns, r)
        | _ =>
          match node? fuel false false r with
          | none => none
          | some (n, r) => (flowItems? fuel false r).map fun (ns, r) => (n :: ns, r)

/-- Reads the only entry of a mapping inside a bracketed sequence. Where the key is absent the token in
its place is lost. -/
def singleEntry? : (fuel : Nat) → Reading → Option (Node × Reading)
  | 0, _ => none
  | fuel + 1, r =>
    let key : Option (Node × Reading) := match r.tokens with
      | [] => none
      | t :: _ =>
        if t ∈ [Token.value, .comma, .closeSequence] then some (Node.absent, r.skip)
        else node? fuel false false r
    match key with
    | none => none
    | some (k, r) =>
      let value := match r.tokens with
        | .value :: _ => optionalNode? fuel false false [.comma, .closeSequence] r.skip
        | _ => some (Node.absent, r)
      value.map fun (v, r) => (.mapping none [(k, v)], r)

/-- Reads the entries of a bracketed mapping; behind the first, a comma comes before each. -/
def flowEntries? : (fuel : Nat) → (first : Bool) → Reading → Option (List (Node × Node) × Reading)
  | 0, _, _ => none
  | fuel + 1, first, r =>
    if r.tokens.head? = some .closeMapping then some ([], r.skip)
    else
      match if first then some r else r.expect .comma with
      | none => none
      | some r =>
        match r.tokens with
        | .closeMapping :: _ => some ([], r.skip)
        | .key :: _ =>
          match optionalNode? fuel false false [.value, .comma, .closeMapping] r.skip with
          | none => none
          | some (k, r) =>
            let value := match r.tokens with
              | .value :: _ => optionalNode? fuel false false [.comma, .closeMapping] r.skip
              | _ => some (Node.absent, r)
            match value with
            | none => none
            | some (v, r) => (flowEntries? fuel false r).map fun (rest, r) => ((k, v) :: rest, r)
        | _ =>
          match node? fuel false false r with
          | none => none
          | some (k, r) => (flowEntries? fuel false r).map fun (rest, r) => ((k, .absent) :: rest, r)

end

/-- The versions of the format that can be read. -/
def isReadable (major minor : Nat) : Bool := major == 1 && (minor == 1 || minor == 2)

/-- Reads the lines that state the version, once at most, and what the handles stand for, each once at
most. Returns whether there are any. -/
def statements? : (isVersioned : Bool) → (handles : List (String × String)) → List Token →
    Option (Bool × List (String × String) × List Token)
  | isVersioned, handles, .version major minor :: rest =>
    if isVersioned || !isReadable major minor then none else statements? true handles rest
  | isVersioned, handles, .tagHandle handle meaning :: rest =>
    if (handles.lookup handle).isSome then none
    else statements? isVersioned ((handle, meaning) :: handles) rest
  | isVersioned, handles, rest => some (isVersioned || !handles.isEmpty, handles, rest)

/-- Whether a document without content ends at some tokens. -/
def isBare : List Token → Bool
  | [] | .version .. :: _ | .tagHandle .. :: _ | .documentStart :: _ | .documentEnd :: _ => true
  | _ => false

/-- The tree of a text that holds one document, if it does. A document with statements in front is opened
by a line of its own. Every second step of the reading takes a token, so four times their number bounds
it. -/
def parse? (s : String) : Option Node := do
  let (isStated, handles, tokens) ← statements? false [] (← tokens? s)
  let isOpened := tokens.head? == some .documentStart
  if tokens.isEmpty || isStated && !isOpened then none
  let tokens := if isOpened then tokens.tail else tokens
  let r : Reading := ⟨tokens, handles ++ commonHandles, []⟩
  let (n, r) ← if isOpened && isBare tokens then some (Node.absent, r)
    else node? (4 * tokens.length + 8) true false r
  if (r.tokens.dropWhile (· == .documentEnd)).isEmpty then some n else none

end Wavefront.Yaml
