import Wavefront.Explain.Dot
import Wavefront.Proofs.Lookup
set_option autoImplicit false

/-!
A reader of DOT documents, and what it reads in the document of a graph. The reader goes through a
document character by character: a quoted text ends at the first quote that no backslash stands before,
and holds everything until there, line breaks too. Main statement: the document of a graph reads as one
vertex a node and one edge an edge, and the label of each vertex as the lines it was made of, whatever is
written in these.
-/
namespace Wavefront.Explain

/-! ### Tokens -/

/-- A part of a DOT document. -/
inductive Token where
  | comment (text : List Char)
  | word (name : List Char)
  /-- What stands between two quotes, with its backslashes. -/
  | quoted (raw : List Char)
  | arrow
  | mark (c : Char)
deriving DecidableEq

/-- What a reader of a DOT document is in the middle of. -/
inductive Mode where
  /-- Between two tokens, perhaps where a line begins. -/
  | outside (fresh : Bool)
  | comment (text : List Char)
  | word (name : List Char)
  | dash
  | quoted (raw : List Char)
  /-- In a quoted text, after a backslash. -/
  | escaped (raw : List Char)
deriving DecidableEq

def isWordChar (c : Char) : Bool := c.isAlphanum || c == '_'

/-- The characters that are a token each. -/
def isMark (c : Char) : Bool := ['\x7b', '\x7d', '[', ']', '=', ';'].contains c

/-- A character between two tokens. Only where a line begins can a comment begin. -/
def begin (fresh : Bool) (c : Char) : Option (List Token × Mode) :=
  if c = '\n' then some ([], .outside true)
  else if c = ' ' ∨ c = '\t' then some ([], .outside false)
  else if c = '#' ∧ fresh then some ([], .comment [c])
  else if c = '"' then some ([], .quoted [])
  else if c = '-' then some ([], .dash)
  else if isMark c then some ([.mark c], .outside false)
  else if isWordChar c then some ([], .word [c])
  else none

/-- What a character completes, and what the reader is in the middle of after it. -/
def scanChar : Mode → Char → Option (List Token × Mode)
  | .outside fresh, c => begin fresh c
  | .comment text, c =>
    if c = '\n' then some ([.comment text], .outside true) else some ([], .comment (text ++ [c]))
  | .word name, c =>
    if isWordChar c then some ([], .word (name ++ [c]))
    else (begin false c).map fun (tokens, mode) => (.word name :: tokens, mode)
  | .dash, c => if c = '>' then some ([.arrow], .outside false) else none
  | .quoted raw, c =>
    if c = '"' then some ([.quoted raw], .outside false)
    else if c = '\\' then some ([], .escaped raw)
    else some ([], .quoted (raw ++ [c]))
  | .escaped raw, c => some ([], .quoted (raw ++ ['\\', c]))

/-- The tokens that a text completes, and what the reader is in the middle of at its end. -/
def scan : Mode → List Char → Option (List Token × Mode)
  | mode, [] => some ([], mode)
  | mode, c :: rest =>
    (scanChar mode c).bind fun (tokens, mode) =>
      (scan mode rest).map fun (more, mode) => (tokens ++ more, mode)

theorem scan_cons {mode next : Mode} {c : Char} {now : List Token}
    (step : scanChar mode c = some (now, next)) (rest : List Char) :
    scan mode (c :: rest) = (scan next rest).map fun (more, mode) => (now ++ more, mode) := by
  rw [scan, step]
  rfl

/-- A text is read piece by piece. -/
theorem scan_append {mode between after : Mode} {a b : List Char} {tokens more : List Token}
    (first : scan mode a = some (tokens, between)) (second : scan between b = some (more, after)) :
    scan mode (a ++ b) = some (tokens ++ more, after) := by
  induction a generalizing mode tokens with
  | nil =>
    obtain ⟨rfl, rfl⟩ := Prod.mk.inj (Option.some.inj first)
    exact second
  | cons c rest ih =>
    rw [scan] at first
    obtain ⟨⟨now, next⟩, step, first⟩ := Option.bind_eq_some_iff.mp first
    obtain ⟨⟨later, last⟩, scanned, same⟩ := Option.map_eq_some_iff.mp first
    obtain ⟨rfl, rfl⟩ := Prod.mk.inj same
    rw [List.cons_append, scan_cons step, ih scanned, Option.map_some, List.append_assoc]

theorem scan_flatMap {α : Type} {mode : Mode} {piece : α → List Char} {tokens : α → List Token}
    {xs : List α} (each : ∀ x ∈ xs, scan mode (piece x) = some (tokens x, mode)) :
    scan mode (xs.flatMap piece) = some (xs.flatMap tokens, mode) := by
  induction xs with
  | nil => rfl
  | cons x rest ih =>
    rw [List.flatMap_cons, List.flatMap_cons]
    exact scan_append (each x List.mem_cons_self) (ih fun y member => each y (List.mem_cons_of_mem x member))

theorem scan_word {name more : List Char} (all : ∀ c ∈ more, isWordChar c = true) :
    scan (.word name) more = some ([], .word (name ++ more)) := by
  induction more generalizing name with
  | nil => rw [List.append_nil]; rfl
  | cons c rest ih =>
    have step : scanChar (.word name) c = some ([], .word (name ++ [c])) :=
      if_pos (all c List.mem_cons_self)
    rw [scan_cons step, ih fun d member => all d (List.mem_cons_of_mem c member), Option.map_some,
      List.append_assoc, List.singleton_append]
    rfl

/-! ### Labels -/

theorem scan_escapeChar (raw : List Char) (c : Char) :
    scan (.quoted raw) (escapeChar c) = some ([], .quoted (raw ++ escapeChar c)) := by
  unfold escapeChar
  split
  · next backslash => simp [scan, scanChar]
  split
  · next quote => simp [scan, scanChar]
  · next backslash quote => simp [scan, scanChar, backslash, quote]

theorem scan_escape (raw line : List Char) :
    scan (.quoted raw) (line.flatMap escapeChar) =
      some ([], .quoted (raw ++ line.flatMap escapeChar)) := by
  induction line generalizing raw with
  | nil => simp [scan]
  | cons c rest ih =>
    rw [List.flatMap_cons]
    have both := scan_append (scan_escapeChar raw c) (ih (raw ++ escapeChar c))
    rwa [List.append_assoc] at both

/-- The characters of a label stay inside of the quotes. -/
theorem scan_labelChars (raw : List Char) (lines : List String) :
    scan (.quoted raw) (labelChars lines) = some ([], .quoted (raw ++ labelChars lines)) := by
  induction lines generalizing raw with
  | nil => simp [labelChars, scan]
  | cons line rest ih =>
    cases rest with
    | nil => exact scan_escape raw line.toList
    | cons next others =>
      have separator (raw : List Char) :
          scan (.quoted raw) ['\\', 'n'] = some ([], .quoted (raw ++ ['\\', 'n'])) := rfl
      have both := scan_append (scan_append (scan_escape raw line.toList) (separator _)) (ih _)
      simpa [labelChars] using both

/-- A character more at the front of the first line. -/
def consChar (c : Char) : List (List Char) → List (List Char)
  | [] => [[c]]
  | line :: rest => (c :: line) :: rest

/-- The lines of a label, from left to right: a backslash before a backslash or a quote is dropped, and
one before the letter n ends a line. -/
def labelLines? : List Char → Option (List (List Char))
  | [] => some [[]]
  | '\\' :: '\\' :: rest => (labelLines? rest).map (consChar '\\')
  | '\\' :: '"' :: rest => (labelLines? rest).map (consChar '"')
  | '\\' :: 'n' :: rest => (labelLines? rest).map ([] :: ·)
  | '\\' :: _ => none
  | c :: rest => (labelLines? rest).map (consChar c)

theorem labelLines?_escapeChar (c : Char) (rest : List Char) :
    labelLines? (escapeChar c ++ rest) = (labelLines? rest).map (consChar c) := by
  unfold escapeChar
  split
  · next backslash => rw [backslash]; rfl
  split
  · next quote => rw [quote]; rfl
  · next backslash quote =>
    rw [List.singleton_append, labelLines?]
    all_goals simp [backslash]

theorem labelLines?_escape {line first rest : List Char} {others : List (List Char)}
    (read : labelLines? rest = some (first :: others)) :
    labelLines? (line.flatMap escapeChar ++ rest) = some ((line ++ first) :: others) := by
  induction line with
  | nil => exact read
  | cons c line ih =>
    rw [List.flatMap_cons, List.append_assoc, labelLines?_escapeChar, ih, Option.map_some]
    rfl

/-- A label reads as the lines that it was made of. -/
theorem labelLines?_labelChars {lines : List String} (nonempty : lines ≠ []) :
    labelLines? (labelChars lines) = some (lines.map String.toList) := by
  induction lines with
  | nil => exact absurd rfl nonempty
  | cons line rest ih =>
    cases rest with
    | nil =>
      have ended : labelLines? [] = some [[]] := rfl
      have alone : labelLines? (line.toList.flatMap escapeChar ++ []) = some [line.toList ++ []] :=
        labelLines?_escape ended
      simpa [labelChars] using alone
    | cons next others =>
      have after : labelLines? ('\\' :: 'n' :: labelChars (next :: others)) =
          some ([] :: (next :: others).map String.toList) := by
        rw [labelLines?, ih (List.cons_ne_nil _ _), Option.map_some]
      have all : labelLines? (labelChars (line :: next :: others)) =
          some ((line.toList ++ []) :: (next :: others).map String.toList) := labelLines?_escape after
      rwa [List.append_nil] at all

/-- A backslash that was written twice ends no line, whatever comes after it. -/
example : labelLines? (labelChars ["a\\nb", "\"\\", "c\nd"]) =
    some ["a\\nb".toList, "\"\\".toList, "c\nd".toList] := by decide

/-! ### Statements -/

/-- A statement of a DOT document. -/
inductive Statement where
  /-- What holds of all vertices, of all edges or of the graph. -/
  | default (kind key value : String)
  /-- A vertex with its label. -/
  | vertex (name : String) (label : List String)
  | edge (source target : String)
deriving DecidableEq

/-- The words that name no vertex. -/
def keywords : List String := ["node", "edge", "graph", "digraph", "subgraph", "strict"]

/-- An attribute of a vertex, which has to be a label, or of what a word stands for. -/
def attribute? (subject key : List Char) (value : Token) : Option Statement :=
  let subject := String.ofList subject
  let key := String.ofList key
  match value with
  | .word value =>
    if keywords.contains subject then some (.default subject key (String.ofList value)) else none
  | .quoted raw =>
    if key = "label" ∧ ¬ keywords.contains subject then
      (labelLines? raw).map fun lines => .vertex subject (lines.map String.ofList)
    else none
  | _ => none

/-- The statements up to the brace that closes the document. -/
def statements? : List Token → Option (List Statement)
  | [.mark '\x7d'] => some []
  | .word source :: .arrow :: .word target :: .mark ';' :: rest =>
    (statements? rest).map (.edge (String.ofList source) (String.ofList target) :: ·)
  | .word subject :: .mark '[' :: .word key :: .mark '=' :: value :: .mark ']' :: .mark ';' :: rest =>
    match attribute? subject key value with
    | some statement => (statements? rest).map (statement :: ·)
    | none => none
  | _ => none

/-- What a DOT document says. -/
structure Drawing where
  /-- The comments above it, with their signs. -/
  comments : List String
  name : String
  statements : List Statement
deriving DecidableEq

def drawing? : List Token → Option Drawing
  | .comment text :: rest =>
    (drawing? rest).map fun d => { d with comments := String.ofList text :: d.comments }
  | .word opening :: .quoted name :: .mark '\x7b' :: rest =>
    if String.ofList opening = "digraph" then
      (statements? rest).map fun statements => ⟨[], String.ofList name, statements⟩
    else none
  | _ => none

def readDot (document : String) : Option Drawing :=
  match scan (.outside true) document.toList with
  | some (tokens, .outside _) => drawing? tokens
  | _ => none

/-! ### The parts of a document -/

theorem isWordChar_of_isDigit {c : Char} (digit : c.isDigit = true) : isWordChar c = true := by
  simp [isWordChar, Char.isAlphanum, digit]

theorem scan_boxName (fresh : Bool) (id : Nat) :
    scan (.outside fresh) (boxName id) = some ([], .word (boxName id)) := by
  have first : scanChar (.outside fresh) 'n' = some ([], .word ['n']) := by cases fresh <;> rfl
  have others : ∀ c ∈ (toString id).toList, isWordChar c = true := fun c member =>
    isWordChar_of_isDigit (Text.isDigit_of_mem_toString member)
  rw [boxName, scan_cons first, scan_word others]
  rfl

def boxTokens (verbose : Bool) (n : Node) : List Token :=
  [.word (boxName n.id), .mark '[', .word "label".toList, .mark '=',
    .quoted (labelChars (labelLines verbose n)), .mark ']', .mark ';']

theorem scan_boxChars (verbose : Bool) (n : Node) :
    scan (.outside true) (boxChars verbose n) = some (boxTokens verbose n, .outside true) := by
  have margin : scan (.outside true) "  ".toList = some ([], .outside false) := rfl
  have opening (name : List Char) : scan (.word name) " [label=\"".toList =
      some ([.word name, .mark '[', .word "label".toList, .mark '='], .quoted []) := rfl
  have closing (raw : List Char) : scan (.quoted raw) "\"];\n".toList =
      some ([.quoted raw, .mark ']', .mark ';'], .outside true) := rfl
  exact scan_append (scan_append (scan_append (scan_append margin (scan_boxName false n.id))
    (opening _)) (scan_labelChars [] _)) (closing _)

def arrowTokens (e : Edge) : List Token :=
  [.word (boxName e.source), .arrow, .word (boxName e.target), .mark ';']

theorem scan_arrowChars (e : Edge) :
    scan (.outside true) (arrowChars e) = some (arrowTokens e, .outside true) := by
  have margin : scan (.outside true) "  ".toList = some ([], .outside false) := rfl
  have between (name : List Char) : scan (.word name) " -> ".toList =
      some ([.word name, .arrow], .outside false) := rfl
  have closing (name : List Char) : scan (.word name) ";\n".toList =
      some ([.word name, .mark ';'], .outside true) := rfl
  exact scan_append (scan_append (scan_append (scan_append margin (scan_boxName false e.source))
    (between _)) (scan_boxName false e.target)) (closing _)

theorem scan_plain {raw text : List Char} (plain : ∀ c ∈ text, c ≠ '"' ∧ c ≠ '\\') :
    scan (.quoted raw) text = some ([], .quoted (raw ++ text)) := by
  have same : text.flatMap escapeChar = text := by
    rw [List.flatMap_congr fun c member => by
      rw [escapeChar, if_neg (plain c member).2, if_neg (plain c member).1]]
    exact List.flatMap_singleton' text
  have read := scan_escape raw text
  rwa [same] at read

def banner : List String :=
  ["#--------------------------------------------------",
    "# Map Reduce Plan                                  ",
    "#--------------------------------------------------"]

theorem scan_comment {text more : List Char} (one : '\n' ∉ more) :
    scan (.comment text) more = some ([], .comment (text ++ more)) := by
  induction more generalizing text with
  | nil => rw [List.append_nil]; rfl
  | cons c rest ih =>
    obtain ⟨other, one⟩ := not_or.mp (List.mem_cons.not.mp one)
    have step : scanChar (.comment text) c = some ([], .comment (text ++ [c])) := if_neg (Ne.symm other)
    rw [scan_cons step, ih one, Option.map_some, List.append_assoc, List.singleton_append]
    rfl

theorem scan_commentLine {line : List Char} (first : line.head? = some '#') (one : '\n' ∉ line) :
    scan (.outside true) (line ++ ['\n']) = some ([.comment line], .outside true) := by
  obtain ⟨rest, rfl⟩ := List.head?_eq_some_iff.mp first
  have opening : scan (.outside true) ['#'] = some ([], .comment ['#']) := rfl
  have inner : scan (.comment ['#']) rest = some ([], .comment ('#' :: rest)) :=
    scan_comment fun lineBreak => one (List.mem_cons_of_mem _ lineBreak)
  have closing : scan (.comment ('#' :: rest)) ['\n'] =
      some ([.comment ('#' :: rest)], .outside true) := rfl
  exact scan_append (scan_append opening inner) closing

theorem scan_bannerChars : scan (.outside true) bannerChars =
    some (banner.map fun line => .comment line.toList, .outside true) := by
  have lines : bannerChars = banner.flatMap fun line => line.toList ++ ['\n'] := by decide
  have signed : ∀ line ∈ banner, line.toList.head? = some '#' ∧ '\n' ∉ line.toList := by decide
  have all := scan_flatMap fun line (member : line ∈ banner) =>
    scan_commentLine (signed line member).1 (signed line member).2
  rwa [← List.map_eq_flatMap, ← lines] at all

def headTokens (scope : String) : List Token :=
  banner.map (fun line => .comment line.toList) ++
    [.word "digraph".toList, .quoted scope.toList, .mark '\x7b', .word "node".toList, .mark '[',
      .word "shape".toList, .mark '=', .word "box".toList, .mark ']', .mark ';']

theorem scan_head {scope : String} (plain : ∀ c ∈ scope.toList, c ≠ '"' ∧ c ≠ '\\') :
    scan (.outside true) (bannerChars ++ headerChars scope ++ "  node [shape=box];\n".toList) =
      some (headTokens scope, .outside true) := by
  have opening : scan (.outside true) "digraph \"".toList =
      some ([.word "digraph".toList], .quoted []) := rfl
  have closing (raw : List Char) : scan (.quoted raw) "\" \x7b\n".toList =
      some ([.quoted raw, .mark '\x7b'], .outside true) := rfl
  have boxes : scan (.outside true) "  node [shape=box];\n".toList =
      some ((headTokens scope).drop 6, .outside true) := rfl
  have header : scan (.outside true) (headerChars scope) = some ([.word "digraph".toList,
      .quoted scope.toList, .mark '\x7b'], .outside true) :=
    scan_append (scan_append opening (scan_plain plain)) (closing scope.toList)
  have all := scan_append (scan_append scan_bannerChars header) boxes
  exact all

/-! ### What a document says -/

def arrow (e : Edge) : Statement := .edge ("n" ++ toString e.source) ("n" ++ toString e.target)

def box (verbose : Bool) (n : Node) : Statement := .vertex ("n" ++ toString n.id) (labelLines verbose n)

theorem ofList_boxName (id : Nat) : String.ofList (boxName id) = "n" ++ toString id := by
  have same : boxName id = "n".toList ++ (toString id).toList := rfl
  rw [same, String.ofList_append, String.ofList_toList, String.ofList_toList]

/-- No word that stands for something else is a letter and digits, as the names of boxes are. -/
theorem not_keyword (id : Nat) : keywords.contains (String.ofList (boxName id)) = false := by
  have spelled : ∀ word ∈ keywords, word.toList.tail.all Char.isDigit = false := by decide
  rw [Bool.eq_false_iff]
  intro keyword
  have other := spelled _ (List.contains_iff_mem.mp keyword)
  rw [String.toList_ofList, boxName, List.tail_cons, Bool.eq_false_iff] at other
  exact other (List.all_eq_true.mpr fun c => Text.isDigit_of_mem_toString)

theorem statements?_arrows (edges : List Edge) :
    statements? (edges.flatMap arrowTokens ++ [.mark '\x7d']) = some (edges.map arrow) := by
  induction edges with
  | nil => rfl
  | cons e rest ih =>
    have step (tokens : List Token) : statements? (arrowTokens e ++ tokens) =
        (statements? tokens).map
          (.edge (String.ofList (boxName e.source)) (String.ofList (boxName e.target)) :: ·) := rfl
    rw [List.flatMap_cons, List.append_assoc, step, ih, Option.map_some, ofList_boxName,
      ofList_boxName]
    rfl

theorem statements?_boxes (verbose : Bool) (nodes : List Node) (tokens : List Token) :
    statements? (nodes.flatMap (boxTokens verbose) ++ tokens) =
      (statements? tokens).map (nodes.map (box verbose) ++ ·) := by
  induction nodes with
  | nil => simp
  | cons n rest ih =>
    have own : attribute? (boxName n.id) "label".toList (.quoted (labelChars (labelLines verbose n))) =
        some (box verbose n) := by
      have lines : labelLines verbose n ≠ [] := List.cons_ne_nil _ _
      have free : ¬ keywords.contains (String.ofList (boxName n.id)) = true := by
        rw [not_keyword]
        exact Bool.false_ne_true
      rw [attribute?, if_pos ⟨String.ofList_toList, free⟩, labelLines?_labelChars lines, ofList_boxName, box]
      simp
    have step (tokens : List Token) : statements? (boxTokens verbose n ++ tokens) =
        match attribute? (boxName n.id) "label".toList (.quoted (labelChars (labelLines verbose n))) with
        | some statement => (statements? tokens).map (statement :: ·)
        | none => none := rfl
    rw [List.flatMap_cons, List.append_assoc, step, own, ih]
    cases statements? tokens <;> rfl

theorem drawing?_head (scope : String) (tokens : List Token) :
    drawing? (headTokens scope ++ tokens) = (statements? tokens).map fun statements =>
      ⟨banner, scope, .default "node" "shape" "box" :: statements⟩ := by
  have opening (more : List Token) :
      drawing? (.word "digraph".toList :: .quoted scope.toList :: .mark '\x7b' :: more) =
        (statements? more).map fun statements => ⟨[], scope, statements⟩ := by
    rw [drawing?, if_pos String.ofList_toList, String.ofList_toList]
  have defaults : statements? (.word "node".toList :: .mark '[' :: .word "shape".toList :: .mark '=' ::
      .word "box".toList :: .mark ']' :: .mark ';' :: tokens) =
      (statements? tokens).map (.default "node" "shape" "box" :: ·) := rfl
  have comment (line : String) (more : List Token) : drawing? (.comment line.toList :: more) =
      (drawing? more).map fun d => { d with comments := line :: d.comments } := by
    rw [drawing?, String.ofList_toList]
  rw [headTokens, banner]
  simp only [List.map_cons, List.map_nil, List.cons_append, List.nil_append, comment, opening, defaults,
    Option.map_map]
  rfl

def drawing (g : Graph) (verbose : Bool) : Drawing where
  comments := banner
  name := g.scope
  statements := .default "node" "shape" "box" :: g.nodes.map (box verbose) ++ g.edges.toList.map arrow

/-- The document of a graph reads as what it says, if the scope needs no escapes. -/
theorem readDot_dot {g : Graph} (plain : ∀ c ∈ g.scope.toList, c ≠ '"' ∧ c ≠ '\\')
    (verbose : Bool) : readDot (dot g verbose) = some (drawing g verbose) := by
  have closing : scan (.outside true) "\x7d\n".toList = some ([.mark '\x7d'], .outside true) := rfl
  have scanned := scan_append (scan_append (scan_append (scan_head plain)
    (scan_flatMap fun n (_ : n ∈ g.nodes) => scan_boxChars verbose n))
    (scan_flatMap fun e (_ : e ∈ g.edges.toList) => scan_arrowChars e)) closing
  rw [readDot, dot, String.toList_ofList, scanned]
  dsimp only
  rw [List.append_assoc, List.append_assoc, drawing?_head, statements?_boxes, statements?_arrows]
  rfl

end Wavefront.Explain
