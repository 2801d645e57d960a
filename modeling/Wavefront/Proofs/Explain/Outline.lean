import Wavefront.Explain.Listing
import Wavefront.Proofs.Lookup
set_option autoImplicit false

/-!
A reader of listings. Of the lines of a listing it looks at those that begin a node and those that name
the nodes it reads, and at no others. Main statement: where no text in a graph has a line break the
listing of the graph reads as its nodes, each with the nodes that it reads.
-/
namespace Wavefront.Explain
open Wavefront.Text

/-! ### Texts of one line -/

/-- Whether a text has no line break. -/
def OneLine (s : String) : Prop := '\n' ∉ s.toList

instance : DecidablePred OneLine := fun s => inferInstanceAs (Decidable ('\n' ∉ s.toList))

namespace OneLine

variable {s t : String}

theorem append (first : OneLine s) (second : OneLine t) : OneLine (s ++ t) := by
  rw [OneLine, String.toList_append, List.mem_append]
  exact not_or.mpr ⟨first, second⟩

theorem number (n : Nat) : OneLine (toString n) := notMem_toString (by decide) n

theorem indent (width : Nat) (one : OneLine s) : OneLine (indent width s) := by
  rw [OneLine, Text.indent, String.toList_ofList, List.mem_append]
  exact not_or.mpr ⟨fun member => absurd (List.eq_of_mem_replicate member) (by decide), one⟩

theorem intercalate {items : List String} (between : OneLine s) (each : ∀ t ∈ items, OneLine t) :
    OneLine (String.intercalate s items) := by
  rw [OneLine, String.toList_intercalate]
  induction items with
  | nil => exact List.not_mem_nil
  | cons t rest ih =>
    have first : '\n' ∉ t.toList := each t List.mem_cons_self
    have others := ih fun u member => each u (List.mem_cons_of_mem t member)
    cases rest with
    | nil => simpa using first
    | cons u more =>
      rw [List.map_cons, List.map_cons, List.intercalate_cons_cons, List.mem_append, List.mem_append]
      exact not_or.mpr ⟨not_or.mpr ⟨first, between⟩, others⟩

theorem keysDisplay {keys : List String} (each : ∀ k ∈ keys, OneLine k) :
    OneLine (keysDisplay keys) := by
  unfold Wavefront.keysDisplay
  split
  · decide
  · exact intercalate (by decide) each

end OneLine

end Wavefront.Explain

namespace Wavefront

def AggregateCall.texts (c : AggregateCall) : List String := c.column.toList ++ [c.resultName]

def LocalOp.texts : LocalOp → List String
  | .filter predicate => [predicate]
  | .project columns => columns
  | .stream command _ => [command]
  | .rearrange _ keys => keys
  | .aggregate keys calls _ => keys ++ calls.flatMap AggregateCall.texts
  | .limit _ | .package .. | .flatten _ | .joinPackage .. => []

def NodeOutput.texts : NodeOutput → List String
  | .final location format => [location, format]
  | .temporary location => [location]

def Node.texts (n : Node) : List String :=
  n.map.map (·.source.location) ++ n.ops.flatMap LocalOp.texts ++ n.output.texts ++
    (n.annotations.outputSchema.toList.flatMap Schema.fields).map Field.name

/-- The texts in a graph that its explanations show, the scope aside. -/
def Graph.texts (g : Graph) : List String := g.nodes.flatMap Node.texts

end Wavefront

namespace Wavefront.Explain
open Wavefront.Text

theorem oneLine_call {c : AggregateCall} (each : ∀ s ∈ c.texts, OneLine s) : OneLine c.display := by
  obtain ⟨function, column, resultName⟩ := c
  have result : OneLine resultName := each resultName (by simp [AggregateCall.texts])
  have name : OneLine function.name := by cases function <;> decide
  have shown : OneLine (column.getD "*") := by
    cases column with
    | none => decide
    | some column => exact each column (by simp [AggregateCall.texts])
  exact (((name.append (by decide)).append shown).append (by decide)).append result

/-- An operation is shown in one line if its texts have one. -/
theorem oneLine_display {op : LocalOp} (each : ∀ s ∈ op.texts, OneLine s) : OneLine op.display := by
  cases op with
  | filter predicate =>
    have own : OneLine predicate := each predicate (by simp [LocalOp.texts])
    exact (OneLine.append (by decide) own).append (by decide)
  | project columns =>
    have own : OneLine (String.intercalate "," columns) := .intercalate (by decide) each
    exact (OneLine.append (by decide) own).append (by decide)
  | stream command _ =>
    have own : OneLine command := each command (by simp [LocalOp.texts])
    exact (OneLine.append (by decide) own).append (by decide)
  | limit n => exact (OneLine.append (by decide) (.number n)).append (by decide)
  | rearrange index keys =>
    have own : OneLine (keysDisplay keys) := .keysDisplay each
    exact (((OneLine.append (by decide) (.number index)).append (by decide)).append own).append (by decide)
  | package kind inputs _ =>
    have own : OneLine kind.display := by
      cases kind with
      | join joinType => cases joinType <;> decide
      | group | coGroup | distinct => decide
    exact ((OneLine.append (by decide) own).append (by decide)).append (.number inputs)
  | flatten inputs => exact OneLine.append (by decide) (.number inputs)
  | joinPackage inputs joinType chunkSize streamedInput _ =>
    have own : OneLine joinType.title := by cases joinType <;> decide
    exact ((((((OneLine.append (by decide) own).append (by decide)).append (.number inputs)).append
      (by decide)).append (.number streamedInput)).append (by decide)).append (.number chunkSize)
  | aggregate keys calls phase =>
    have own : OneLine (keysDisplay keys) :=
      .keysDisplay fun k member => each k (List.mem_append_left _ member)
    have name : OneLine phase.name := by cases phase <;> decide
    have called : OneLine (String.intercalate ", " (calls.map AggregateCall.display)) := by
      refine .intercalate (by decide) (List.forall_mem_map.mpr fun c member => ?_)
      exact oneLine_call fun s among =>
        each s (List.mem_append_right _ (List.mem_flatMap.mpr ⟨c, member, among⟩))
    exact (((((OneLine.append (by decide) name).append (by decide)).append own).append
      (by decide)).append called)

/-! ### What a reader looks for -/

/-- What a line of a listing says of the graph. -/
inductive Mention where
  /-- A node begins. -/
  | node (id : Nat)
  /-- The node reads these nodes. -/
  | reads (ids : List Nat)
deriving DecidableEq

def number? (cs : List Char) : Option Nat :=
  if cs.isEmpty || !cs.all Char.isDigit then none else some (digitsValue cs)

def nodeNumber? (label : List Char) : Option Nat := (label.dropPrefix? "node-".toList).bind number?

/-- What stands between commas, without the spaces in front. -/
def items (cs : List Char) : List (List Char) := (cs.splitOn ',').map (·.dropWhile (· == ' '))

/-- What a line says, and nothing if it begins otherwise. -/
def mentions? (line : List Char) : Option (List Mention) :=
  match line.dropPrefix? "MapReduce ".toList with
  | some label => (nodeNumber? label).map fun id => [.node id]
  | none =>
    match line.dropPrefix? "  Depends on ".toList with
    | some labels => ((items labels).mapM nodeNumber?).map fun ids => [.reads ids]
    | none => some []

/-- The nodes, each with the nodes that it reads. -/
def gather? : List Mention → Option (List (Nat × List Nat))
  | [] => some []
  | .node id :: .reads ids :: rest => (gather? rest).map ((id, ids) :: ·)
  | .node id :: rest => (gather? rest).map ((id, []) :: ·)
  | .reads _ :: _ => none

def readListing (text : String) : Option (List (Nat × List Nat)) :=
  ((text.toList.splitOn '\n').mapM mentions?).bind fun all => gather? all.flatten

theorem nodeNumber?_nodeLabel (id : Nat) : nodeNumber? (nodeLabel id).toList = some id := by
  have dropped : (nodeLabel id).toList.dropPrefix? "node-".toList = some (toString id).toList := by
    rw [nodeLabel, String.toList_append]
    exact List.dropPrefix?_eq_some_iff.mpr ⟨_, rfl, beq_self_eq_true _⟩
  have all : (toString id).toList.all Char.isDigit = true :=
    List.all_eq_true.mpr fun c => isDigit_of_mem_toString
  have spelled : ((toString id).toList.isEmpty || !(toString id).toList.all Char.isDigit) = false := by
    rw [all, List.isEmpty_eq_false_iff.mpr (toList_toString_ne_nil id)]
    rfl
  rw [nodeNumber?, dropped, Option.bind_some, number?, spelled, digitsValue_toString,
    if_neg Bool.false_ne_true]

theorem items_space (cs : List Char) : items (' ' :: cs) = items cs := by
  rw [items, items, List.splitOn, List.splitOn, List.splitOnP_cons_eq_if_modifyHead]
  cases List.splitOnP (· == ',') cs <;> simp

section Items

variable {item : List Char} (whole : ',' ∉ item) (start : item.head? ≠ some ' ')
include whole start

theorem items_single : items item = [item] := by
  have split : ([','].intercalate [item]).splitOn ',' = [item] :=
    List.splitOn_intercalate ',' (by simpa using whole) (List.cons_ne_nil _ _)
  rw [List.intercalate_singleton] at split
  cases item with
  | nil => rfl
  | cons c more =>
    rw [items, split, List.map_singleton, List.dropWhile_cons_of_neg (by simpa using start)]

theorem items_cons (rest : List Char) : items (item ++ ',' :: rest) = item :: items rest := by
  have other : ∀ c ∈ item, (c == ',') = false := fun c member => by
    rw [beq_eq_false_iff_ne]
    rintro rfl
    exact whole member
  have alone := items_single whole start
  have split : (item ++ ',' :: rest).splitOn ',' = item :: rest.splitOn ',' :=
    List.splitOnP_append_cons_of_forall_mem other _ rfl _
  cases item with
  | nil => rw [items, split, List.map_cons]; rfl
  | cons c more =>
    rw [items, split, List.map_cons, List.dropWhile_cons_of_neg (by simpa using start)]
    rfl

end Items

theorem comma_notMem_nodeLabel (id : Nat) : ',' ∉ (nodeLabel id).toList := by
  rw [nodeLabel, String.toList_append, List.mem_append]
  exact not_or.mpr ⟨by decide, notMem_toString (by decide) id⟩

/-- A list of labels reads as the numbers of the nodes. -/
theorem mapM_items_labels {ids : List Nat} (nonempty : ids ≠ []) :
    (items (commaList (ids.map nodeLabel)).toList).mapM nodeNumber? = some ids := by
  have start (id : Nat) : (nodeLabel id).toList.head? ≠ some ' ' := by
    rw [nodeLabel, String.toList_append]
    exact nofun
  induction ids with
  | nil => exact absurd rfl nonempty
  | cons id rest ih =>
    cases rest with
    | nil =>
      have alone : (commaList ([id].map nodeLabel)).toList = (nodeLabel id).toList := by
        simp [commaList]
      rw [alone, items_single (comma_notMem_nodeLabel id) (start id), List.mapM_cons,
        nodeNumber?_nodeLabel]
      rfl
    | cons next others =>
      have split : (commaList ((id :: next :: others).map nodeLabel)).toList =
          (nodeLabel id).toList ++ ',' :: ' ' :: (commaList ((next :: others).map nodeLabel)).toList := by
        simp [commaList]
      rw [split, items_cons (comma_notMem_nodeLabel id) (start id), items_space, List.mapM_cons,
        nodeNumber?_nodeLabel, ih (List.cons_ne_nil _ _)]
      rfl

/-! ### Lines of a listing -/

/-- A line that is a line indeed and says nothing to the reader. -/
structure Quiet (line : String) : Prop where
  one : OneLine line
  means : mentions? line.toList = some []

/-- Lines, each a line indeed, and what a reader finds in them. -/
inductive Told : List String → List Mention → Prop
  | nil : Told [] []
  | cons {line : String} {lines : List String} {found more : List Mention} (one : OneLine line)
      (means : mentions? line.toList = some found) (rest : Told lines more) :
      Told (line :: lines) (found ++ more)

namespace Told

variable {lines others : List String} {found more : List Mention}

theorem append (first : Told lines found) (second : Told others more) :
    Told (lines ++ others) (found ++ more) := by
  induction first with
  | nil => exact second
  | cons one means rest ih =>
    rw [List.append_assoc]
    exact .cons one means ih

theorem flatMap {α : Type} {xs : List α} {part : α → List String} {told : α → List Mention}
    (each : ∀ x ∈ xs, Told (part x) (told x)) : Told (xs.flatMap part) (xs.flatMap told) := by
  induction xs with
  | nil => exact .nil
  | cons x rest ih =>
    exact (each x List.mem_cons_self).append (ih fun y member => each y (List.mem_cons_of_mem x member))

theorem single {line : String} (one : OneLine line) (means : mentions? line.toList = some found) :
    Told [line] found := by
  have told := Told.cons one means .nil
  rwa [List.append_nil] at told

theorem silent (each : ∀ line ∈ lines, Quiet line) : Told lines [] := by
  induction lines with
  | nil => exact .nil
  | cons line rest ih =>
    have first := each line List.mem_cons_self
    exact .cons first.one first.means (ih fun other member => each other (List.mem_cons_of_mem line member))

theorem quiet {line : String} (quiet : Quiet line) : Told [line] [] := .single quiet.one quiet.means

/-- A listing of such lines reads as what is gathered from them. -/
theorem readListing_unlines (told : Told lines found) : readListing (unlines lines) = gather? found := by
  have split : (unlines lines).toList.splitOn '\n' = lines.map String.toList ++ [[]] := by
    rw [unlines, String.toList_ofList]
    induction told with
    | nil => rfl
    | @cons line lines found more one means rest ih =>
      have other : ∀ c ∈ line.toList, (c == '\n') = false := fun c member => by
        rw [beq_eq_false_iff_ne]
        rintro rfl
        exact one member
      rw [List.flatMap_cons, List.append_assoc, List.singleton_append, List.splitOn,
        List.splitOnP_append_cons_of_forall_mem other _ rfl, List.map_cons, List.cons_append, ← ih]
      rfl
  have mentioned : ∃ all, (lines.map String.toList ++ [[]]).mapM mentions? = some all ∧
      all.flatten = found := by
    clear split
    induction told with
    | nil => exact ⟨[[]], rfl, rfl⟩
    | @cons line lines found more one means rest ih =>
      obtain ⟨all, read, rfl⟩ := ih
      refine ⟨found :: all, ?_, List.flatten_cons⟩
      rw [List.map_cons, List.cons_append, List.mapM_cons, means, read]
      rfl
  obtain ⟨all, read, rfl⟩ := mentioned
  rw [readListing, split, read, Option.bind_some]

end Told

theorem dropPrefix?_eq_none {c : Char} {front line : List Char} (other : line.head? ≠ some c) :
    line.dropPrefix? (c :: front) = none := by
  refine Option.eq_none_iff_forall_ne_some.mpr fun rest dropped => ?_
  obtain ⟨same, rfl, equal⟩ := List.dropPrefix?_eq_some_iff.mp dropped
  rw [eq_of_beq equal] at other
  exact other rfl

/-- A line that begins neither as a node nor as the nodes that it reads. -/
theorem mentions?_eq_nil {line : List Char} (first : line.head? ≠ some 'M')
    (third : (line.drop 2).head? ≠ some 'D') : mentions? line = some [] := by
  have node : line.dropPrefix? "MapReduce ".toList = none := dropPrefix?_eq_none first
  have reads : line.dropPrefix? "  Depends on ".toList = none := by
    refine Option.eq_none_iff_forall_ne_some.mpr fun rest dropped => ?_
    obtain ⟨front, rfl, same⟩ := List.dropPrefix?_eq_some_iff.mp dropped
    rw [eq_of_beq same] at third
    exact third rfl
  rw [mentions?, node]
  dsimp only
  rw [reads]

theorem toList_indent_two (text : String) : (indent 2 text).toList = ' ' :: ' ' :: text.toList := by
  rw [indent, String.toList_ofList]
  rfl

theorem mentions?_node (id : Nat) :
    mentions? ("MapReduce " ++ nodeLabel id).toList = some [.node id] := by
  have dropped : ("MapReduce " ++ nodeLabel id).toList.dropPrefix? "MapReduce ".toList =
      some (nodeLabel id).toList := by
    rw [String.toList_append]
    exact List.dropPrefix?_eq_some_iff.mpr ⟨_, rfl, beq_self_eq_true _⟩
  rw [mentions?, dropped]
  dsimp only
  rw [nodeNumber?_nodeLabel, Option.map_some]

/-- A line that names the nodes that a node reads. -/
theorem mentions?_reads {ids : List Nat} (nonempty : ids ≠ []) :
    mentions? (indent 2 ("Depends on " ++ commaList (ids.map nodeLabel))).toList =
      some [.reads ids] := by
  have shape : (indent 2 ("Depends on " ++ commaList (ids.map nodeLabel))).toList =
      "  Depends on ".toList ++ (commaList (ids.map nodeLabel)).toList := by
    rw [toList_indent_two, String.toList_append]
    rfl
  have node : ("  Depends on ".toList ++ (commaList (ids.map nodeLabel)).toList).dropPrefix?
      "MapReduce ".toList = none := dropPrefix?_eq_none (c := 'M') (by simp)
  have reads : ("  Depends on ".toList ++ (commaList (ids.map nodeLabel)).toList).dropPrefix?
      "  Depends on ".toList = some (commaList (ids.map nodeLabel)).toList :=
    List.dropPrefix?_eq_some_iff.mpr ⟨_, rfl, beq_self_eq_true _⟩
  rw [shape, mentions?, node]
  dsimp only
  rw [reads]
  dsimp only
  rw [mapM_items_labels nonempty, Option.map_some]

namespace Quiet

/-- A line that is set in by three spaces or more. -/
theorem inner {width : Nat} (wide : 3 ≤ width) {text : String} (one : OneLine text) :
    Quiet (indent width text) := by
  obtain ⟨more, rfl⟩ := Nat.exists_eq_add_of_le' wide
  have spaces : (indent (more + 3) text).toList =
      ' ' :: ' ' :: ' ' :: (List.replicate more ' ' ++ text.toList) := by
    rw [indent, String.toList_ofList]
    rfl
  refine ⟨one.indent _, ?_⟩
  rw [spaces]
  exact mentions?_eq_nil (by simp) (by simp)

theorem outer {text : String} (one : OneLine text) (other : text.toList.head? ≠ some 'D') :
    Quiet (indent 2 text) := by
  refine ⟨one.indent _, ?_⟩
  rw [toList_indent_two]
  exact mentions?_eq_nil (by simp) other

theorem word {front rest : String} {c : Char} (first : front.toList.head? = some c) (other : c ≠ 'D')
    (one : OneLine (front ++ rest)) : Quiet (indent 2 (front ++ rest)) := by
  refine outer one ?_
  rw [String.toList_append, List.head?_append, first]
  simpa using other

end Quiet

section Parts

variable {n : Node}

theorem opLines_told {width : Nat} (wide : 3 ≤ width) {ops : List LocalOp}
    (each : ∀ op ∈ ops, ∀ s ∈ op.texts, OneLine s) : Told (opLines width ops) [] :=
  .silent (List.forall_mem_map.mpr fun op member => .inner wide (oneLine_display (each op member)))

theorem branchLines_told {b : Branch} (location : OneLine b.source.location)
    (each : ∀ op ∈ b.ops, ∀ s ∈ op.texts, OneLine s) (position : Nat) :
    Told (branchLines b position) [] := by
  have source : OneLine (sourceText b.source) := by
    cases same : b.source with
    | file place schema =>
      rw [same] at location
      exact (OneLine.append (by decide) location).append (by decide)
    | temp node place =>
      rw [same] at location
      exact ((OneLine.append (by decide) location).append (by decide)).append
        (OneLine.append (by decide) (.number node))
  have first : OneLine ("branch " ++ toString position ++ ": " ++ sourceText b.source) :=
    ((OneLine.append (by decide) (.number position)).append (by decide)).append source
  exact (Told.quiet (.inner (by decide) first)).append (opLines_told (by decide) each)

theorem combineLines_told {c : Option CombinePlan}
    (each : ∀ op ∈ (c.map CombinePlan.ops).getD [], ∀ s ∈ op.texts, OneLine s) :
    Told (combineLines c) [] := by
  cases c with
  | none => exact .nil
  | some c =>
    have first : OneLine ("Combine Plan chunk=" ++ toString c.chunkSize) :=
      .append (by decide) (.number _)
    exact (Told.quiet (.word (c := 'C') (by decide) (by decide) first)).append
      (opLines_told (by decide) each)

theorem reduceLines_told (each : ∀ op ∈ n.reduce, ∀ s ∈ op.texts, OneLine s) :
    Told (reduceLines n) [] := by
  unfold reduceLines
  split
  · exact .nil
  · cases n.parallelism with
    | none =>
      exact (Told.quiet (.outer (by decide) (by decide))).append (opLines_told (by decide) each)
    | some count =>
      have first : OneLine ("Reduce Plan parallelism=" ++ toString count) :=
        .append (by decide) (.number count)
      exact (Told.quiet (.word (c := 'R') (by decide) (by decide) first)).append
        (opLines_told (by decide) each)

theorem outputLine_told {output : NodeOutput} (each : ∀ s ∈ output.texts, OneLine s) :
    Told [outputLine output] [] := by
  cases output with
  | final location format =>
    have place : OneLine location := each location (by simp [NodeOutput.texts])
    have form : OneLine format := each format (by simp [NodeOutput.texts])
    have first : OneLine ("Store[" ++ (location ++ ("] format=" ++ format))) :=
      .append (by decide) (place.append (.append (by decide) form))
    have line : outputLine (.final location format) =
        indent 2 ("Store[" ++ (location ++ ("] format=" ++ format))) := by
      rw [outputLine, String.append_assoc, String.append_assoc]
    rw [line]
    exact .quiet (.word (c := 'S') (by decide) (by decide) first)
  | temporary location =>
    have place : OneLine location := each location (by simp [NodeOutput.texts])
    have first : OneLine ("Store[" ++ (location ++ "] temporary")) :=
      .append (by decide) (place.append (by decide))
    have line : outputLine (.temporary location) = indent 2 ("Store[" ++ (location ++ "] temporary")) := by
      rw [outputLine, String.append_assoc]
    rw [line]
    exact .quiet (.word (c := 'S') (by decide) (by decide) first)

theorem dependencyLines_told (ids : List Nat) :
    Told (dependencyLines ids) (if ids = [] then [] else [.reads ids]) := by
  cases ids with
  | nil => exact .nil
  | cons id rest =>
    have labels : OneLine (commaList ((id :: rest).map nodeLabel)) :=
      .intercalate (by decide) (List.forall_mem_map.mpr fun other _ => .append (by decide) (.number other))
    have nonempty : id :: rest ≠ [] := List.cons_ne_nil _ _
    have line : dependencyLines (id :: rest) =
        [indent 2 ("Depends on " ++ commaList ((id :: rest).map nodeLabel))] := rfl
    rw [if_neg nonempty, line]
    exact .single ((OneLine.append (by decide) labels).indent _) (mentions?_reads nonempty)

theorem layoutLine?_quiet {op : LocalOp} {line : String} (is : layoutLine? op = some line) :
    Quiet line := by
  have full : Quiet (indent 2 ("package layout: " ++ "Full")) := .outer (by decide) (by decide)
  have stripped : Quiet (indent 2 ("package layout: " ++ "KeyStripped")) :=
    .outer (by decide) (by decide)
  have either {a : PackageAnnotation} : layoutLine? (.package .group 1 (some a)) = some line →
      Quiet line := by
    obtain ⟨_, layout⟩ := a
    intro is
    cases layout with
    | full => exact Option.some.inj is ▸ full
    | keyStripped => exact Option.some.inj is ▸ stripped
  cases op with
  | package kind inputs known =>
    cases known with
    | none => cases is
    | some a => exact either is
  | joinPackage inputs joinType chunkSize streamedInput known =>
    cases known with
    | none => cases is
    | some a => exact either is
  | _ => cases is

theorem annotationLines_told
    (each : ∀ schema ∈ n.annotations.outputSchema, ∀ f ∈ schema.fields, OneLine f.name) :
    Told (annotationLines n) [] := by
  have keyType : Told ((n.annotations.keyType.map fun t => indent 2 ("key type: " ++ t.name)).toList)
      [] := by
    cases n.annotations.keyType with
    | none => exact .nil
    | some t => exact .quiet (.outer (by cases t <;> decide) (by cases t <;> decide))
  have streams : Told (if n.annotations.stream.any then
      [indent 2 ("streaming: map=" ++ switchText n.annotations.stream.map ++ " combine=" ++
        switchText n.annotations.stream.combine ++ " reduce=" ++
        switchText n.annotations.stream.reduce)] else []) [] := by
    obtain ⟨map, combine, reduce⟩ := n.annotations.stream
    split
    · refine .quiet (.outer ?_ ?_)
      · cases map <;> cases combine <;> cases reduce <;> decide
      · cases map <;> cases combine <;> cases reduce <;> decide
    · exact .nil
  have schema : Told ((n.annotations.outputSchema.map fun s =>
      indent 2 ("output schema: (" ++ commaList (s.fields.map fieldText) ++ ")")).toList) [] := by
    cases there : n.annotations.outputSchema with
    | none => exact .nil
    | some s =>
      have fields : OneLine (commaList (s.fields.map fieldText)) := by
        refine .intercalate (by decide) (List.forall_mem_map.mpr fun f member => ?_)
        have type : OneLine f.dataType.name := by cases f.dataType <;> decide
        exact ((each s there f member).append (by decide)).append type
      have first : OneLine ("output schema: (" ++ (commaList (s.fields.map fieldText) ++ ")")) :=
        .append (by decide) (fields.append (by decide))
      rw [Option.map_some, Option.toList_some, String.append_assoc]
      exact .quiet (.word (c := 'o') (by decide) (by decide) first)
  have layouts : Told (n.ops.filterMap layoutLine?) [] := by
    refine .silent fun line member => ?_
    obtain ⟨op, -, is⟩ := List.mem_filterMap.mp member
    exact layoutLine?_quiet is
  exact ((keyType.append streams).append schema).append layouts

/-- What a reader finds in the lines of a node. -/
theorem nodeLines_told (g : Graph) (verbose : Bool) (each : ∀ s ∈ n.texts, OneLine s) :
    Told (nodeLines g verbose n)
      (.node n.id :: if g.predecessors n.id = [] then [] else [.reads (g.predecessors n.id)]) := by
  simp only [Node.texts, List.forall_mem_append, List.forall_mem_map] at each
  obtain ⟨⟨⟨locations, ops⟩, output⟩, fields⟩ := each
  have ops : ∀ op ∈ n.ops, ∀ s ∈ op.texts, OneLine s := fun op member s among =>
    ops s (List.mem_flatMap.mpr ⟨op, member, among⟩)
  simp only [Node.ops, List.forall_mem_append] at ops
  obtain ⟨⟨mapped, combined⟩, reduced⟩ := ops
  have heading : Told ["MapReduce " ++ nodeLabel n.id, indent 2 "Map Plan"] [.node n.id] :=
    .cons (.append (by decide) (.append (by decide) (.number n.id))) (mentions?_node n.id)
      (.quiet (.outer (by decide) (by decide)))
  have branches : Told (n.map.zipIdx.flatMap fun part => branchLines part.1 part.2) [] := by
    have told := Told.flatMap fun part (member : part ∈ n.map.zipIdx) =>
      have among : part.1 ∈ n.map := (List.mem_zipIdx' member).2 ▸ List.getElem_mem _
      branchLines_told (locations part.1 among)
        (fun op inside => mapped op (List.mem_flatMap.mpr ⟨part.1, among, inside⟩)) part.2
    rwa [List.flatMap_eq_nil_iff.mpr fun _ _ => rfl] at told
  have annotations : Told (if verbose then annotationLines n else []) [] := by
    cases verbose with
    | false => exact .nil
    | true =>
      refine annotationLines_told fun schema known f member => fields f ?_
      exact List.mem_flatMap.mpr ⟨schema, Option.mem_toList.mpr known, member⟩
  have all := (((((heading.append branches).append (combineLines_told combined)).append
    (reduceLines_told reduced)).append (outputLine_told output)).append
    (dependencyLines_told (g.predecessors n.id))).append annotations
  simpa [nodeLines] using all

end Parts

/-- The nodes of a graph are gathered one by one, each with the nodes that it reads. -/
theorem gather?_nodes (reads : Nat → List Nat) (ids : List Nat) :
    gather? (ids.flatMap fun id => .node id :: if reads id = [] then [] else [.reads (reads id)]) =
      some (ids.map fun id => (id, reads id)) := by
  induction ids with
  | nil => rfl
  | cons id rest ih =>
    rw [List.flatMap_cons, List.map_cons, List.cons_append]
    by_cases none : reads id = []
    · rw [if_pos none, none, List.nil_append]
      cases rest with
      | nil => rfl
      | cons next more =>
        rw [List.flatMap_cons, List.cons_append] at ih ⊢
        rw [gather?, ih, Option.map_some]
        exact nofun
    · rw [if_neg none, List.singleton_append, gather?, ih, Option.map_some]

/-- The listing of a graph reads as its nodes, each with the nodes that it reads, if its texts have one
line each. -/
theorem readListing_listing {g : Graph} (scope : OneLine g.scope) (each : ∀ s ∈ g.texts, OneLine s)
    (verbose : Bool) : readListing (listing g verbose) =
      some (g.nodes.map fun n => (n.id, g.predecessors n.id)) := by
  have opening : OneLine ("Job graph " ++ g.scope ++ " (" ++ toString g.nodes.length ++ " nodes)") :=
    (((OneLine.append (by decide) scope).append (by decide)).append (.number _)).append (by decide)
  have unread : mentions? ("Job graph " ++ g.scope ++ " (" ++ toString g.nodes.length ++
      " nodes)").toList = some [] := by
    refine mentions?_eq_nil ?_ ?_ <;> simp [String.toList_append]
  have nodes := Told.flatMap fun n (member : n ∈ g.nodes) => nodeLines_told g verbose fun s among =>
    each s (List.mem_flatMap.mpr ⟨n, member, among⟩)
  have told := Told.cons opening unread nodes
  have gathered := gather?_nodes g.predecessors (g.nodes.map Node.id)
  rw [List.flatMap_map, List.map_map] at gathered
  rw [listing, listingLines, told.readListing_unlines, List.nil_append]
  exact gathered

end Wavefront.Explain
