import Wavefront.Graph.Basic
import Wavefront.Proofs.Plan.Document
set_option autoImplicit false

/-!
Documents of graphs. A graph whose numbers are machine words is written so that it can be read back:
operation by operation, node by node, with its edges as the set that they are. With the documents of
plans this makes the main statement: texts of plans and graphs say which plan and which graph they are of.
-/
namespace Wavefront
open Json (Faithful Whole)

/-! ### Operations -/

theorem AggregatePhase.faithful (p : AggregatePhase) : Faithful toJson ofJson? p :=
  .bare false (by cases p <;> rfl)

theorem PackageKind.faithful (k : PackageKind) : Faithful toJson ofJson? k := by
  cases k with
  | join joinType =>
    have type := JoinType.faithful false joinType
    refine ⟨.fields_cons type.whole .fields_nil, Json.obj_ne_null _, ?_⟩
    simp [toJson, ofJson?, Json.case?, type.decodes]
  | group => exact ⟨.str _, Json.str_ne_null _, rfl⟩
  | coGroup => exact ⟨.str _, Json.str_ne_null _, rfl⟩
  | distinct => exact ⟨.str _, Json.str_ne_null _, rfl⟩

theorem ValueLayout.faithful (l : ValueLayout) : Faithful toJson ofJson? l := by
  cases l <;> exact ⟨.str _, Json.str_ne_null _, rfl⟩

namespace KeyInfo

def Fits (k : KeyInfo) : Prop := k.index < Text.wordBound

instance : DecidablePred Fits := fun k => inferInstanceAs (Decidable (k.index < Text.wordBound))

theorem faithful {k : KeyInfo} (fits : k.Fits) : Faithful toJson ofJson? k := by
  have index := Faithful.word fits
  have keys := Faithful.strings k.keys
  refine ⟨.fields_cons index.whole <| .fields_cons keys.whole <| .fields_cons (.bool _) .fields_nil,
    Json.obj_ne_null _, ?_⟩
  simp [toJson, ofJson?, index.decodes, keys.decodes, Json.bool?]

end KeyInfo

namespace PackageAnnotation

def Fits (a : PackageAnnotation) : Prop := ∀ k ∈ a.inputs, k.Fits

instance : DecidablePred Fits := fun a => inferInstanceAs (Decidable (∀ k ∈ a.inputs, k.Fits))

theorem faithful {a : PackageAnnotation} (fits : a.Fits) : Faithful toJson ofJson? a := by
  have inputs := Faithful.list fun k member => KeyInfo.faithful (fits k member)
  have layout := ValueLayout.faithful a.layout
  refine ⟨.fields_cons inputs.whole <| .fields_cons layout.whole .fields_nil, Json.obj_ne_null _, ?_⟩
  simp [toJson, ofJson?, inputs.decodes, layout.decodes]

end PackageAnnotation

namespace LocalOp

def Fits : LocalOp → Prop
  | .limit n => n < Text.wordBound
  | .rearrange index _ => index < Text.wordBound
  | .package _ inputs known => inputs < Text.wordBound ∧ ∀ a ∈ known, a.Fits
  | .flatten inputs => inputs < Text.wordBound
  | .joinPackage inputs _ chunkSize streamedInput known =>
    inputs < Text.wordBound ∧ chunkSize < Text.wordBound ∧ streamedInput < Text.wordBound ∧
      ∀ a ∈ known, a.Fits
  | .filter _ | .project _ | .stream .. | .aggregate .. => True

instance : DecidablePred Fits
  | .limit n => inferInstanceAs (Decidable (n < Text.wordBound))
  | .rearrange index _ => inferInstanceAs (Decidable (index < Text.wordBound))
  | .package _ inputs known =>
    inferInstanceAs (Decidable (inputs < Text.wordBound ∧ ∀ a ∈ known, a.Fits))
  | .flatten inputs => inferInstanceAs (Decidable (inputs < Text.wordBound))
  | .joinPackage inputs _ chunkSize streamedInput known =>
    inferInstanceAs (Decidable (inputs < Text.wordBound ∧ chunkSize < Text.wordBound ∧
      streamedInput < Text.wordBound ∧ ∀ a ∈ known, a.Fits))
  | .filter _ | .project _ | .stream .. | .aggregate .. => inferInstanceAs (Decidable True)

theorem faithful {op : LocalOp} (fits : op.Fits) : Faithful toJson ofJson? op := by
  cases op with
  | filter predicate =>
    refine ⟨.fields_cons (.fields_cons (.str _) .fields_nil) .fields_nil, Json.obj_ne_null _, ?_⟩
    simp [toJson, ofJson?, Json.case?, ofPayload?, Json.text?]
  | project columns =>
    have listed := Faithful.strings columns
    refine ⟨.fields_cons (.fields_cons listed.whole .fields_nil) .fields_nil, Json.obj_ne_null _, ?_⟩
    simp [toJson, ofJson?, Json.case?, ofPayload?, listed.decodes]
  | stream command outputSchema =>
    have schemas : ∀ y ∈ outputSchema, Faithful Schema.toJson (Schema.ofJson? false) y :=
      fun y _ => Schema.faithful false y
    refine ⟨.fields_cons (.fields_cons (.str _) <| .fields_cons (.option schemas) .fields_nil)
      .fields_nil, Json.obj_ne_null _, ?_⟩
    simp [toJson, ofJson?, Json.case?, ofPayload?, Json.text?, Json.option?_option schemas]
  | limit n =>
    have word := Faithful.word fits
    refine ⟨.fields_cons (.fields_cons word.whole .fields_nil) .fields_nil, Json.obj_ne_null _, ?_⟩
    simp [toJson, ofJson?, Json.case?, ofPayload?, word.decodes]
  | rearrange index keys =>
    have word := Faithful.word fits
    have listed := Faithful.strings keys
    refine ⟨.fields_cons (.fields_cons word.whole <| .fields_cons listed.whole .fields_nil)
      .fields_nil, Json.obj_ne_null _, ?_⟩
    simp [toJson, ofJson?, Json.case?, ofPayload?, word.decodes, listed.decodes]
  | package kind inputs known =>
    have kinds := PackageKind.faithful kind
    have word := Faithful.word fits.1
    have annotations := fun a member => PackageAnnotation.faithful (fits.2 a member)
    refine ⟨.fields_cons (.fields_cons kinds.whole <| .fields_cons word.whole <|
      .fields_cons (.option annotations) .fields_nil) .fields_nil, Json.obj_ne_null _, ?_⟩
    simp [toJson, ofJson?, Json.case?, ofPayload?, kinds.decodes, word.decodes,
      Json.option?_option annotations]
  | flatten inputs =>
    have word := Faithful.word fits
    refine ⟨.fields_cons (.fields_cons word.whole .fields_nil) .fields_nil, Json.obj_ne_null _, ?_⟩
    simp [toJson, ofJson?, Json.case?, ofPayload?, word.decodes]
  | joinPackage inputs joinType chunkSize streamedInput known =>
    obtain ⟨inputs, chunkSize, streamedInput, known⟩ := fits
    have count := Faithful.word inputs
    have type := JoinType.faithful false joinType
    have chunk := Faithful.word chunkSize
    have streamed := Faithful.word streamedInput
    have annotations := fun a member => PackageAnnotation.faithful (known a member)
    refine ⟨.fields_cons (.fields_cons count.whole <| .fields_cons type.whole <|
      .fields_cons chunk.whole <| .fields_cons streamed.whole <|
      .fields_cons (.option annotations) .fields_nil) .fields_nil, Json.obj_ne_null _, ?_⟩
    simp [toJson, ofJson?, Json.case?, ofPayload?, count.decodes, type.decodes, chunk.decodes,
      streamed.decodes, Json.option?_option annotations]
  | aggregate keys calls phase =>
    have listed := Faithful.strings keys
    have called := Faithful.list fun c (_ : c ∈ calls) => AggregateCall.faithful false c
    have phases := AggregatePhase.faithful phase
    refine ⟨.fields_cons (.fields_cons listed.whole <| .fields_cons called.whole <|
      .fields_cons phases.whole .fields_nil) .fields_nil, Json.obj_ne_null _, ?_⟩
    simp [toJson, ofJson?, Json.case?, ofPayload?, listed.decodes, called.decodes, phases.decodes]

end LocalOp

/-! ### Nodes -/

namespace Source

def Fits (s : Source) : Prop := ∀ node ∈ s.producer?, node < Text.wordBound

instance : DecidablePred Fits := fun s =>
  inferInstanceAs (Decidable (∀ node ∈ s.producer?, node < Text.wordBound))

theorem faithful {s : Source} (fits : s.Fits) : Faithful toJson ofJson? s := by
  cases s with
  | file location schema =>
    have schemas : ∀ y ∈ schema, Faithful Schema.toJson (Schema.ofJson? false) y :=
      fun y _ => Schema.faithful false y
    refine ⟨.fields_cons (.fields_cons (.str _) <| .fields_cons (.option schemas) .fields_nil)
      .fields_nil, Json.obj_ne_null _, ?_⟩
    simp [toJson, ofJson?, Json.case?, Json.text?, Json.option?_option schemas]
  | temp node location =>
    have word := Faithful.word (fits node rfl)
    refine ⟨.fields_cons (.fields_cons word.whole <| .fields_cons (.str _) .fields_nil)
      .fields_nil, Json.obj_ne_null _, ?_⟩
    simp [toJson, ofJson?, Json.case?, Json.text?, word.decodes]

end Source

theorem NodeOutput.faithful (o : NodeOutput) : Faithful toJson ofJson? o := by
  cases o with
  | final location format =>
    refine ⟨.fields_cons (.fields_cons (.str _) <| .fields_cons (.str _) .fields_nil)
      .fields_nil, Json.obj_ne_null _, ?_⟩
    simp [toJson, ofJson?, Json.case?, Json.text?]
  | temporary location =>
    refine ⟨.fields_cons (.fields_cons (.str _) .fields_nil) .fields_nil, Json.obj_ne_null _, ?_⟩
    simp [toJson, ofJson?, Json.case?, Json.text?]

theorem KeyType.faithful (t : KeyType) : Faithful toJson ofJson? t := .bare false (by cases t <;> rfl)

theorem StreamMarker.faithful (m : StreamMarker) : Faithful toJson ofJson? m := by
  refine ⟨.fields_cons (.bool _) <| .fields_cons (.bool _) <| .fields_cons (.bool _) .fields_nil,
    Json.obj_ne_null _, ?_⟩
  simp [toJson, ofJson?, Json.bool?]

theorem NodeAnnotations.faithful (a : NodeAnnotations) : Faithful toJson ofJson? a := by
  have stream := StreamMarker.faithful a.stream
  have keyTypes := fun t (_ : t ∈ a.keyType) => KeyType.faithful t
  have schemas := fun s (_ : s ∈ a.outputSchema) => Schema.faithful false s
  refine ⟨.fields_cons stream.whole <| .fields_cons (.option keyTypes) <|
    .fields_cons (.option schemas) .fields_nil, Json.obj_ne_null _, ?_⟩
  simp [toJson, ofJson?, stream.decodes, Json.option?_option keyTypes, Json.option?_option schemas]

namespace Branch

/-- Whether the numbers of a branch are machine words. -/
structure Fits (b : Branch) : Prop where
  source : b.source.Fits
  ops : ∀ op ∈ b.ops, op.Fits

instance : DecidablePred Fits := fun b =>
  decidable_of_iff (b.source.Fits ∧ ∀ op ∈ b.ops, op.Fits)
    ⟨fun all => ⟨all.1, all.2⟩, fun fits => ⟨fits.source, fits.ops⟩⟩

theorem faithful {b : Branch} (fits : b.Fits) : Faithful toJson ofJson? b := by
  have source := Source.faithful fits.source
  have ops := Faithful.list fun op member => LocalOp.faithful (fits.ops op member)
  refine ⟨.fields_cons source.whole <| .fields_cons ops.whole .fields_nil, Json.obj_ne_null _, ?_⟩
  simp [toJson, ofJson?, source.decodes, ops.decodes]

end Branch

namespace CombinePlan

/-- Whether the numbers of a combine plan are machine words. -/
structure Fits (c : CombinePlan) : Prop where
  ops : ∀ op ∈ c.ops, op.Fits
  chunkSize : c.chunkSize < Text.wordBound

instance : DecidablePred Fits := fun c =>
  decidable_of_iff ((∀ op ∈ c.ops, op.Fits) ∧ c.chunkSize < Text.wordBound)
    ⟨fun all => ⟨all.1, all.2⟩, fun fits => ⟨fits.ops, fits.chunkSize⟩⟩

theorem faithful {c : CombinePlan} (fits : c.Fits) : Faithful toJson ofJson? c := by
  have ops := Faithful.list fun op member => LocalOp.faithful (fits.ops op member)
  have chunk := Faithful.word fits.chunkSize
  refine ⟨.fields_cons ops.whole <| .fields_cons chunk.whole .fields_nil, Json.obj_ne_null _, ?_⟩
  simp [toJson, ofJson?, ops.decodes, chunk.decodes]

end CombinePlan

namespace Node

/-- Whether the numbers of a node are machine words, the parallelism half of one. -/
structure Fits (n : Node) : Prop where
  id : n.id < Text.wordBound
  map : ∀ b ∈ n.map, b.Fits
  combine : ∀ c ∈ n.combine, c.Fits
  reduce : ∀ op ∈ n.reduce, op.Fits
  parallelism : ∀ count ∈ n.parallelism, count < Text.halfWordBound

instance : DecidablePred Fits := fun n =>
  decidable_of_iff (n.id < Text.wordBound ∧ (∀ b ∈ n.map, b.Fits) ∧ (∀ c ∈ n.combine, c.Fits) ∧
      (∀ op ∈ n.reduce, op.Fits) ∧ ∀ count ∈ n.parallelism, count < Text.halfWordBound)
    ⟨fun all => ⟨all.1, all.2.1, all.2.2.1, all.2.2.2.1, all.2.2.2.2⟩,
      fun fits => ⟨fits.id, fits.map, fits.combine, fits.reduce, fits.parallelism⟩⟩

theorem faithful {n : Node} (fits : n.Fits) : Faithful toJson ofJson? n := by
  have id := Faithful.word fits.id
  have map := Faithful.list fun b member => Branch.faithful (fits.map b member)
  have combine := fun c member => CombinePlan.faithful (fits.combine c member)
  have reduce := Faithful.list fun op member => LocalOp.faithful (fits.reduce op member)
  have output := NodeOutput.faithful n.output
  have parallelism := fun count member => Faithful.halfWord (fits.parallelism count member)
  have annotations := NodeAnnotations.faithful n.annotations
  refine ⟨.fields_cons id.whole <| .fields_cons map.whole <| .fields_cons (.option combine) <|
    .fields_cons reduce.whole <| .fields_cons output.whole <| .fields_cons (.option parallelism) <|
    .fields_cons annotations.whole .fields_nil, Json.obj_ne_null _, ?_⟩
  simp [toJson, ofJson?, id.decodes, map.decodes, Json.option?_option combine, reduce.decodes,
    output.decodes, Json.option?_option parallelism, annotations.decodes]

end Node

/-! ### Edges -/

/-- An element above all others of an ascending list takes the last place. -/
theorem Ascending.place_last {x : Edge} {xs : List Edge} (above : ∀ y ∈ xs, KeyOrder.before y x) :
    Ascending.place id x xs = xs ++ [x] := by
  induction xs with
  | nil => rfl
  | cons y rest ih =>
    have below : y.source < x.source ∨ y.source = x.source ∧ y.target < x.target :=
      above y List.mem_cons_self
    have notBefore : ¬ KeyOrder.before (id x) (id y) := by
      show ¬ (x.source < y.source ∨ x.source = y.source ∧ x.target < y.target)
      omega
    have different : id x ≠ id y := by
      rintro (rfl : x = y)
      omega
    rw [Ascending.place, if_neg notBefore, if_neg different,
      ih fun z member => above z (List.mem_cons_of_mem y member), List.cons_append]

namespace EdgeSet

theorem toList_insertAll {s : EdgeSet} {xs : List Edge} (ascending : Ascending id (s.toList ++ xs)) :
    (s.insertAll xs).toList = s.toList ++ xs := by
  induction xs generalizing s with
  | nil => exact (List.append_nil _).symm
  | cons x rest ih =>
    have above : ∀ y ∈ s.toList, KeyOrder.before y x := fun y member =>
      (List.pairwise_append.mp ascending).2.2 y member x List.mem_cons_self
    have placed : (s.insert x).toList = s.toList ++ [x] := Ascending.place_last above
    have step : s.insertAll (x :: rest) = (s.insert x).insertAll rest := rfl
    rw [step, ih (by rwa [placed, List.append_assoc]), placed, List.append_assoc,
      List.singleton_append]

theorem ofList_toList (s : EdgeSet) : SortedSet.ofList s.toList = s := by
  have same : (SortedSet.ofList s.toList).toList = s.toList :=
    toList_insertAll (s := SortedSet.empty) s.ascending
  cases s
  exact (SortedSet.mk.injEq ..).mpr same

def Fits (s : EdgeSet) : Prop :=
  ∀ e ∈ s.toList, e.source < Text.wordBound ∧ e.target < Text.wordBound

instance : DecidablePred Fits := fun s =>
  inferInstanceAs (Decidable (∀ e ∈ s.toList, e.source < Text.wordBound ∧ e.target < Text.wordBound))

theorem faithful {s : EdgeSet} (fits : s.Fits) : Faithful toJson ofJson? s := by
  have edge (e : Edge) (member : e ∈ s.toList) :
      Faithful (fun e : Edge => .arr [Json.nat e.source, Json.nat e.target]) edgeOfJson? e := by
    obtain ⟨source, target⟩ := fits e member
    have first := Faithful.word source
    have second := Faithful.word target
    refine ⟨.arr (by simp [first.whole, second.whole]), Json.arr_ne_null _, ?_⟩
    simp [edgeOfJson?, first.decodes, second.decodes]
  have edges := Faithful.list edge
  refine ⟨edges.whole, Json.arr_ne_null _, ?_⟩
  rw [ofJson?, toJson, edges.decodes, Option.map_some, ofList_toList]

end EdgeSet

namespace Graph

/-- Whether the numbers in a graph are machine words. -/
structure Fits (g : Graph) : Prop where
  nodes : ∀ n ∈ g.nodes, n.Fits
  edges : g.edges.Fits

instance : DecidablePred Fits := fun g =>
  decidable_of_iff ((∀ n ∈ g.nodes, n.Fits) ∧ g.edges.Fits)
    ⟨fun all => ⟨all.1, all.2⟩, fun fits => ⟨fits.nodes, fits.edges⟩⟩

/-- A graph reads from its document form. -/
theorem faithful {g : Graph} (fits : g.Fits) : Faithful toJson ofJson? g := by
  have nodes := Faithful.list fun n member => Node.faithful (fits.nodes n member)
  have edges := EdgeSet.faithful fits.edges
  refine ⟨.fields_cons (.str _) <| .fields_cons nodes.whole <| .fields_cons edges.whole .fields_nil,
    Json.obj_ne_null _, ?_⟩
  simp [toJson, ofJson?, nodes.decodes, edges.decodes, Json.text?]

end Graph

/-- Plans and graphs read from their documents and from the texts of these, and plans of the same text, or
of texts of the same bytes, are the same. -/
theorem documents_faithful :
    (∀ p : Plan, p.Fits →
      Plan.ofJson? p.toJson = some p ∧ (Json.parse? p.text).bind Plan.ofJson? = some p) ∧
    (∀ g : Graph, g.Fits →
      Graph.ofJson? g.toJson = some g ∧ (Json.parse? g.toJson.render).bind Graph.ofJson? = some g) ∧
    (∀ p q : Plan, p.Fits → q.Fits → p.text = q.text → p = q) ∧
    ∀ p q : Plan, p.Fits → q.Fits → p.text.toUTF8.toList = q.text.toUTF8.toList → p = q := by
  have texts (p q : Plan) (first : p.Fits) (second : q.Fits) (same : p.text = q.text) : p = q :=
    (Plan.faithful first).render_injective (Plan.faithful second) same
  refine ⟨fun p fits => ?_, fun g fits => ?_, texts, fun p q first second same => ?_⟩
  · have plan := Plan.faithful fits
    exact ⟨plan.decodes, plan.reads⟩
  · have graph := Graph.faithful fits
    exact ⟨graph.decodes, graph.reads⟩
  · exact texts p q first second (utf8_injective same)

/-- A plan that is not valid, with texts that have to be escaped and the largest limit there is. -/
def Plan.irregular : Plan := ⟨[
  ⟨5, .load "in \"here\"\\" (some ⟨[⟨"user\n", .utf8, true⟩, ⟨"user\n", .int64, false⟩]⟩), []⟩,
  ⟨5, .join [["a", "b"], []] .full, [9, 9]⟩,
  ⟨0, .aggregate [⟨.countDistinct, none, "größe\x01"⟩, ⟨.sum, some "a", ""⟩], [2]⟩,
  ⟨1, .limit 18446744073709551615, []⟩]⟩

/-- A graph of two nodes that has an edge to nowhere. -/
def Graph.irregular : Graph := ⟨"scope", [
  ⟨3, [⟨.file "in" none, [.filter "a = \"b\"", .rearrange 0 ["a"]]⟩], some ⟨[.limit 2], 1000⟩,
    [.package (.join .left) 2 (some ⟨[⟨0, ["a"], true⟩], .keyStripped⟩), .flatten 2,
      .aggregate ["a"] [⟨.avg, some "b", "mean"⟩] .final],
    .temporary "tmp", some 4294967295, ⟨⟨true, false, false⟩, some .bytes, some ⟨[]⟩⟩⟩,
  ⟨3, [⟨.temp 3 "tmp", [.stream "sort" none]⟩], none, [.joinPackage 2 .inner 50 1 none],
    .final "out" "json", none, .none⟩], SortedSet.ofList [⟨7, 3⟩, ⟨0, 3⟩]⟩

/-- Both read from their documents, and another limit gives another text. -/
theorem documents_faithful_irregular :
    (Json.parse? Plan.irregular.text).bind Plan.ofJson? = some Plan.irregular ∧
    (Json.parse? Graph.irregular.toJson.render).bind Graph.ofJson? = some Graph.irregular ∧
    (Plan.empty.add (.limit 1) []).text.toUTF8.toList ≠ (Plan.empty.add (.limit 2) []).text.toUTF8.toList :=
  ⟨(documents_faithful.1 Plan.irregular (by decide)).2,
    (documents_faithful.2.1 Graph.irregular (by decide)).2, fun same =>
    absurd (documents_faithful.2.2.2 _ _ (by decide) (by decide) same) (by decide)⟩

end Wavefront
