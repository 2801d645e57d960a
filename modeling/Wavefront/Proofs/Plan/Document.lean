import Wavefront.Plan.Fingerprint
import Wavefront.Proofs.Json.Faithful
set_option autoImplicit false

/-!
Documents of plans. A plan whose numbers are machine words, as those of every plan in a program are, is
written so that it can be read back: schema by schema, operator by operator.
-/
namespace Wavefront
open Json (Faithful Whole)

section Schemas

variable (tagged : Bool)

theorem DataType.faithful (t : DataType) : Faithful toJson (ofJson? tagged) t :=
  .bare tagged (by cases t <;> rfl)

theorem Field.faithful (f : Field) : Faithful toJson (ofJson? tagged) f where
  whole := .fields_cons (.str _) <| .fields_cons (DataType.faithful tagged f.dataType).whole <|
    .fields_cons (.bool _) .fields_nil
  present := nofun
  decodes := by
    have dataType := (DataType.faithful tagged f.dataType).decodes
    simp [toJson, ofJson?, dataType, Json.text?, Json.bool?]

theorem Schema.faithful (s : Schema) : Faithful toJson (ofJson? tagged) s := by
  have fields := Faithful.list fun f (_ : f ∈ s.fields) => Field.faithful tagged f
  refine ⟨.fields_cons fields.whole .fields_nil, Json.obj_ne_null _, ?_⟩
  simp [toJson, ofJson?, fields.decodes]

end Schemas

theorem JoinType.faithful (tagged : Bool) (t : JoinType) : Faithful toJson (ofJson? tagged) t :=
  .bare tagged (by cases t <;> rfl)

theorem AggregateFunction.faithful (tagged : Bool) (f : AggregateFunction) :
    Faithful toJson (ofJson? tagged) f :=
  .bare tagged (by cases f <;> rfl)

theorem AggregateCall.faithful (tagged : Bool) (c : AggregateCall) :
    Faithful toJson (ofJson? tagged) c := by
  have function := AggregateFunction.faithful tagged c.function
  have column : ∀ y ∈ c.column, Faithful .str Json.text? y := fun y _ => .text y
  refine ⟨.fields_cons function.whole <| .fields_cons (.option column) <|
    .fields_cons (.str _) .fields_nil, Json.obj_ne_null _, ?_⟩
  simp [toJson, ofJson?, function.decodes, Json.option?_option column, Json.text?]

theorem Json.Faithful.keyLists (keys : List (List String)) :
    Faithful (Json.list Json.strings) (Json.list? Json.strings?) keys :=
  .list fun key _ => .strings key

namespace Operator

def Fits : Operator → Prop
  | .limit n => n < Text.wordBound
  | _ => True

instance : DecidablePred Fits
  | .limit n => inferInstanceAs (Decidable (n < Text.wordBound))
  | .load .. | .filter _ | .project _ | .stream .. | .group _ | .coGroup _ | .join .. | .aggregate _
  | .distinct | .store .. => inferInstanceAs (Decidable True)

theorem faithful {op : Operator} (fits : op.Fits) : Faithful toJson ofJson? op := by
  cases op with
  | load location schema =>
    have schemas : ∀ y ∈ schema, Faithful Schema.toJson (Schema.ofJson? true) y :=
      fun y _ => Schema.faithful true y
    refine ⟨.fields_cons (.str _) <| .fields_cons (.str _) <| .fields_cons (.option schemas) .fields_nil,
      Json.obj_ne_null _, ?_⟩
    simp [toJson, ofJson?, tagged?, ofPayload?, Json.text?, Json.option?_option schemas]
  | filter predicate =>
    refine ⟨.fields_cons (.str _) <| .fields_cons (.str _) .fields_nil, Json.obj_ne_null _, ?_⟩
    simp [toJson, ofJson?, tagged?, ofPayload?, Json.text?]
  | project columns =>
    have listed := Faithful.strings columns
    refine ⟨.fields_cons (.str _) <| .fields_cons listed.whole .fields_nil, Json.obj_ne_null _, ?_⟩
    simp [toJson, ofJson?, tagged?, ofPayload?, Json.text?, listed.decodes]
  | stream command outputSchema =>
    have schemas : ∀ y ∈ outputSchema, Faithful Schema.toJson (Schema.ofJson? true) y :=
      fun y _ => Schema.faithful true y
    refine ⟨.fields_cons (.str _) <| .fields_cons (.str _) <| .fields_cons (.option schemas) .fields_nil,
      Json.obj_ne_null _, ?_⟩
    simp [toJson, ofJson?, tagged?, ofPayload?, Json.text?, Json.option?_option schemas]
  | group keys =>
    have listed := Faithful.strings keys
    refine ⟨.fields_cons (.str _) <| .fields_cons listed.whole .fields_nil, Json.obj_ne_null _, ?_⟩
    simp [toJson, ofJson?, tagged?, ofPayload?, Json.text?, listed.decodes]
  | coGroup keys =>
    have listed := Faithful.keyLists keys
    refine ⟨.fields_cons (.str _) <| .fields_cons listed.whole .fields_nil, Json.obj_ne_null _, ?_⟩
    simp [toJson, ofJson?, tagged?, ofPayload?, Json.text?, listed.decodes]
  | join keys joinType =>
    have listed := Faithful.keyLists keys
    have type := JoinType.faithful true joinType
    refine ⟨.fields_cons (.str _) <| .fields_cons listed.whole <| .fields_cons type.whole .fields_nil,
      Json.obj_ne_null _, ?_⟩
    simp [toJson, ofJson?, tagged?, ofPayload?, Json.text?, listed.decodes, type.decodes]
  | aggregate calls =>
    have listed := Faithful.list fun c (_ : c ∈ calls) => AggregateCall.faithful true c
    refine ⟨.fields_cons (.str _) <| .fields_cons listed.whole .fields_nil, Json.obj_ne_null _, ?_⟩
    simp [toJson, ofJson?, tagged?, ofPayload?, Json.text?, listed.decodes]
  | distinct =>
    refine ⟨.fields_cons (.str _) .fields_nil, Json.obj_ne_null _, ?_⟩
    simp [toJson, ofJson?, tagged?, ofPayload?, Json.text?]
  | limit n =>
    have word := Faithful.word fits
    refine ⟨.fields_cons (.str _) <| .fields_cons word.whole .fields_nil, Json.obj_ne_null _, ?_⟩
    simp [toJson, ofJson?, tagged?, ofPayload?, Json.text?, word.decodes]
  | store location format =>
    refine ⟨.fields_cons (.str _) <| .fields_cons (.str _) <| .fields_cons (.str _) .fields_nil,
      Json.obj_ne_null _, ?_⟩
    simp [toJson, ofJson?, tagged?, ofPayload?, Json.text?]

end Operator

/-- Whether the numbers of an operator and of its inputs are machine words. -/
structure PlanOp.Fits (op : PlanOp) : Prop where
  id : op.id < Text.wordBound
  kind : op.kind.Fits
  inputs : ∀ input ∈ op.inputs, input < Text.wordBound

instance : DecidablePred PlanOp.Fits := fun op =>
  decidable_of_iff (op.id < Text.wordBound ∧ op.kind.Fits ∧ ∀ input ∈ op.inputs, input < Text.wordBound)
    ⟨fun all => ⟨all.1, all.2.1, all.2.2⟩, fun fits => ⟨fits.id, fits.kind, fits.inputs⟩⟩

namespace Plan

def Fits (p : Plan) : Prop := ∀ op ∈ p.ops, op.Fits

instance : DecidablePred Fits := fun p => inferInstanceAs (Decidable (∀ op ∈ p.ops, op.Fits))

theorem opFaithful {op : PlanOp} (fits : op.Fits) : Faithful opToJson opOfJson? op := by
  have id := Faithful.word fits.id
  have kind := Operator.faithful fits.kind
  have inputs := Faithful.list fun input member => Faithful.word (fits.inputs input member)
  refine ⟨.fields_cons id.whole <| .fields_cons kind.whole <| .fields_cons inputs.whole .fields_nil,
    Json.obj_ne_null _, ?_⟩
  simp [opToJson, opOfJson?, id.decodes, kind.decodes, inputs.decodes]

/-- A plan reads from its document form. -/
theorem faithful {p : Plan} (fits : p.Fits) : Faithful toJson ofJson? p := by
  have ops := Faithful.list fun op member => opFaithful (fits op member)
  refine ⟨.fields_cons ops.whole .fields_nil, Json.obj_ne_null _, ?_⟩
  simp [toJson, ofJson?, ops.decodes]

end Plan

end Wavefront
