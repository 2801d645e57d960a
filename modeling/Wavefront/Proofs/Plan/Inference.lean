import Wavefront.Proofs.Columns
import Wavefront.Proofs.Dataflow.Meaning
import Wavefront.Proofs.Plan.Cut
set_option autoImplicit false

/-!
What is known of the records of a plan. The schema of an operator is inferred from those of its
inputs, and the type of the keys of a shuffle from the columns its inputs are keyed by. Main
statements: both can be read off what an operator computes.
-/
namespace Wavefront

namespace Plan

/-- What an operator makes of the schemas of its inputs. An aggregate reads the columns of what is
grouped before it. -/
def infer (p : Plan) (known : Nat → Option Schema) (op : PlanOp) : Option Schema :=
  match op.kind, op.inputs with
  | .load _ schema, _ => schema
  | .filter _, [input] | .limit _, [input] | .distinct, [input] | .store .., [input] => known input
  | .project columns, [input] => (known input).bind fun s => (Field.select? s.fields columns).map Schema.mk
  | .stream _ outputSchema, _ => outputSchema
  | .group keys, [input] => Schema.grouped? keys (known input) 1
  | .coGroup keys, inputs =>
    Schema.grouped? (keys.head?.getD []) (inputs.head?.bind known) inputs.length
  | .join .., inputs => Schema.beside? (inputs.map known)
  | .aggregate calls, [group] =>
    match p.op? group with
    | some ⟨_, .group keys, [input]⟩ => Schema.aggregated? keys calls (known input)
    | _ => none
  | _, _ => none

/-- The schema of an operator, inferred over at most so many operators. -/
def schemaWithin (p : Plan) : Nat → Nat → Option Schema
  | 0, _ => none
  | depth + 1, id => (p.op? id).bind (p.infer (p.schemaWithin depth))

/-- The schema of an operator, if it is known. -/
def schema (p : Plan) (id : Nat) : Option Schema := p.schemaWithin p.ops.length id

/-- The shuffle that the records of an operator come out of, with only operators of one input after
it. -/
inductive LastShuffle (p : Plan) : Nat → PlanOp → Prop where
  | here {id : Nat} {op : PlanOp} (found : p.op? id = some op) (shuffle : op.kind.isShuffle = true) :
      LastShuffle p id op
  | before {id input : Nat} {op shuffle : PlanOp} (found : p.op? id = some op)
      (passes : op.kind.isShuffle = false) (only : op.inputs = [input])
      (earlier : LastShuffle p input shuffle) : LastShuffle p id shuffle

def keyType (p : Plan) (op : PlanOp) : KeyType :=
  match op.kind, op.inputs with
  | .distinct, _ => .tuple
  | .group keys, [input] => .ofColumns keys (p.schema input)
  | .coGroup keys, inputs | .join keys _, inputs =>
    .agreed ((keys.zip inputs).map fun (own, input) => .ofColumns own (p.schema input))
  | _, _ => .bytes

variable {p : Plan} {order : List Nat} {id : Nat} {op : PlanOp}

/-- An operator has one last shuffle at most. -/
theorem LastShuffle.unique {first second : PlanOp} (left : p.LastShuffle id first)
    (right : p.LastShuffle id second) : first = second := by
  induction left with
  | here found shuffle =>
    cases right with
    | here found' _ =>
      rw [found] at found'
      cases found'
      rfl
    | before found' passes _ _ =>
      rw [found] at found'
      cases found'
      rw [shuffle] at passes
      cases passes
  | before found passes only earlier ih =>
    cases right with
    | here found' shuffle =>
      rw [found] at found'
      cases found'
      rw [passes] at shuffle
      cases shuffle
    | before found' _ only' earlier' =>
      rw [found] at found'
      cases found'
      rw [only] at only'
      cases only'
      exact ih earlier'

/-- Inference asks for what an operator reads, and for what is read there. -/
theorem infer_congr {f g : Nat → Option Schema} (reads : ∀ input ∈ op.inputs, f input = g input)
    (further : ∀ group ∈ op.inputs, ∀ reader, p.op? group = some reader → ∀ input ∈ reader.inputs,
      f input = g input) : p.infer f op = p.infer g op := by
  obtain ⟨number, kind, inputs⟩ := op
  dsimp only at reads further
  cases kind with
  | load location schema => rfl
  | stream command outputSchema => rfl
  | coGroup keys =>
    cases inputs with
    | nil => rfl
    | cons first rest =>
      simp only [infer, List.head?_cons, Option.bind_some, reads first List.mem_cons_self]
  | join keys joinType => simp only [infer, List.map_congr_left reads]
  | aggregate calls =>
    rcases inputs with _ | ⟨group, _ | ⟨second, rest⟩⟩
    · rfl
    · simp only [infer]
      split
      · rename_i grouped keys input there
        rw [further group List.mem_cons_self _ there input List.mem_cons_self]
      · rfl
    · rfl
  | filter predicate | limit n | distinct | store location format | project columns | group keys =>
    rcases inputs with _ | ⟨input, _ | ⟨second, rest⟩⟩
    · rfl
    · simp only [infer, reads input List.mem_cons_self]
    · rfl

/-- The schema of an operator is inferred from those of its inputs. -/
theorem Validated.schema_eq (validated : p.Validated order) (found : p.op? id = some op) :
    p.schema id = p.infer p.schema op := by
  let step (f : Nat → Option Schema) (id : Nat) : Option Schema := (p.op? id).bind (p.infer f)
  have unfolds : ∀ depth id, p.schemaWithin (depth + 1) id = step (p.schemaWithin depth) id :=
    fun _ _ => rfl
  have stable := within_stable unfolds (fun id => ∃ op, p.op? id = some op) order.idxOf ?_
    p.ops.length ⟨op, found⟩ (validated.idxOf_lt found)
  · rw [schema, ← stable, unfolds]
    simp only [step, found, Option.bind_some]
    rfl
  · rintro other f g ⟨reader, there⟩ same
    have known {user input : Nat} {op : PlanOp} (found : p.op? user = some op)
        (reads : input ∈ op.inputs) : ∃ op, p.op? input = some op :=
      validated.numbered.exists_op (validated.input_lt found reads)
    simp only [step, there, Option.bind_some]
    refine infer_congr (fun input reads => same input (known there reads)
      (validated.position_lt there reads)) fun group reads grouped found' input reads' => ?_
    have first := validated.position_lt there reads
    have second := validated.position_lt found' reads'
    exact same input (known found' reads') (by omega)

end Plan

end Wavefront
