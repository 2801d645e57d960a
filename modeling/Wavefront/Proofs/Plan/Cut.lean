import Wavefront.Proofs.Dataflow.Term
import Wavefront.Proofs.Plan.WellFormed
set_option autoImplicit false

/-!
Where a plan is cut into jobs. The records of an operator are written out if they are stored, if
several operators read them, or if they have been shuffled and are to be shuffled again.
-/
namespace Wavefront

/-- Whether an operator brings records together by keys. -/
def Operator.isShuffle : Operator → Bool
  | .group _ | .distinct | .coGroup _ | .join .. => true
  | _ => false

def Operator.isAggregate : Operator → Bool
  | .aggregate _ => true
  | _ => false

namespace Plan

/-- The records of an operator are past a shuffle when they are computed. -/
inductive InReduce (p : Plan) : Nat → Prop where
  | shuffles {id : Nat} {op : PlanOp} (found : p.op? id = some op)
      (shuffle : op.kind.isShuffle = true) :
      InReduce p id
  | aggregates {id : Nat} {op : PlanOp} (found : p.op? id = some op)
      (aggregate : op.kind.isAggregate = true) : InReduce p id
  | keeps {id input : Nat} {op : PlanOp} (found : p.op? id = some op)
      (record : (RecordOp.ofOperator? op.kind).isSome = true) (reads : input ∈ op.inputs)
      (before : InReduce p input) (only : (p.consumers input).length = 1) : InReduce p id

def IsStore (p : Plan) (id : Nat) : Prop := ∃ op, p.op? id = some op ∧ op.kind.isStore = true

/-- An operator whose records are written out for others to read back. -/
def IsCut (p : Plan) (id : Nat) : Prop :=
  ∃ op, p.op? id = some op ∧ op.kind.isStore = false ∧
    (2 ≤ (p.consumers id).length ∨
      p.InReduce id ∧ ∃ consumer reader, p.consumers id = [consumer] ∧
        p.op? consumer = some reader ∧ reader.kind.isShuffle = true)

/-- An operator whose records are written out. -/
def IsWritten (p : Plan) (id : Nat) : Prop := p.IsStore id ∨ p.IsCut id

def IsGroup (p : Plan) (id : Nat) : Prop := ∃ op, p.op? id = some op ∧ op.kind.isGroup = true

/-- An operator that computes calls works on a group that nobody else reads. -/
def OwnsGroup (p : Plan) (op : PlanOp) : Prop :=
  op.kind.isAggregate = true →
    ∃ input, op.inputs = [input] ∧ p.IsGroup input ∧ (p.consumers input).length = 1

/-- Every aggregate works on a group that nobody else reads. -/
def AggregatesOwnGroups (p : Plan) : Prop := ∀ op ∈ p.ops, p.OwnsGroup op

variable {p : Plan}

theorem isStore_iff {id : Nat} {op : PlanOp} (found : p.op? id = some op) :
    p.IsStore id ↔ op.kind.isStore = true := by
  simp [IsStore, found]

theorem isGroup_iff {id : Nat} {op : PlanOp} (found : p.op? id = some op) :
    p.IsGroup id ↔ op.kind.isGroup = true := by
  simp [IsGroup, found]

theorem IsCut.of_many {id : Nat} {op : PlanOp} (found : p.op? id = some op)
    (reads : op.kind.isStore = false) (many : 1 < (p.consumers id).length) : p.IsCut id :=
  ⟨op, found, reads, .inl many⟩

theorem IsCut.not_store {id : Nat} (cut : p.IsCut id) : ¬ p.IsStore id := by
  obtain ⟨op, found, reads, _⟩ := cut
  rw [isStore_iff found, reads]
  exact Bool.false_ne_true

/-- How the records of an operator come to be past a shuffle. -/
theorem inReduce_iff {id : Nat} {op : PlanOp} (found : p.op? id = some op) :
    p.InReduce id ↔ op.kind.isShuffle = true ∨ op.kind.isAggregate = true ∨
      (RecordOp.ofOperator? op.kind).isSome = true ∧
        ∃ input ∈ op.inputs, p.InReduce input ∧ (p.consumers input).length = 1 := by
  constructor
  · intro reduced
    cases reduced with
    | shuffles there shuffle =>
      rw [found] at there
      cases there
      exact .inl shuffle
    | aggregates there aggregate =>
      rw [found] at there
      cases there
      exact .inr (.inl aggregate)
    | keeps there record reads before only =>
      rw [found] at there
      cases there
      exact .inr (.inr ⟨record, _, reads, before, only⟩)
  · rintro (shuffle | aggregate | ⟨record, input, reads, before, only⟩)
    · exact .shuffles found shuffle
    · exact .aggregates found aggregate
    · exact .keeps found record reads before only

theorem InReduce.of_record {id input : Nat} {op : PlanOp} (reduced : p.InReduce id)
    (found : p.op? id = some op) (record : (RecordOp.ofOperator? op.kind).isSome = true)
    (only : op.inputs = [input]) : p.InReduce input ∧ (p.consumers input).length = 1 := by
  rcases (inReduce_iff found).mp reduced with shuffle | aggregate | ⟨_, other, reads, both⟩
  · cases kind : op.kind <;> simp [kind, RecordOp.ofOperator?, Operator.isShuffle] at record shuffle
  · cases kind : op.kind <;>
      simp [kind, RecordOp.ofOperator?, Operator.isAggregate] at record aggregate
  · rw [only] at reads
    rwa [List.mem_singleton.mp reads] at both

theorem IsGroup.inReduce {id : Nat} (group : p.IsGroup id) : p.InReduce id := by
  obtain ⟨op, found, is⟩ := group
  refine .shuffles found ?_
  cases kind : op.kind <;> simp [kind, Operator.isGroup] at is
  rfl

namespace Validated

variable {order : List Nat}

theorem no_input (validated : p.Validated order) {id : Nat} {op : PlanOp}
    (found : p.op? id = some op) (load : op.kind.isLoad = true) : op.inputs = [] :=
  List.length_eq_zero_iff.mp
    ((admits_iff.mp (validated.admitted op (mem_of_op? found))).1 load)

theorem two_inputs (validated : p.Validated order) {id : Nat} {op : PlanOp}
    (found : p.op? id = some op) {keys : List (List String)}
    (keyed : op.kind.keyLists? = some keys) : 2 ≤ op.inputs.length :=
  (admits_iff.mp (validated.admitted op (mem_of_op? found))).2.1 keys keyed

theorem keysFit (validated : p.Validated order) {id : Nat} {op : PlanOp}
    (found : p.op? id = some op) {keys : List (List String)}
    (keyed : op.kind.keyLists? = some keys) : KeysFit keys op.inputs.length :=
  (payloadFault?_eq_none.mp (validated.payload op (mem_of_op? found))).1 keys keyed

/-- An operator that is neither a load nor joins inputs reads exactly one. -/
theorem one_input (validated : p.Validated order) {id : Nat} {op : PlanOp}
    (found : p.op? id = some op)
    (single : op.kind.admits 1 = true) : ∃ input, op.inputs = [input] := by
  have admitted := validated.admitted op (mem_of_op? found)
  have length : op.inputs.length = 1 := by
    cases kind : op.kind <;> simp [kind, Operator.admits] at admitted single <;> exact admitted
  exact List.length_eq_one_iff.mp length

/-- An operator that is read is no store. -/
theorem not_store_of_read (validated : p.Validated order) {id input : Nat} {op reader : PlanOp}
    (found : p.op? id = some reader) (reads : input ∈ reader.inputs)
    (there : p.op? input = some op) :
    op.kind.isStore = false := by
  have consumer : id ∈ p.consumers input :=
    validated.numbered.mem_consumers.mpr ⟨reader, found, reads⟩
  by_contra store
  have nobody := (validated.read op (mem_of_op? there)).mp (by simpa using store)
  rw [(op?_eq_some there).2] at nobody
  rw [nobody] at consumer
  cases consumer

theorem consumers_pos (validated : p.Validated order) {id : Nat} {op : PlanOp}
    (found : p.op? id = some op) (reads : op.kind.isStore = false) :
    0 < (p.consumers id).length := by
  have iff := validated.read op (mem_of_op? found)
  rw [(op?_eq_some found).2, reads] at iff
  exact List.length_pos_iff.mpr fun nobody => by simp [nobody] at iff

end Validated

end Plan

end Wavefront
