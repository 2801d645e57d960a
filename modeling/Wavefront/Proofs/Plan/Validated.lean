import Wavefront.Proofs.Plan.Order
set_option autoImplicit false

/-!
What the check of a plan promises to those who work on the plan afterwards.
-/
namespace Wavefront.Plan

/-- The promises of a plan that has passed the check, with its topological order. -/
structure Validated (p : Plan) (order : List Nat) : Prop where
  numbered : p.Numbered
  known : ∀ op ∈ p.ops, ∀ input ∈ op.inputs, input < p.ops.length
  admitted : ∀ op ∈ p.ops, op.kind.admits op.inputs.length = true
  payload : ∀ op ∈ p.ops, payloadFault? op = none
  read : ∀ op ∈ p.ops, op.kind.isStore = true ↔ p.consumers op.id = []
  sorted : p.topologicalOrder = .ok order

theorem consumerFault?_eq_none {p : Plan} {op : PlanOp} :
    p.consumerFault? op = none ↔ (op.kind.isStore = true ↔ p.consumers op.id = []) := by
  unfold consumerFault?
  cases op.kind.isStore <;> cases p.consumers op.id <;> simp

/-- An operator without a fault stands at its number and keeps every rule. -/
theorem opFault?_eq_none {p : Plan} {position : Nat} {op : PlanOp} :
    p.opFault? position op = none ↔
      op.id = position ∧ (∀ input ∈ op.inputs, (p.op? input).isSome = true) ∧
        op.kind.admits op.inputs.length = true ∧ payloadFault? op = none ∧
        (op.kind.isStore = true ↔ p.consumers op.id = []) := by
  rw [← consumerFault?_eq_none]
  unfold opFault?
  by_cases placed : op.id = position
  · simp only [placed, ne_eq, not_true_eq_false, ↓reduceIte, true_and]
    cases unknown : op.inputs.find? fun input => (p.op? input).isNone with
    | some input =>
      have member := List.mem_of_find?_eq_some unknown
      have missing := List.find?_some unknown
      simp only [reduceCtorEq, false_iff, not_and]
      intro known
      have there := known input member
      rw [Option.isNone_iff_eq_none] at missing
      simp [missing] at there
    | none =>
      have known : ∀ input ∈ op.inputs, (p.op? input).isSome = true := by
        intro input member
        have found := List.find?_eq_none.mp unknown input member
        simpa only [Option.isNone_iff_eq_none, ← Option.isSome_iff_ne_none] using found
      rw [and_iff_right known]
      cases op.kind.admits op.inputs.length <;> simp [Option.or_eq_none_iff]
  · simp [placed]

/-- A plan is accepted if it has operators, none of which has a fault, and an order. -/
theorem validate_eq_ok {p : Plan} : p.validate = .ok () ↔ p.ops ≠ [] ∧
    (∀ position op, p.ops[position]? = some op → p.opFault? position op = none) ∧
      ∃ order, p.topologicalOrder = .ok order := by
  by_cases empty : p.ops = []
  · simp [validate, empty]
  · unfold validate
    rw [if_neg (by simpa using empty)]
    split
    · rename_i fault found
      obtain ⟨⟨op, position⟩, member, own⟩ := List.exists_of_findSome?_eq_some found
      have broken : p.opFault? position op = some fault := own
      constructor
      · intro accepted
        cases accepted
      · rintro ⟨_, rules, _⟩
        rw [rules position op (List.mk_mem_zipIdx_iff_getElem?.mp member)] at broken
        cases broken
    · rename_i found
      have rules : ∀ position op, p.ops[position]? = some op → p.opFault? position op = none :=
        fun position op there =>
          List.findSome?_eq_none_iff.mp found (op, position)
            (List.mk_mem_zipIdx_iff_getElem?.mpr there)
      cases sorted : p.topologicalOrder with
      | error e => simp [Except.map]
      | ok order => simpa [Except.map, empty] using rules

/-- A plan that is accepted keeps the promises. -/
theorem validated_of_validate {p : Plan} (accepted : p.validate = .ok ()) :
    ∃ order, p.Validated order := by
  obtain ⟨_, rules, order, sorted⟩ := validate_eq_ok.mp accepted
  have ofMem : ∀ op ∈ p.ops, ∃ position, p.opFault? position op = none := by
    intro op member
    obtain ⟨position, there⟩ := List.mem_iff_getElem?.mp member
    exact ⟨position, rules position op there⟩
  refine ⟨order, ⟨?_, ?_, ?_, ?_, ?_, sorted⟩⟩
  · intro position op there
    exact (opFault?_eq_none.mp (rules position op there)).1
  · intro op member input reads
    obtain ⟨position, rule⟩ := ofMem op member
    obtain ⟨found, is⟩ := Option.isSome_iff_exists.mp
      ((opFault?_eq_none.mp rule).2.1 input reads)
    exact lt_of_op? is
  · intro op member
    obtain ⟨position, rule⟩ := ofMem op member
    exact (opFault?_eq_none.mp rule).2.2.1
  · intro op member
    obtain ⟨position, rule⟩ := ofMem op member
    exact (opFault?_eq_none.mp rule).2.2.2.1
  · intro op member
    obtain ⟨position, rule⟩ := ofMem op member
    exact (opFault?_eq_none.mp rule).2.2.2.2

/-- A plan is refused for its own faults only. -/
theorem validate_error {p : Plan} {e : Error} (refused : p.validate = .error e) :
    ∃ fault, e = .plan fault := by
  unfold validate at refused
  split at refused
  · exact ⟨_, (Except.error.inj refused).symm⟩
  · split at refused
    · exact ⟨_, (Except.error.inj refused).symm⟩
    · rename_i faultless
      have numbered : p.Numbered := by
        intro position op there
        have member : (op, position) ∈ p.ops.zipIdx := List.mk_mem_zipIdx_iff_getElem?.mpr there
        have rule := List.findSome?_eq_none_iff.mp faultless (op, position) member
        exact (opFault?_eq_none.mp rule).1
      cases sorted : p.topologicalOrder with
      | ok order => simp [sorted, Except.map] at refused
      | error fault =>
        rw [sorted] at refused
        have cycle := numbered.topologicalOrder_error sorted
        exact ⟨.cycle, (Except.error.inj refused).symm.trans cycle⟩

namespace Validated

variable {p : Plan} {order : List Nat}

theorem perm (validated : p.Validated order) : order.Perm (List.range p.ops.length) :=
  (validated.numbered.greedy_of_order validated.sorted).2

theorem nodup (validated : p.Validated order) : order.Nodup :=
  validated.perm.nodup_iff.mpr List.nodup_range

theorem exists_op (validated : p.Validated order) {id : Nat} (member : id ∈ order) :
    ∃ op, p.op? id = some op :=
  validated.numbered.exists_op (List.mem_range.mp (validated.perm.mem_iff.mp member))

theorem mem_order (validated : p.Validated order) {id : Nat} {op : PlanOp}
    (found : p.op? id = some op) : id ∈ order :=
  validated.perm.mem_iff.mpr (List.mem_range.mpr (lt_of_op? found))

theorem idxOf_lt (validated : p.Validated order) {id : Nat} {op : PlanOp}
    (found : p.op? id = some op) : order.idxOf id < p.ops.length := by
  have inside := List.idxOf_lt_length_of_mem (validated.mem_order found)
  rwa [validated.perm.length_eq, List.length_range] at inside

theorem input_lt (validated : p.Validated order) {id input : Nat} {op : PlanOp}
    (found : p.op? id = some op) (reads : input ∈ op.inputs) : input < p.ops.length :=
  validated.known op (mem_of_op? found) input reads

theorem input_before (validated : p.Validated order) {before after : List Nat} {id input : Nat}
    {op : PlanOp} (split : order = before ++ id :: after) (found : p.op? id = some op)
    (reads : input ∈ op.inputs) : input ∈ before :=
  validated.numbered.input_before (split ▸ validated.sorted) found reads
    (validated.input_lt found reads)

/-- The readers of an operator come after it. -/
theorem consumer_not_placed (validated : p.Validated order) {before after : List Nat}
    {id consumer : Nat} (split : order = before ++ id :: after)
    (reads : consumer ∈ p.consumers id) :
    consumer ∉ id :: before := by
  obtain ⟨op, found, input⟩ := validated.numbered.mem_consumers.mp reads
  have distinct : (before ++ id :: after).Nodup := split ▸ validated.nodup
  have once : id ∉ before := fun again =>
    (List.nodup_append.mp distinct).2.2 id again id List.mem_cons_self rfl
  intro placed
  rcases List.mem_cons.mp placed with self | earlier
  · exact once (validated.input_before split (self ▸ found) input)
  · obtain ⟨front, back, rfl⟩ := List.append_of_mem earlier
    rw [List.append_assoc, List.cons_append] at split
    exact once (List.mem_append_left _ (validated.input_before split found input))

end Validated

end Wavefront.Plan
