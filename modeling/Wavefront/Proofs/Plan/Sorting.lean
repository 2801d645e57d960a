import Wavefront.Proofs.Plan.Order
import Wavefront.Proofs.Precedence.Legal
set_option autoImplicit false

/-!
What the topological order of a plan is. Main statement: where every operator stands at its number, the
order exists exactly if all inputs are operators of the plan and no operator depends on itself; it is
then the least of the orders in which every operator comes after its inputs, and otherwise all that is
wrong is a circle. The counters of the operators are never lowered below zero.
-/
namespace Wavefront.Plan

/-- The operator `v` reads the records of `u`. -/
def Feeds (p : Plan) (u v : Nat) : Prop := ∃ op, p.op? v = some op ∧ u ∈ op.inputs

/-- Every input is an operator of the plan. -/
def Closed (p : Plan) : Prop := ∀ op ∈ p.ops, ∀ input ∈ op.inputs, ∃ there ∈ p.ops, there.id = input

/-- No operator reads, over whatever many others, its own records. -/
def IsAcyclic (p : Plan) : Prop := Precedence.Acyclic p.Feeds

/-- Every operator has its turn once, after its inputs. -/
structure Legal (p : Plan) (order : List Nat) : Prop where
  perm : order.Perm (p.ops.map PlanOp.id)
  after : ∀ before id rest, order = before ++ id :: rest → ∀ input, p.Feeds input id → input ∈ before

/-- The counters of the operators before any is taken. -/
def counters (p : Plan) : Precedence.State :=
  Precedence.start (List.range p.ops.length) p.inputCount

/-- What the topological order of a plan is. -/
structure Sorts (p : Plan) : Prop where
  /-- Whatever operator is taken, each edge that leaves it lowers a counter that is not at zero. -/
  lowered : ∀ pending id ready, Precedence.Passes p.consumers p.counters ⟨pending, id :: ready⟩ →
    ∃ s, Precedence.State.releaseAll? ⟨pending, ready⟩ (p.consumers id) = some s
  success : (∃ order, p.topologicalOrder = .ok order) ↔ p.Closed ∧ p.IsAcyclic
  legal : ∀ order, p.topologicalOrder = .ok order → p.Legal order
  least : ∀ order, p.topologicalOrder = .ok order → ∀ other, p.Legal other →
    order = other ∨ List.Lex (· < ·) order other
  /-- At every step the smallest operator is taken whose inputs all have had their turn. -/
  smallest : ∀ before id rest, p.topologicalOrder = .ok (before ++ id :: rest) → ∀ op ∈ p.ops,
    op.id ∉ before → (∀ input ∈ op.inputs, input ∈ before) → id ≤ op.id
  failure : ∀ e, p.topologicalOrder = .error e → e = .plan .cycle

variable {p : Plan}

namespace Numbered

theorem exists_id_iff (numbered : p.Numbered) {id : Nat} :
    (∃ op ∈ p.ops, op.id = id) ↔ id < p.ops.length := by
  rw [← List.mem_map, numbered.map_id, List.mem_range]

theorem inputCount_eq (numbered : p.Numbered) {op : PlanOp} (member : op ∈ p.ops) :
    p.inputCount op.id = op.inputs.length := by
  rw [inputCount, (op?_eq_some (numbered.op?_of_mem member)).1, Option.map_some, Option.getD_some]

/-- Operators count their inputs exactly if all these are in the plan. -/
theorem exact_iff (numbered : p.Numbered) :
    Precedence.Exact p.ops.length p.inputCount p.consumers ↔ p.Closed := by
  have counts (op : PlanOp) (member : op ∈ p.ops) : p.inputCount op.id =
      ((List.range p.ops.length).flatMap p.consumers).count op.id ↔
        ∀ input ∈ op.inputs, ∃ there ∈ p.ops, there.id = input := by
    have there := (op?_eq_some (numbered.op?_of_mem member)).1
    rw [numbered.inputCount_eq member, numbered.count_edges, there, Option.map_some, Option.getD_some,
      eq_comm, List.countP_eq_length]
    simp only [numbered.exists_id_iff, decide_eq_true_eq]
  constructor
  · intro exact_ op member
    exact (counts op member).mp (exact_ op.id (numbered.exists_id_iff.mp ⟨op, member, rfl⟩))
  · intro closed v vertex
    obtain ⟨op, member, rfl⟩ := numbered.exists_id_iff.mpr vertex
    exact (counts op member).mpr (closed op member)

/-- Where all inputs are in the plan, edges join what is read with who reads it. -/
theorem joins_eq (numbered : p.Numbered) (closed : p.Closed) :
    Precedence.Joins p.ops.length p.consumers = p.Feeds := by
  funext u v
  apply propext
  rw [Precedence.Joins, numbered.mem_consumers, Feeds]
  constructor
  · intro edge
    exact edge.2
  · intro reads
    obtain ⟨op, found, input⟩ := reads
    exact ⟨numbered.exists_id_iff.mp (closed op (mem_of_op? found) u input), op, found, input⟩

theorem legal_iff (numbered : p.Numbered) (closed : p.Closed) {order : List Nat} :
    Precedence.Legal p.ops.length p.consumers order ↔ p.Legal order := by
  have same := numbered.joins_eq closed
  constructor
  · intro legal
    exact ⟨numbered.map_id ▸ legal.perm, fun before id rest split input reads =>
      legal.after before id rest split input (same ▸ reads)⟩
  · intro legal
    exact ⟨numbered.map_id ▸ legal.perm, fun before id rest split input edge =>
      legal.after before id rest split input (same ▸ edge)⟩

/-- An order is found exactly if all inputs are in the plan and no operator depends on itself. -/
theorem exists_order_iff (numbered : p.Numbered) :
    (∃ order, p.topologicalOrder = .ok order) ↔ p.Closed ∧ p.IsAcyclic := by
  simp only [topologicalOrder_eq_ok]
  rw [Precedence.order_eq_ok_iff numbered.covered, numbered.exact_iff]
  apply and_congr_right
  intro closed
  rw [numbered.joins_eq closed, IsAcyclic]

/-- Where every operator reads operators above it only, the order is that of the plan. -/
theorem topologicalOrder_eq_range (numbered : p.Numbered)
    (backward : ∀ op ∈ p.ops, ∀ input ∈ op.inputs, input < op.id) :
    p.topologicalOrder = .ok (List.range p.ops.length) := by
  have closed : p.Closed := by
    intro op member input reads
    have inside := numbered.exists_id_iff.mp ⟨op, member, rfl⟩
    exact numbered.exists_id_iff.mpr (Nat.lt_trans (backward op member input reads) inside)
  have rises (u v : Nat) (feeds : p.Feeds u v) : u < v := by
    obtain ⟨op, found, input⟩ := feeds
    exact (op?_eq_some found).2 ▸ backward op (mem_of_op? found) u input
  obtain ⟨order, success⟩ :=
    numbered.exists_order_iff.mpr ⟨closed, Precedence.acyclic_of_rank id rises⟩
  obtain ⟨greedy, perm⟩ := numbered.greedy_of_order success
  have edges (u : Nat) (vertex : u < p.ops.length) (v : Nat) (edge : v ∈ p.consumers u) : u < v :=
    rises u v (numbered.mem_consumers.mp edge)
  have same := greedy.eq_range edges fun v vertex => (numbered.exact_iff.mpr closed v vertex).symm
  rw [success, same, perm.length_eq, List.length_range]

/-- The smallest operator is taken whose inputs all have had their turn. -/
theorem le_of_placed (numbered : p.Numbered) {before rest : List Nat} {id : Nat} {op : PlanOp}
    (success : p.topologicalOrder = .ok (before ++ id :: rest)) (member : op ∈ p.ops)
    (fresh : op.id ∉ before) (placed : ∀ input ∈ op.inputs, input ∈ before) : id ≤ op.id := by
  have greedy := (numbered.greedy_of_order success).1
  have closed : p.Closed := (numbered.exists_order_iff.mp ⟨_, success⟩).1
  have vertex : op.id < p.ops.length := numbered.exists_id_iff.mp ⟨op, member, rfl⟩
  have free : Precedence.Free p.inputCount p.consumers before op.id := by
    by_contra waits
    obtain ⟨u, missing, edge⟩ := Precedence.exists_open (List.nodup_append.mp greedy.nodup).1
      (fun u among => greedy.lt (List.mem_append_left _ among))
      (numbered.exact_iff.mpr closed op.id vertex) waits
    rw [numbered.joins_eq closed] at edge
    obtain ⟨reader, found, input⟩ := edge
    rw [numbered.op?_of_mem member] at found
    cases found
    exact missing (placed u input)
  exact greedy.le_of_free vertex fresh free

end Numbered

/-- The topological order of a plan whose operators stand at their numbers is the least legal order, if
there is one. -/
theorem topologicalOrder_sorts (numbered : p.Numbered) : p.Sorts where
  lowered _ _ _ passes := Precedence.exists_released numbered.covered passes
  success := numbered.exists_order_iff
  legal order success := by
    have closed : p.Closed := (numbered.exists_order_iff.mp ⟨order, success⟩).1
    obtain ⟨greedy, perm⟩ := numbered.greedy_of_order success
    exact (numbered.legal_iff closed).mp (greedy.legal numbered.covered perm)
  least order success other legal := by
    have closed : p.Closed := (numbered.exists_order_iff.mp ⟨order, success⟩).1
    exact (numbered.greedy_of_order success).1.eq_or_lex_of_legal (numbered.exact_iff.mpr closed)
      ((numbered.legal_iff closed).mpr legal)
  smallest _ _ _ success _ member fresh placed := numbered.le_of_placed success member fresh placed
  failure _ failed := numbered.topologicalOrder_error failed

/-- A join of a load with itself, numbered against its order. -/
def selfJoin : Plan := ⟨[
  ⟨0, .store "out" "csv", [2]⟩,
  ⟨1, .load "in" none, []⟩,
  ⟨2, .join [["k"], ["k"]] .inner, [1, 1]⟩]⟩

/-- The join has its turn once both of its inputs, which are one operator, have had theirs. -/
theorem topologicalOrder_sorts_selfJoin :
    selfJoin.Numbered ∧ selfJoin.topologicalOrder = .ok [1, 2, 0] ∧ selfJoin.Sorts := by
  have numbered : selfJoin.Numbered := by
    intro position op there
    match position, there with
    | 0, there | 1, there | 2, there => cases there; rfl
  exact ⟨numbered, rfl, topologicalOrder_sorts numbered⟩

/-- An operator that reads what is not in the plan waits like one on a circle. -/
example : (⟨[⟨0, .load "in" none, []⟩, ⟨1, .store "out" "csv", [7]⟩]⟩ : Plan).topologicalOrder =
    .error (.plan .cycle) := rfl

end Wavefront.Plan
