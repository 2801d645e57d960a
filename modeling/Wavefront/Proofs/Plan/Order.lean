import Mathlib.Algebra.BigOperators.Group.List.Basic
import Wavefront.Plan.Validity
import Wavefront.Proofs.Precedence.Sorting
import Wavefront.Proofs.Traversal
set_option autoImplicit false

/-!
The topological order of a plan. Where every operator stands at its number, the number of inputs of
an operator covers the edges into it, so the order is a greedy one; it succeeds wherever the plan
passes the check, and every operator comes after its inputs.
-/
namespace Wavefront.Plan

/-- Every operator stands at its number. -/
def Numbered (p : Plan) : Prop :=
  ∀ (position : Nat) (op : PlanOp), p.ops[position]? = some op → op.id = position

theorem Numbered.op?_eq {p : Plan} (numbered : p.Numbered) (id : Nat) : p.op? id = p.ops[id]? := by
  cases there : p.ops[id]? with
  | none => simp only [op?, there, Option.filter_none]
  | some op => simp only [op?, there, Option.filter_some, numbered id op there, BEq.rfl, ↓reduceIte]

theorem Numbered.map_id {p : Plan} (numbered : p.Numbered) :
    p.ops.map PlanOp.id = List.range p.ops.length :=
  Traversal.map_eq_range_of_placed numbered

theorem op?_eq_some {p : Plan} {id : Nat} {op : PlanOp} (found : p.op? id = some op) :
    p.ops[id]? = some op ∧ op.id = id := by
  obtain ⟨there, same⟩ := Option.filter_eq_some_iff.mp found
  exact ⟨there, beq_iff_eq.mp same⟩

theorem Numbered.op?_of_mem {p : Plan} (numbered : p.Numbered) {op : PlanOp} (member : op ∈ p.ops) :
    p.op? op.id = some op := by
  obtain ⟨position, there⟩ := List.mem_iff_getElem?.mp member
  rw [numbered.op?_eq, numbered position op there, there]

theorem mem_of_op? {p : Plan} {id : Nat} {op : PlanOp} (found : p.op? id = some op) : op ∈ p.ops :=
  List.mem_of_getElem? (op?_eq_some found).1

theorem lt_of_op? {p : Plan} {id : Nat} {op : PlanOp} (found : p.op? id = some op) :
    id < p.ops.length :=
  (List.getElem?_eq_some_iff.mp (op?_eq_some found).1).1

theorem Numbered.exists_op {p : Plan} (numbered : p.Numbered) {id : Nat}
    (inside : id < p.ops.length) :
    ∃ op, p.op? id = some op :=
  ⟨p.ops[id], (numbered.op?_eq id).trans (List.getElem?_eq_getElem inside)⟩

theorem Numbered.mem_consumers {p : Plan} (numbered : p.Numbered) {id consumer : Nat} :
    consumer ∈ p.consumers id ↔ ∃ op, p.op? consumer = some op ∧ id ∈ op.inputs := by
  simp only [consumers, List.mem_flatMap, List.mem_map, List.mem_filter, beq_iff_eq]
  constructor
  · rintro ⟨op, member, _, ⟨input, rfl⟩, rfl⟩
    exact ⟨op, numbered.op?_of_mem member, input⟩
  · rintro ⟨op, found, input⟩
    exact ⟨op, mem_of_op? found, id, ⟨input, rfl⟩, (op?_eq_some found).2⟩

theorem consumers_cons (op : PlanOp) (rest : List PlanOp) (u : Nat) :
    consumers ⟨op :: rest⟩ u = List.replicate (op.inputs.count u) op.id ++ consumers ⟨rest⟩ u := by
  simp only [consumers, List.flatMap_cons, List.map_const', List.count_eq_length_filter]

/-- An operator reads another once for each edge between them. -/
theorem count_le_consumers {p : Plan} {op : PlanOp} (member : op ∈ p.ops) (u : Nat) :
    op.inputs.count u ≤ (p.consumers u).length := by
  obtain ⟨ops⟩ := p
  induction ops with
  | nil => cases member
  | cons first rest ih =>
    rw [consumers_cons, List.length_append, List.length_replicate]
    rcases List.mem_cons.mp member with rfl | later
    · omega
    · have := ih later
      omega

/-- The edges into `v` from the vertices below `n`, operator by operator. -/
theorem count_consumers (ops : List PlanOp) (n v : Nat) :
    ((List.range n).flatMap (consumers ⟨ops⟩)).count v =
      (ops.map fun op => if op.id = v then op.inputs.countP (· < n) else 0).sum := by
  rw [List.count_flatMap]
  induction ops with
  | nil =>
    have nobody : (List.count v ∘ consumers ⟨[]⟩) = fun _ => 0 := rfl
    simp [nobody]
  | cons op rest ih =>
    have split : (List.count v ∘ consumers ⟨op :: rest⟩) = fun u =>
        (if op.id = v then op.inputs.count u else 0) + (List.count v ∘ consumers ⟨rest⟩) u := by
      funext u
      simp only [Function.comp_apply, consumers_cons, List.count_append, List.count_replicate,
        beq_iff_eq]
    rw [split, List.sum_map_add, ih, List.map_cons, List.sum_cons]
    by_cases same : op.id = v
    · simp only [same, ↓reduceIte, Precedence.sum_count_range]
    · simp [same]

theorem sum_at_number (f : PlanOp → Nat) (ops : List PlanOp) (offset v : Nat)
    (numbered : ∀ position op, ops[position]? = some op → op.id = offset + position) :
    (ops.map fun op => if op.id = v then f op else 0).sum =
      if v < offset then 0 else (ops[v - offset]?.map f).getD 0 := by
  induction ops generalizing offset with
  | nil => simp
  | cons op rest ih =>
    have first : op.id = offset := numbered 0 op rfl
    have later := ih (offset + 1) fun position other there => by
      rw [numbered (position + 1) other there]
      omega
    rw [List.map_cons, List.sum_cons, later, first]
    rcases Nat.lt_trichotomy v offset with low | rfl | high
    · simp [low, Nat.ne_of_gt low, Nat.lt_succ_of_lt low]
    · simp
    · have notBelow : ¬ v < offset + 1 := by omega
      have notBelow' : ¬ v < offset := by omega
      rw [if_neg (Nat.ne_of_lt high), if_neg notBelow, if_neg notBelow',
        show v - offset = (v - (offset + 1)) + 1 by omega, List.getElem?_cons_succ, Nat.zero_add]

theorem Numbered.count_edges {p : Plan} (numbered : p.Numbered) (n v : Nat) :
    ((List.range n).flatMap p.consumers).count v =
      (p.ops[v]?.map fun op => op.inputs.countP (· < n)).getD 0 := by
  have placed : ∀ position op, p.ops[position]? = some op → op.id = 0 + position := by
    intro position op there
    rw [numbered position op there, Nat.zero_add]
  have total := sum_at_number (fun op => op.inputs.countP (· < n)) p.ops 0 v placed
  exact (count_consumers p.ops n v).trans total

theorem Numbered.covered {p : Plan} (numbered : p.Numbered) :
    Precedence.Covered p.ops.length p.inputCount p.consumers where
  within u _ v edge := by
    obtain ⟨op, found, _⟩ := numbered.mem_consumers.mp edge
    exact lt_of_op? found
  counted v vertex := by
    simp only [numbered.count_edges, inputCount, List.getElem?_eq_getElem vertex, Option.map_some,
      Option.getD_some]
    exact List.countP_le_length

/-- The counters of a plan never run out, so all that can stop its order is a circle. -/
theorem Numbered.topologicalOrder_error {p : Plan} (numbered : p.Numbered) {e : Error}
    (failed : p.topologicalOrder = .error e) : e = .plan .cycle := by
  have fits := Precedence.order_ne_counter numbered.covered
  simp only [topologicalOrder] at failed
  split at failed
  · simp at failed
  · exact (Except.error.inj failed).symm
  · rename_i unfit
    exact absurd unfit fits

theorem topologicalOrder_eq_ok {p : Plan} {order : List Nat} : p.topologicalOrder = .ok order ↔
    Precedence.order (List.range p.ops.length) p.inputCount p.consumers = .ok order := by
  unfold topologicalOrder
  split <;> simp [*]

theorem Numbered.greedy_of_order {p : Plan} (numbered : p.Numbered) {order : List Nat}
    (success : p.topologicalOrder = .ok order) :
    Precedence.Greedy p.ops.length p.inputCount p.consumers order ∧
      order.Perm (List.range p.ops.length) :=
  Precedence.greedy_of_order numbered.covered (topologicalOrder_eq_ok.mp success)

theorem Numbered.input_before {p : Plan} (numbered : p.Numbered) {before after : List Nat}
    {id input : Nat} {op : PlanOp} (success : p.topologicalOrder = .ok (before ++ id :: after))
    (found : p.op? id = some op) (member : input ∈ op.inputs) (known : input < p.ops.length) :
    input ∈ before :=
  (numbered.greedy_of_order success).1.mem_before numbered.covered known
    (numbered.mem_consumers.mpr ⟨op, found, member⟩)

end Wavefront.Plan
