import Wavefront.Proofs.Dataflow.Unfold
import Wavefront.Proofs.Plan.Validated
set_option autoImplicit false

/-!
Meanings satisfy their equations. Unfolding stops where nothing is read any more, so with enough
depth the meaning of an operator is what it makes of the meanings of its inputs, and the meaning of
a node is what it makes of the meanings of the nodes it reads.
-/
namespace Wavefront

/-- An unfolding that only asks for parts of lower rank does not change once it is deep enough. -/
theorem within_stable {α : Type} {step : (Nat → Option α) → Nat → Option α}
    {within : Nat → Nat → Option α}
    (unfolds : ∀ depth id, within (depth + 1) id = step (within depth) id)
    (known : Nat → Prop) (rank : Nat → Nat)
    (asks : ∀ id f g, known id → (∀ part, known part → rank part < rank id → f part = g part) →
      step f id = step g id)
    (depth : Nat) {id : Nat} (knows : known id) (deep : rank id < depth) :
    within (depth + 1) id = within depth id := by
  induction depth generalizing id with
  | zero => omega
  | succ depth ih =>
    rw [unfolds, unfolds depth id]
    exact asks id _ _ knows fun part knowsPart lower => ih knowsPart (by omega)

namespace Plan

variable {p : Plan} {order : List Nat}

/-- In the order an operator has a higher position than its inputs. -/
theorem Validated.position_lt (validated : p.Validated order) {id input : Nat} {op : PlanOp}
    (found : p.op? id = some op) (reads : input ∈ op.inputs) :
    order.idxOf input < order.idxOf id := by
  obtain ⟨before, after, split⟩ := List.append_of_mem (validated.mem_order found)
  have earlier := validated.input_before split found reads
  have distinct : (before ++ id :: after).Nodup := split ▸ validated.nodup
  have fresh : id ∉ before := fun again =>
    (List.nodup_append.mp distinct).2.2 id again id List.mem_cons_self rfl
  rw [split, List.idxOf_append_of_mem earlier, List.idxOf_append_of_notMem fresh,
    List.idxOf_cons_self]
  have := List.idxOf_lt_length_of_mem earlier
  omega

/-- An operator computes what it makes of what its inputs compute. -/
theorem Validated.meaning_eq (validated : p.Validated order) {id : Nat} {op : PlanOp}
    (found : p.op? id = some op) :
    p.meaning id = (op.inputs.mapM p.meaning).bind (Dataflow.ofOperator? op.kind) := by
  let step (f : Nat → Option Dataflow) (id : Nat) : Option Dataflow :=
    (p.op? id).bind fun op => (op.inputs.mapM f).bind (Dataflow.ofOperator? op.kind)
  have unfolds : ∀ depth id, p.meaningWithin (depth + 1) id = step (p.meaningWithin depth) id :=
    fun _ _ => rfl
  have stable := within_stable unfolds (fun id => ∃ op, p.op? id = some op) order.idxOf ?_
    p.ops.length ⟨op, found⟩ (validated.idxOf_lt found)
  · rw [meaning, ← stable, unfolds]
    simp only [step, found, Option.bind_some]
    rfl
  · rintro other f g ⟨reader, there⟩ same
    simp only [step, there, Option.bind_some]
    rw [Traversal.mapM_congr fun input reads => same input
      (validated.numbered.exists_op (validated.input_lt there reads))
      (validated.position_lt there reads)]

theorem Validated.meaning_of_inputs (validated : p.Validated order) {id : Nat} {op : PlanOp}
    {inputs : List Dataflow} {x : Dataflow} (found : p.op? id = some op)
    (each : List.Forall₂ (fun input y => p.meaning input = some y) op.inputs inputs)
    (value : Dataflow.ofOperator? op.kind inputs = some x) : p.meaning id = some x := by
  rw [validated.meaning_eq found, Traversal.mapM_eq_some.mpr each, Option.bind_some, value]

theorem Validated.meaning_of_input (validated : p.Validated order) {id input : Nat} {op : PlanOp}
    {x y : Dataflow} (found : p.op? id = some op) (only : op.inputs = [input])
    (meant : p.meaning input = some y) (value : Dataflow.ofOperator? op.kind [y] = some x) :
    p.meaning id = some x :=
  validated.meaning_of_inputs found (by simpa only [only] using .cons meant .nil) value

end Plan

theorem Source.meaning_congr {source : Source} {f g : Nat → Option Dataflow}
    (same : ∀ producer, source.producer? = some producer → f producer = g producer) :
    source.meaning f = source.meaning g := by
  cases source with
  | file location schema => rfl
  | temp node location => exact same node rfl

theorem Node.meaning_congr {n : Node} {f g : Nat → Option Dataflow}
    (same : ∀ producer ∈ n.producers, f producer = g producer) : n.meaning f = n.meaning g := by
  have starts : (n.map.map fun b => (b.source.meaning f, b.ops)) =
      n.map.map fun b => (b.source.meaning g, b.ops) := by
    apply List.map_congr_left
    intro b member
    rw [Source.meaning_congr fun producer is =>
      same producer (List.mem_filterMap.mpr ⟨b, member, is⟩)]
  simp only [Node.meaning, starts]

/-- Where nodes read only nodes before them, a node writes what it makes of what those write. -/
theorem Graph.meaning_eq {g : Graph}
    (backward : ∀ (id : Nat) (n : Node), g.nodes[id]? = some n → ∀ producer ∈ n.producers,
      producer < id)
    {id : Nat} {n : Node} (there : g.nodes[id]? = some n) : g.meaning id = n.meaning g.meaning := by
  let step (f : Nat → Option Dataflow) (id : Nat) : Option Dataflow :=
    (g.node? id).bind (Node.meaning f)
  have unfolds : ∀ depth id, g.meaningWithin (depth + 1) id = step (g.meaningWithin depth) id :=
    fun _ _ => rfl
  have deep : id < g.nodes.length := (List.getElem?_eq_some_iff.mp there).1
  have stable := within_stable unfolds (fun id => ∃ n, g.nodes[id]? = some n) (fun id => id) ?_
    g.nodes.length ⟨n, there⟩ deep
  · rw [meaning, ← stable, unfolds]
    simp only [step, node?, there, Option.bind_some]
    rfl
  · rintro other f h ⟨node, found⟩ same
    simp only [step, node?, found, Option.bind_some]
    apply Node.meaning_congr
    intro producer reads
    have lower := backward other node found producer reads
    have inside := (List.getElem?_eq_some_iff.mp found).1
    exact same producer ⟨_, List.getElem?_eq_getElem (Nat.lt_trans lower inside)⟩ lower

end Wavefront
