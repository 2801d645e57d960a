import Wavefront.Proofs.Plan.Sorting
import Wavefront.Proofs.Plan.Validated
set_option autoImplicit false

/-!
Which plans pass the check. Main statement: the check accepts exactly the well-formed plans and refuses
all others for a fault of the plan. In a well-formed plan the records of every operator come from a load
and end in a store, although no rule asks for either.
-/
namespace Wavefront

def Operator.isLoad : Operator → Bool
  | .load .. => true
  | _ => false

/-- The key lists of an operator that brings several inputs together. -/
def Operator.keyLists? : Operator → Option (List (List String))
  | .coGroup keys | .join keys _ => some keys
  | _ => none

namespace Plan

/-- Each of some inputs has its keys, and all have equally many. -/
structure KeysFit (keys : List (List String)) (inputs : Nat) : Prop where
  count : keys.length = inputs
  nonempty : ∀ k ∈ keys, k ≠ []
  width : ∀ k ∈ keys, ∀ other ∈ keys, k.length = other.length

/-- A plan that makes sense. -/
structure WellFormed (p : Plan) : Prop where
  nonempty : p.ops ≠ []
  numbered : p.Numbered
  closed : p.Closed
  loads : ∀ op ∈ p.ops, op.kind.isLoad = true → op.inputs = []
  several : ∀ op ∈ p.ops, ∀ keys, op.kind.keyLists? = some keys → 2 ≤ op.inputs.length
  single : ∀ op ∈ p.ops, op.kind.isLoad = false → op.kind.keyLists? = none → op.inputs.length = 1
  keyed : ∀ op ∈ p.ops, ∀ keys, op.kind.keyLists? = some keys → KeysFit keys op.inputs.length
  calls : ∀ op ∈ p.ops, op.kind ≠ .aggregate []
  /-- Stores, and they alone, have no readers. -/
  read : ∀ op ∈ p.ops, (∀ reader ∈ p.ops, op.id ∉ reader.inputs) ↔ op.kind.isStore = true
  acyclic : p.IsAcyclic

/-- Records come from loads and end in stores. -/
structure Connected (p : Plan) : Prop where
  stores : ∃ store ∈ p.ops, store.kind.isStore = true
  toStore : ∀ op ∈ p.ops, ∃ store ∈ p.ops, store.kind.isStore = true ∧
    Relation.ReflTransGen p.Feeds op.id store.id
  fromLoad : ∀ op ∈ p.ops, ∃ load ∈ p.ops, load.kind.isLoad = true ∧
    Relation.ReflTransGen p.Feeds load.id op.id

/-- What the check of a plan decides. -/
structure Checks (p : Plan) : Prop where
  accepts : p.validate = .ok () ↔ p.WellFormed
  refuses : ∀ e, p.validate = .error e → ∃ fault, e = .plan fault
  connected : p.validate = .ok () → p.Connected

theorem admits_iff {op : Operator} {count : Nat} : op.admits count = true ↔
    (op.isLoad = true → count = 0) ∧ (∀ keys, op.keyLists? = some keys → 2 ≤ count) ∧
      (op.isLoad = false → op.keyLists? = none → count = 1) := by
  cases op <;> simp [Operator.admits, Operator.isLoad, Operator.keyLists?]

theorem keysFault?_eq_none {id inputs : Nat} {name : String} {keys : List (List String)} :
    keysFault? id name keys inputs = none ↔ KeysFit keys inputs := by
  unfold keysFault?
  split
  · rename_i differ
    simp only [reduceCtorEq, false_iff]
    intro fits
    exact differ fits.count
  · rename_i count
    split
    · rename_i empty
      simp only [reduceCtorEq, false_iff]
      intro fits
      obtain ⟨k, member, none⟩ := List.any_eq_true.mp empty
      exact fits.nonempty k member (List.isEmpty_iff.mp none)
    · rename_i filled
      have nonempty : ∀ k ∈ keys, k ≠ [] := by
        intro k member none
        exact filled (List.any_eq_true.mpr ⟨k, member, List.isEmpty_iff.mpr none⟩)
      cases keys with
      | nil => simpa using ⟨by simpa using count, nonempty, by simp⟩
      | cons first rest =>
        split
        · rename_i uneven
          simp only [reduceCtorEq, false_iff]
          intro fits
          obtain ⟨k, member, differs⟩ := List.any_eq_true.mp uneven
          exact of_decide_eq_true differs (fits.width k member first List.mem_cons_self)
        · rename_i even
          have width : ∀ k ∈ first :: rest, k.length = first.length := by
            intro k member
            by_contra differs
            exact even (List.any_eq_true.mpr ⟨k, member, decide_eq_true differs⟩)
          simp only [true_iff]
          exact ⟨by simpa using count, nonempty, fun k member other among =>
            (width k member).trans (width other among).symm⟩

theorem payloadFault?_eq_none {op : PlanOp} : payloadFault? op = none ↔
    (∀ keys, op.kind.keyLists? = some keys → KeysFit keys op.inputs.length) ∧
      op.kind ≠ .aggregate [] := by
  unfold payloadFault?
  cases op.kind with
  | coGroup keys => simp [Operator.keyLists?, keysFault?_eq_none]
  | join keys joinType => simp [Operator.keyLists?, keysFault?_eq_none]
  | aggregate calls => cases calls <;> simp [Operator.keyLists?]
  | load | filter | project | stream | group | distinct | limit | store =>
    simp [Operator.keyLists?]

theorem consumers_eq_nil_iff {p : Plan} {id : Nat} :
    p.consumers id = [] ↔ ∀ reader ∈ p.ops, id ∉ reader.inputs := by
  simp only [consumers, List.flatMap_eq_nil_iff, List.map_eq_nil_iff, List.filter_eq_nil_iff,
    beq_iff_eq]
  constructor
  · intro none reader member reads
    exact none reader member id reads rfl
  · intro none reader member input reads same
    exact none reader member (same ▸ reads)

variable {p : Plan}

theorem Numbered.isSome_op? (numbered : p.Numbered) {input : Nat} :
    (p.op? input).isSome = true ↔ ∃ there ∈ p.ops, there.id = input := by
  rw [numbered.exists_id_iff, numbered.op?_eq]
  simp

/-- Operators without a fault, and an order of them, make a plan well-formed. -/
theorem wellFormed_of_validate (accepted : p.validate = .ok ()) : p.WellFormed := by
  obtain ⟨nonempty, rules, sorted⟩ := validate_eq_ok.mp accepted
  have numbered : p.Numbered := fun position op there =>
    (opFault?_eq_none.mp (rules position op there)).1
  have kept : ∀ op ∈ p.ops, op.kind.admits op.inputs.length = true ∧ payloadFault? op = none ∧
      (op.kind.isStore = true ↔ p.consumers op.id = []) := by
    intro op member
    have there := (op?_eq_some (numbered.op?_of_mem member)).1
    exact (opFault?_eq_none.mp (rules op.id op there)).2.2
  have admitted (op : PlanOp) (member : op ∈ p.ops) := admits_iff.mp (kept op member).1
  have payload (op : PlanOp) (member : op ∈ p.ops) := payloadFault?_eq_none.mp (kept op member).2.1
  obtain ⟨closed, acyclic⟩ := numbered.exists_order_iff.mp sorted
  exact {
    nonempty
    numbered
    closed
    acyclic
    loads op member load := List.length_eq_zero_iff.mp ((admitted op member).1 load)
    several op member := (admitted op member).2.1
    single op member := (admitted op member).2.2
    keyed op member := (payload op member).1
    calls op member := (payload op member).2
    read op member := by rw [← consumers_eq_nil_iff, (kept op member).2.2] }

theorem WellFormed.validate_eq_ok (wellFormed : p.WellFormed) : p.validate = .ok () := by
  apply Plan.validate_eq_ok.mpr
  refine ⟨wellFormed.nonempty, ?_,
    wellFormed.numbered.exists_order_iff.mpr ⟨wellFormed.closed, wellFormed.acyclic⟩⟩
  intro position op there
  have member : op ∈ p.ops := List.mem_of_getElem? there
  apply opFault?_eq_none.mpr
  refine ⟨wellFormed.numbered position op there, ?_, ?_, ?_, ?_⟩
  · intro input reads
    exact wellFormed.numbered.isSome_op?.mpr (wellFormed.closed op member input reads)
  · apply admits_iff.mpr
    refine ⟨?_, wellFormed.several op member, wellFormed.single op member⟩
    intro load
    rw [wellFormed.loads op member load, List.length_nil]
  · exact payloadFault?_eq_none.mpr ⟨wellFormed.keyed op member, wellFormed.calls op member⟩
  · rw [consumers_eq_nil_iff, wellFormed.read op member]

namespace WellFormed

theorem exists_reader (wellFormed : p.WellFormed) {op : PlanOp} (member : op ∈ p.ops)
    (other : op.kind.isStore ≠ true) : ∃ reader ∈ p.ops, p.Feeds op.id reader.id := by
  by_contra none
  apply other
  apply (wellFormed.read op member).mp
  intro reader among reads
  exact none ⟨reader, among, reader, wellFormed.numbered.op?_of_mem among, reads⟩

/-- An operator that is not a load reads an operator. -/
theorem exists_input (wellFormed : p.WellFormed) {op : PlanOp} (member : op ∈ p.ops)
    (other : op.kind.isLoad ≠ true) : ∃ input ∈ p.ops, p.Feeds input.id op.id := by
  have some_ : op.inputs ≠ [] := by
    intro none
    cases lists : op.kind.keyLists? with
    | none =>
      have one := wellFormed.single op member (by simpa using other) lists
      simp [none] at one
    | some keys =>
      have many := wellFormed.several op member keys lists
      simp [none] at many
  obtain ⟨number, reads⟩ := List.exists_mem_of_ne_nil _ some_
  obtain ⟨input, among, rfl⟩ := wellFormed.closed op member number reads
  exact ⟨input, among, op, wellFormed.numbered.op?_of_mem member, reads⟩

/-- Going back from an operator, one comes to a load. -/
theorem exists_load (wellFormed : p.WellFormed) {op : PlanOp} (member : op ∈ p.ops) :
    ∃ load ∈ p.ops, load.kind.isLoad = true ∧ Relation.ReflTransGen p.Feeds load.id op.id := by
  have founded : WellFounded p.Feeds := by
    apply wellFormed.acyclic.wellFounded (n := p.ops.length)
    intro u v reads
    obtain ⟨reader, found, input⟩ := reads
    exact wellFormed.numbered.exists_id_iff.mp (wellFormed.closed reader (mem_of_op? found) u input)
  induction number : op.id using founded.induction generalizing op with
  | _ id ih =>
    subst number
    by_cases isLoad : op.kind.isLoad = true
    · exact ⟨op, member, isLoad, .refl⟩
    · obtain ⟨input, among, reads⟩ := wellFormed.exists_input member isLoad
      obtain ⟨load, there, is, way⟩ := ih input.id reads among rfl
      exact ⟨load, there, is, way.tail reads⟩

/-- Going on from an operator, one comes to a store. -/
theorem exists_store (wellFormed : p.WellFormed) {op : PlanOp} (member : op ∈ p.ops) :
    ∃ store ∈ p.ops, store.kind.isStore = true ∧ Relation.ReflTransGen p.Feeds op.id store.id := by
  have founded : WellFounded (Function.swap p.Feeds) := by
    apply wellFormed.acyclic.swap.wellFounded (n := p.ops.length)
    intro u v reads
    obtain ⟨reader, found, _⟩ := reads
    exact lt_of_op? found
  induction number : op.id using founded.induction generalizing op with
  | _ id ih =>
    subst number
    by_cases isStore : op.kind.isStore = true
    · exact ⟨op, member, isStore, .refl⟩
    · obtain ⟨reader, among, reads⟩ := wellFormed.exists_reader member isStore
      obtain ⟨store, there, is, way⟩ := ih reader.id reads among rfl
      exact ⟨store, there, is, .head reads way⟩

theorem connected (wellFormed : p.WellFormed) : p.Connected where
  stores := by
    obtain ⟨op, member⟩ := List.exists_mem_of_ne_nil _ wellFormed.nonempty
    obtain ⟨store, there, is, _⟩ := wellFormed.exists_store member
    exact ⟨store, there, is⟩
  toStore _ member := wellFormed.exists_store member
  fromLoad _ member := wellFormed.exists_load member

end WellFormed

/-- The check accepts exactly the well-formed plans, in which records come from loads and end in
stores. -/
theorem validate_checks (p : Plan) : p.Checks where
  accepts := ⟨wellFormed_of_validate, WellFormed.validate_eq_ok⟩
  refuses _ refused := validate_error refused
  connected accepted := (wellFormed_of_validate accepted).connected

end Plan

end Wavefront
