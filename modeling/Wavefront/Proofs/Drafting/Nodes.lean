import Wavefront.Proofs.Drafting.Run
import Wavefront.Proofs.Graph.Building
set_option autoImplicit false

/-!
From drafts to nodes. When all operators are placed, the drafts that are left are those of the
operators that are written out. They are numbered in their order, so nodes read only nodes before
them, and what a node writes is what the operator on its draft computes.
-/
namespace Wavefront.Drafting

variable {p : Plan} {order : List Nat} {s : State} {w : Surroundings}

/-- How many drafts are left before a slot. -/
def State.numberOf (s : State) (slot : Nat) : Nat := (s.drafts.take slot).countP Option.isSome

/-- Where a branch reads once the drafts are numbered. -/
def DraftSource.settle (w : Surroundings) (number : Nat → Nat) : DraftSource → Source
  | .file location schema => .file location schema
  | .draft slot => .temp (number slot) (w.temporary (number slot))

/-- The node of a number that a draft becomes once the drafts are numbered. -/
def Draft.node (w : Surroundings) (number : Nat → Nat) (id : Nat) (d : Draft) : Node where
  id
  map := d.map.map fun b => ⟨b.source.settle w number, b.ops⟩
  combine := none
  reduce := d.reduce
  output :=
    match d.output with
    | some (.final location format) => .final location format
    | _ => .temporary (w.temporary id)
  parallelism := if d.reduce.isEmpty then none else some w.parallelism
  annotations := .none

def State.nodes (w : Surroundings) (s : State) : List Node :=
  (s.drafts.filterMap id).mapIdx fun number d => d.node w s.numberOf number

def State.graph (w : Surroundings) (s : State) : Graph :=
  ⟨w.scope, s.nodes w, SortedSet.ofList (Graph.readEdges (s.nodes w))⟩

/-- What is left of a list is found by counting what is left before it. -/
theorem getElem?_filterMap_id {α : Type} {xs : List (Option α)} {k : Nat} {x : α} :
    (xs.filterMap id)[k]? = some x ↔
      ∃ slot, xs[slot]? = some (some x) ∧ (xs.take slot).countP Option.isSome = k := by
  induction xs generalizing k with
  | nil => simp
  | cons first rest ih =>
    cases first with
    | none =>
      rw [List.filterMap_cons_none rfl, ih]
      constructor
      · rintro ⟨slot, there, count⟩
        exact ⟨slot + 1, there, by simpa using count⟩
      · rintro ⟨slot, there, count⟩
        cases slot with
        | zero => simp at there
        | succ slot => exact ⟨slot, there, by simpa using count⟩
    | some y =>
      rw [List.filterMap_cons_some (show id (some y) = some y from rfl)]
      cases k with
      | zero =>
        constructor
        · intro there
          exact ⟨0, by simpa using there, rfl⟩
        · rintro ⟨slot, there, count⟩
          cases slot with
          | zero => simpa using there
          | succ slot => simp at count
      | succ k =>
        rw [List.getElem?_cons_succ, ih]
        constructor
        · rintro ⟨slot, there, count⟩
          exact ⟨slot + 1, there, by simpa using count⟩
        · rintro ⟨slot, there, count⟩
          cases slot with
          | zero => simp at count
          | succ slot => exact ⟨slot, there, by simpa using count⟩

/-- The nodes are the drafts that are left, each at its number. -/
theorem State.getElem?_nodes {k : Nat} {n : Node} :
    (s.nodes w)[k]? = some n ↔
      ∃ slot d, s.drafts[slot]? = some (some d) ∧ s.numberOf slot = k ∧
        d.node w s.numberOf k = n := by
  simp only [State.nodes, List.getElem?_mapIdx, Option.map_eq_some_iff, getElem?_filterMap_id]
  constructor
  · rintro ⟨d, ⟨slot, there, count⟩, becomes⟩
    exact ⟨slot, d, there, count, becomes⟩
  · rintro ⟨slot, d, there, count, becomes⟩
    exact ⟨d, ⟨slot, there, count⟩, becomes⟩

theorem State.numberOf_lt {slot other : Nat} {d : Draft} (there : s.drafts[slot]? = some (some d))
    (before : slot < other) : s.numberOf slot < s.numberOf other := by
  have next : s.numberOf (slot + 1) = s.numberOf slot + 1 := by
    rw [numberOf, numberOf, List.take_add_one, there, List.countP_append]
    rfl
  have prefixes : (s.drafts.take (slot + 1)).Sublist (s.drafts.take other) :=
    List.take_sublist_take_left (by omega)
  have more : s.numberOf (slot + 1) ≤ s.numberOf other := prefixes.countP_le
  omega

theorem State.numberOf_inj {slot other : Nat} {d d' : Draft}
    (there : s.drafts[slot]? = some (some d)) (there' : s.drafts[other]? = some (some d'))
    (same : s.numberOf slot = s.numberOf other) : slot = other := by
  rcases Nat.lt_trichotomy slot other with before | equal | after
  · exact absurd same (Nat.ne_of_lt (numberOf_lt there before))
  · exact equal
  · exact absurd same (Nat.ne_of_gt (numberOf_lt there' after))

/-- Every draft that is left holds the records of an operator that is written out. -/
theorem Reached.held (validated : p.Validated order) (reached : Reached p order s) {slot : Nat}
    {d : Draft} (there : s.drafts[slot]? = some (some d)) :
    ∃ id, Held p (Taken p order) s slot d id ∧ d.output ≠ none := by
  obtain ⟨id, held⟩ := reached.sound.held slot d there (by simp)
  refine ⟨id, held, fun waits => ?_⟩
  have settled := held.settled
  simp only [Settled, waits] at settled
  obtain ⟨phase, placed, stands⟩ := held.placed
  have taken (single : (p.consumers id).length = 1) : Taken p order id := by
    obtain ⟨consumer, only⟩ := List.length_eq_one_iff.mp single
    refine ⟨single, consumer, by simp [only], ?_⟩
    obtain ⟨reader, found, _⟩ := validated.numbered.mem_consumers.mp
      (show consumer ∈ p.consumers id by simp [only])
    exact validated.mem_order found
  cases stands with
  | map single => exact settled.1 (taken single)
  | reduce single => exact settled.1 (taken single)
  | closed written output => exact output waits

theorem Reached.kept (validated : p.Validated order) (reached : Reached p order s) {id : Nat}
    (written : p.IsWritten id) :
    ∃ slot d, s.drafts[slot]? = some (some d) ∧ Held p (Taken p order) s slot d id := by
  have member : id ∈ order := by
    rcases written with ⟨op, found, _⟩ | ⟨op, found, _⟩ <;> exact validated.mem_order found
  obtain ⟨⟨slot, phase⟩, placed⟩ := (reached.placed id).mp member
  obtain ⟨d, there, held, _⟩ := reached.sound.held_of_place placed (.inr written)
  exact ⟨slot, d, there, held⟩

theorem nodeOf_eq_ok {number : Nat} {d : Draft} (output : d.output ≠ none)
    (left : ∀ b ∈ d.map, ∀ slot, b.source = .draft slot →
      ∃ content, s.drafts[slot]? = some (some content)) :
    nodeOf w s.drafts number d = .ok (d.node w s.numberOf number) := by
  have branches : d.map.mapM (branchOf w s.drafts number) =
      .ok (d.map.map fun b => ⟨b.source.settle w s.numberOf, b.ops⟩) := by
    refine Traversal.mapM_eq_ok.mpr (List.forall₂_map_right_iff.mpr (List.forall₂_same.mpr ?_))
    intro b member
    cases source : b.source with
    | file location schema => simp only [branchOf, source, DraftSource.settle]
    | draft slot =>
      obtain ⟨content, there⟩ := left b member slot source
      simp only [branchOf, source, nodeNumber?, there, DraftSource.settle]
      rfl
  cases is : d.output with
  | none => exact absurd is output
  | some o =>
    cases o <;> simp only [nodeOf, is, branches, bind, Except.bind] <;>
      simp only [Draft.node, is] <;> rfl

theorem State.IsClosed.left {slot : Nat} (closed : s.IsClosed slot) :
    ∃ content, s.drafts[slot]? = some (some content) := by
  obtain ⟨d, there, _⟩ := closed
  exact ⟨d, there⟩

theorem State.IsClosed.node {slot : Nat} (closed : s.IsClosed slot) :
    ∃ n, (s.nodes w)[s.numberOf slot]? = some n ∧
      n.output = .temporary (w.temporary (s.numberOf slot)) := by
  obtain ⟨d, there, output⟩ := closed
  refine ⟨_, State.getElem?_nodes.mpr ⟨slot, d, there, rfl, rfl⟩, ?_⟩
  simp only [Draft.node, output]

/-- What a branch reads back is the output of a closed draft, under its number. -/
theorem Held.source_eq {used : Nat → Prop} {slot id number : Nat} {d : Draft}
    (held : Held p used s slot d id) {b : DraftBranch} (member : b ∈ d.map) {location : String}
    (source : b.source.settle w s.numberOf = .temp number location) :
    ∃ slot, s.IsClosed slot ∧ s.numberOf slot = number ∧ location = w.temporary number := by
  cases is : b.source with
  | file path schema => simp [is, DraftSource.settle] at source
  | draft other =>
    simp only [is, DraftSource.settle, Source.temp.injEq] at source
    obtain ⟨rfl, rfl⟩ := source
    exact ⟨other, (held.computes.reads b member other is).2, rfl, rfl⟩

theorem Reached.nodesOf_eq_ok (validated : p.Validated order) (reached : Reached p order s) :
    nodesOf w s.drafts = .ok (s.nodes w) := by
  apply Traversal.mapM_eq_ok.mpr
  rw [State.nodes, List.mapIdx_eq_zipIdx_map]
  refine List.forall₂_map_right_iff.mpr (List.forall₂_same.mpr ?_)
  rintro ⟨d, number⟩ member
  obtain ⟨slot, there, _⟩ := getElem?_filterMap_id.mp (List.mk_mem_zipIdx_iff_getElem?.mp member)
  obtain ⟨id, held, output⟩ := reached.held validated there
  exact nodeOf_eq_ok output fun b reads slot is => (held.computes.reads b reads slot is).2.left

/-- Nodes read only nodes before them. -/
theorem Reached.backward (validated : p.Validated order) (reached : Reached p order s) {k : Nat}
    {n : Node} (there : (s.nodes w)[k]? = some n) {producer : Nat}
    (reads : producer ∈ n.producers) :
    producer < k := by
  obtain ⟨slot, d, left, rfl, rfl⟩ := State.getElem?_nodes.mp there
  obtain ⟨id, held, _⟩ := reached.held validated left
  simp only [Node.producers, Draft.node, List.mem_filterMap, List.mem_map] at reads
  obtain ⟨_, ⟨b, member, rfl⟩, is⟩ := reads
  cases source : b.source with
  | file location schema => simp [source, DraftSource.settle, Source.producer?] at is
  | draft other =>
    simp only [source, DraftSource.settle, Source.producer?, Option.some.injEq] at is
    subst is
    obtain ⟨before, closed⟩ := held.computes.reads b member other source
    obtain ⟨content, here⟩ := closed.left
    exact State.numberOf_lt here before

theorem State.numbered (w : Surroundings) (s : State) : Graph.Numbered (s.nodes w) := by
  intro position n there
  obtain ⟨slot, d, _, _, rfl⟩ := State.getElem?_nodes.mp there
  rfl

theorem Reached.ofNodes_eq_ok (validated : p.Validated order) (reached : Reached p order s) :
    Graph.ofNodes w.scope (s.nodes w) = .ok (s.graph w) := by
  apply Graph.ofNodes_eq_ok w.scope (s.numbered w)
  intro n member producer reads
  obtain ⟨position, there⟩ := List.mem_iff_getElem?.mp member
  rw [s.numbered w position n there]
  exact reached.backward validated there reads

/-- What a node writes is what is read from its draft. -/
theorem Reached.meaning_eq (validated : p.Validated order) (reached : Reached p order s)
    {slot : Nat} {d : Draft} (there : s.drafts[slot]? = some (some d)) :
    (s.graph w).meaning (s.numberOf slot) = s.valueOf p slot := by
  induction slot using Nat.strongRecOn generalizing d with
  | ind slot ih =>
    obtain ⟨id, held, _⟩ := reached.held validated there
    obtain ⟨x, meant, value⟩ := held.computes.value
    have node : (s.graph w).nodes[s.numberOf slot]? =
      some (d.node w s.numberOf (s.numberOf slot)) :=
      State.getElem?_nodes.mpr ⟨slot, d, there, rfl, rfl⟩
    have unfolds :=
      Graph.meaning_eq (fun _ _ at_ _ reads => reached.backward validated at_ reads) node
    have branches : (d.node w s.numberOf (s.numberOf slot)).meaning (s.graph w).meaning =
        d.meaning fun source => (s.graph w).meaning (s.numberOf source) := by
      simp only [Node.meaning, Draft.node, Draft.meaning, List.map_map]
      refine congrArg (fun starts => Dataflow.ofPhases starts d.reduce)
        (List.map_congr_left fun b _ => ?_)
      obtain ⟨source, ops⟩ := b
      cases source <;> rfl
    have reads : (d.meaning fun source => (s.graph w).meaning (s.numberOf source)) =
        d.meaning (s.valueOf p) := by
      apply Draft.meaning_congr
      intro b member source is
      obtain ⟨before, closed⟩ := held.computes.reads b member source is
      obtain ⟨content, here⟩ := closed.left
      exact ih source before here
    rw [unfolds, branches, reads, value, State.valueOf, held.holder, Option.bind_some, meant]

/-- Either every aggregate has a group of its own and the drafts become a graph, or the plan is
refused. -/
theorem run_spec (w : Surroundings) (validated : p.Validated order) :
    (p.AggregatesOwnGroups ∧ ∃ s, Reached p order s ∧ run w p = .ok (s.graph w)) ∨
      (¬ p.AggregatesOwnGroups ∧ ∃ fault, run w p = .error (.plan fault)) := by
  simp only [run, validated.sorted, bind, Except.bind]
  rcases foldlM_spec validated (List.nil_append order).symm (start_reached p) with
    ⟨s, ran, reached, owned⟩ | ⟨fault, ran, id, member, op, found, foreign⟩
  · refine .inl ⟨fun op member => ?_, s, reached, ?_⟩
    · have found := validated.numbered.op?_of_mem member
      exact owned op.id (validated.mem_order found) op found
    · simp only [ran, reached.nodesOf_eq_ok validated, reached.ofNodes_eq_ok validated]
  · refine .inr ⟨fun owned => foreign (owned op (Plan.mem_of_op? found)), fault, ?_⟩
    rw [ran]

end Wavefront.Drafting
