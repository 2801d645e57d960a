import Wavefront.Graph.Basic
import Wavefront.Proofs.Precedence.Legal
import Wavefront.Proofs.Traversal
set_option autoImplicit false

/-!
The edges of a job graph and its order. A node is counted once among the readers of each node it
reads, so the counters of the order agree with the edges; where nodes read only nodes before them,
the order exists and the graph is accepted.
-/
namespace Wavefront

theorem Node.mem_producers {n : Node} {u : Nat} :
    u ∈ n.producers ↔ ∃ b ∈ n.map, ∃ location, b.source = .temp u location := by
  simp only [producers, List.mem_filterMap]
  refine exists_congr fun b => and_congr_right fun _ => ?_
  cases b.source <;> simp [Source.producer?, eq_comm]

namespace Graph

variable {g : Graph}

theorem mem_successors {u v : Nat} : v ∈ g.successors u ↔ (⟨u, v⟩ : Edge) ∈ g.edges.toList := by
  simp only [successors, EdgeSet.targetsOf, List.mem_map, List.mem_filter, beq_iff_eq]
  constructor
  · rintro ⟨⟨source, target⟩, ⟨member, rfl⟩, rfl⟩
    exact member
  · intro member
    exact ⟨⟨u, v⟩, ⟨member, rfl⟩, rfl⟩

theorem mem_predecessors {u v : Nat} : u ∈ g.predecessors v ↔ (⟨u, v⟩ : Edge) ∈ g.edges.toList := by
  simp only [predecessors, EdgeSet.sourcesOf, List.mem_map, List.mem_filter, beq_iff_eq]
  constructor
  · rintro ⟨⟨source, target⟩, ⟨member, rfl⟩, rfl⟩
    exact member
  · intro member
    exact ⟨⟨u, v⟩, ⟨member, rfl⟩, rfl⟩

/-- The nodes that a node reads come in ascending order. -/
theorem predecessors_ascending (g : Graph) (v : Nat) : (g.predecessors v).Pairwise (· < ·) := by
  apply List.pairwise_map.mpr
  apply (g.edges.ascending.filter _).imp_of_mem
  intro first second left right earlier
  have leftTarget := beq_iff_eq.mp (List.mem_filter.mp left).2
  have rightTarget := beq_iff_eq.mp (List.mem_filter.mp right).2
  rcases earlier with lower | ⟨_, lower⟩
  · exact lower
  · simp only [id_eq] at lower
    omega

theorem successors_ascending (g : Graph) (u : Nat) : (g.successors u).Pairwise (· < ·) := by
  apply List.pairwise_map.mpr
  apply (g.edges.ascending.filter _).imp_of_mem
  intro first second left right earlier
  have leftSource := beq_iff_eq.mp (List.mem_filter.mp left).2
  have rightSource := beq_iff_eq.mp (List.mem_filter.mp right).2
  rcases earlier with lower | ⟨_, lower⟩
  · simp only [id_eq] at lower
    omega
  · exact lower

theorem count_successors_eq (g : Graph) (u v : Nat) :
    (g.successors u).count v = (g.predecessors v).count u := by
  have targets : (g.successors u).Nodup := (g.successors_ascending u).imp Nat.ne_of_lt
  have sources : (g.predecessors v).Nodup := (g.predecessors_ascending v).imp Nat.ne_of_lt
  rw [targets.count, sources.count]
  simp only [mem_successors, mem_predecessors]

theorem count_flatMap_successors {n : Nat} {v : Nat} (inside : ∀ u ∈ g.predecessors v, u < n) :
    ((List.range n).flatMap g.successors).count v = (g.predecessors v).length := by
  have each : (List.count v ∘ g.successors) = fun u => (g.predecessors v).count u := by
    funext u
    exact g.count_successors_eq u v
  rw [List.count_flatMap, each, Precedence.sum_count_range]
  exact List.countP_eq_length.mpr fun u member => by simpa using inside u member

/-- Both ends of every edge are positions of nodes. -/
def Inside (g : Graph) : Prop :=
  ∀ e ∈ g.edges.toList, e.source < g.nodes.length ∧ e.target < g.nodes.length

namespace Inside

theorem exact (inside : g.Inside) :
    Precedence.Exact g.nodes.length (fun id => (g.predecessors id).length) g.successors :=
  fun _ _ => (count_flatMap_successors fun _ edge => (inside _ (mem_predecessors.mp edge)).1).symm

theorem covered (inside : g.Inside) :
    Precedence.Covered g.nodes.length (fun id => (g.predecessors id).length) g.successors where
  within _ _ _ edge := (inside _ (mem_successors.mp edge)).2
  counted v vertex := Nat.le_of_eq (inside.exact v vertex).symm

end Inside

/-- Every node stands at its number. -/
def Numbered (nodes : List Node) : Prop :=
  ∀ (position : Nat) (n : Node), nodes[position]? = some n → n.id = position

theorem Numbered.map_id {nodes : List Node} (numbered : Numbered nodes) :
    nodes.map Node.id = List.range nodes.length :=
  Traversal.map_eq_range_of_placed numbered

theorem misplaced?_eq_none {nodes : List Node} : misplaced? nodes = none ↔ Numbered nodes := by
  simp only [misplaced?, List.find?_eq_none, bne_iff_ne, ne_eq, Decidable.not_not]
  constructor
  · intro fits position n there
    exact fits (n, position) (List.mk_mem_zipIdx_iff_getElem?.mpr there)
  · rintro numbered ⟨n, position⟩ member
    exact numbered position n (List.mk_mem_zipIdx_iff_getElem?.mp member)

theorem mem_edges_of_nodes {nodes : List Node} {e : Edge} :
    e ∈ (SortedSet.ofList (readEdges nodes)).toList ↔
      ∃ n ∈ nodes, e.source ∈ n.producers ∧ e.target = n.id := by
  obtain ⟨source, target⟩ := e
  rw [SortedSet.ofList, SortedSet.mem_insertAll]
  simp only [SortedSet.empty, List.not_mem_nil, or_false, readEdges, List.mem_flatMap, List.mem_map,
    Edge.mk.injEq]
  constructor
  · rintro ⟨n, member, producer, reads, rfl, rfl⟩
    exact ⟨n, member, reads, rfl⟩
  · rintro ⟨n, member, reads, rfl⟩
    exact ⟨n, member, source, reads, rfl, rfl⟩

/-- What building a graph from nodes promises. -/
structure Built (g : Graph) : Prop where
  numbered : Numbered g.nodes
  edges : g.edges = SortedSet.ofList (readEdges g.nodes)
  inside : ∀ e ∈ g.edges.toList, e.source < g.nodes.length ∧ e.target < g.nodes.length
  sorted : ∃ order, g.topologicalOrder = .ok order

theorem built_of_ofNodes {scope : String} {nodes : List Node} (made : ofNodes scope nodes = .ok g) :
    g.Built ∧ g.scope = scope ∧ g.nodes = nodes := by
  unfold ofNodes at made
  split at made
  · cases made
  · rename_i fits
    dsimp only at made
    cases checked : validate ⟨scope, nodes, SortedSet.ofList (readEdges nodes)⟩ with
    | error e =>
      rw [checked] at made
      cases made
    | ok _ =>
      rw [checked] at made
      obtain rfl : _ = g := Except.ok.inj made
      unfold validate at checked
      split at checked
      · cases checked
      · rename_i joined
        refine ⟨⟨misplaced?_eq_none.mp fits, rfl, fun e member => ?_, ?_⟩, rfl, rfl⟩
        · have ends := List.find?_eq_none.mp joined e member
          simp only [node?, Bool.or_eq_true, Option.isNone_iff_eq_none,
            List.getElem?_eq_none_iff] at ends
          dsimp only at ends ⊢
          omega
        · cases sorted : topologicalOrder ⟨scope, nodes, SortedSet.ofList (readEdges nodes)⟩ with
          | ok order => exact ⟨order, rfl⟩
          | error e =>
            rw [sorted] at checked
            cases checked

namespace Built

theorem id_lt (built : g.Built) {n : Node} (member : n ∈ g.nodes) : n.id < g.nodes.length := by
  obtain ⟨position, there⟩ := List.mem_iff_getElem?.mp member
  rw [built.numbered position n there]
  exact (List.getElem?_eq_some_iff.mp there).1

theorem getElem?_id (built : g.Built) {n : Node} (member : n ∈ g.nodes) :
    g.nodes[n.id]? = some n := by
  obtain ⟨position, there⟩ := List.mem_iff_getElem?.mp member
  rwa [built.numbered position n there]

theorem eq_of_id (built : g.Built) {n other : Node} (member : n ∈ g.nodes) (among : other ∈ g.nodes)
    (same : n.id = other.id) : n = other := by
  have there := built.getElem?_id member
  rw [same, built.getElem?_id among] at there
  exact (Option.some.inj there).symm

theorem mem_predecessors_of_producers (built : g.Built) {n : Node} (member : n ∈ g.nodes) {producer : Nat}
    (reads : producer ∈ n.producers) : producer ∈ g.predecessors n.id := by
  rw [mem_predecessors, built.edges, mem_edges_of_nodes]
  exact ⟨n, member, reads, rfl⟩

theorem lt_of_mem_predecessors (built : g.Built) {u v : Nat} (reads : u ∈ g.predecessors v) :
    u < g.nodes.length :=
  (built.inside _ (mem_predecessors.mp reads)).1

theorem covered (built : g.Built) :
    Precedence.Covered g.nodes.length (fun id => (g.predecessors id).length) g.successors :=
  Inside.covered built.inside

/-- The order of a graph is greedy and names every node once. -/
theorem greedy_of_order (built : g.Built) {order : List Nat}
    (sorted : g.topologicalOrder = .ok order) :
    Precedence.Greedy g.nodes.length (fun id => (g.predecessors id).length) g.successors order ∧
      order.Perm (List.range g.nodes.length) := by
  unfold topologicalOrder at sorted
  rw [built.numbered.map_id] at sorted
  split at sorted
  · rename_i taken ordered
    obtain rfl := Except.ok.inj sorted
    exact Precedence.greedy_of_order built.covered ordered
  · cases sorted
  · cases sorted

theorem rises (built : g.Built)
    (backward : ∀ (position : Nat) (n : Node), g.nodes[position]? = some n →
      ∀ producer ∈ n.producers, producer < position) :
    ∀ e ∈ g.edges.toList, e.source < e.target := by
  intro e member
  rw [built.edges] at member
  obtain ⟨n, among, reads, target⟩ := mem_edges_of_nodes.mp member
  rw [target]
  exact backward n.id n (built.getElem?_id among) e.source reads

/-- Where all edges rise, the order of a graph is that of the numbers of its nodes. -/
theorem topologicalOrder_eq_range (built : g.Built)
    (rises : ∀ e ∈ g.edges.toList, e.source < e.target) :
    g.topologicalOrder = .ok (List.range g.nodes.length) := by
  obtain ⟨order, sorted⟩ := built.sorted
  obtain ⟨greedy, perm⟩ := built.greedy_of_order sorted
  have counted : ∀ v < g.nodes.length, ((List.range g.nodes.length).flatMap g.successors).count v =
      (g.predecessors v).length :=
    fun v vertex => (Inside.exact built.inside v vertex).symm
  have same := greedy.eq_range (fun u _ v edge => rises _ (mem_successors.mp edge)) counted
  rw [perm.length_eq, List.length_range] at same
  rw [sorted, same]

end Built

end Graph

end Wavefront
