import Wavefront.Proofs.Graph.Order
set_option autoImplicit false

/-!
Levels of a job graph. A node that reads no other is at level zero, and any other node is one level
above the highest of the nodes it reads. Main statements: in a graph that was built from its nodes the
levels are what this says, so a node is at most at a level exactly if all it reads are below that level;
and the level of a node is the number of edges of the longest way that leads to it.
-/
namespace Wavefront.Graph

/-- The length of the longest way that leads to a node, of the ways of at most so many edges. -/
def depth (g : Graph) : Nat → Nat → Nat
  | 0, _ => 0
  | edges + 1, id => ((g.predecessors id).map fun producer => g.depth edges producer + 1).foldr max 0

/-- The level of a node: no way is longer than the graph has nodes. -/
def level (g : Graph) (id : Nat) : Nat := g.depth g.nodes.length id

/-- The nodes of a level, in the order of the graph. -/
def stage (g : Graph) (k : Nat) : List Node := g.nodes.filter fun n => g.level n.id == k

def height (g : Graph) : Nat := (g.nodes.map fun n => g.level n.id + 1).foldr max 0

/-- The nodes of the first levels, level by level. -/
def below (g : Graph) (levels : Nat) : List Node := (List.range levels).flatMap g.stage

/-- The lowest level of the nodes that fail, if some do. -/
def lowest? (g : Graph) (fails : Node → Bool) : Option Nat :=
  ((g.nodes.filter fails).map fun n => g.level n.id).min?

/-- How many levels a run gets to: it ends after the lowest level with a node that fails. -/
def reach (g : Graph) (fails : Node → Bool) : Nat :=
  match g.lowest? fails with
  | some k => k + 1
  | none => g.height

/-- A way of so many edges leads to a node, from one that reads no other. -/
inductive Leads (g : Graph) : Nat → Nat → Prop where
  | source (id : Nat) (first : g.predecessors id = []) : Leads g 0 id
  | edge (edges u v : Nat) (way : Leads g edges u) (reads : u ∈ g.predecessors v) :
      Leads g (edges + 1) v

/-- The longest way that leads to a node has so many edges. -/
structure Longest (g : Graph) (edges id : Nat) : Prop where
  leads : g.Leads edges id
  most : ∀ other, g.Leads other id → other ≤ edges

theorem foldr_max_le_iff {xs : List Nat} {k : Nat} : xs.foldr max 0 ≤ k ↔ ∀ x ∈ xs, x ≤ k := by
  induction xs with
  | nil => simp
  | cons x rest ih => rw [List.foldr_cons, Nat.max_le, ih, List.forall_mem_cons]

variable {g : Graph}

@[simp] theorem mem_stage {n : Node} {k : Nat} : n ∈ g.stage k ↔ n ∈ g.nodes ∧ g.level n.id = k := by
  rw [stage, List.mem_filter, beq_iff_eq]

theorem height_le_iff {k : Nat} : g.height ≤ k ↔ ∀ n ∈ g.nodes, g.level n.id < k := by
  rw [height, foldr_max_le_iff]
  simp only [List.forall_mem_map, Nat.succ_le_iff]

theorem level_lt_height {n : Node} (member : n ∈ g.nodes) : g.level n.id < g.height :=
  height_le_iff.mp (Nat.le_refl _) n member

theorem below_succ (levels : Nat) : g.below (levels + 1) = g.below levels ++ g.stage levels := by
  simp [below, List.range_succ]

@[simp] theorem mem_below {n : Node} {levels : Nat} :
    n ∈ g.below levels ↔ n ∈ g.nodes ∧ g.level n.id < levels := by
  simp only [below, List.mem_flatMap, List.mem_range, mem_stage]
  constructor
  · rintro ⟨k, lower, member, rfl⟩
    exact ⟨member, lower⟩
  · rintro ⟨member, lower⟩
    exact ⟨_, lower, member, rfl⟩

theorem lowest?_eq_none {fails : Node → Bool} :
    g.lowest? fails = none ↔ ∀ n ∈ g.nodes, fails n = false := by
  simp [lowest?]

theorem lowest?_eq_some {fails : Node → Bool} {k : Nat} : g.lowest? fails = some k ↔
    (∃ n ∈ g.stage k, fails n = true) ∧ ∀ n ∈ g.nodes, fails n = true → k ≤ g.level n.id := by
  rw [lowest?, List.min?_eq_some_iff]
  refine and_congr ?_ ?_
  · simp only [List.mem_map, List.mem_filter, mem_stage]
    constructor
    · rintro ⟨n, ⟨member, lost⟩, level⟩
      exact ⟨n, ⟨member, level⟩, lost⟩
    · rintro ⟨n, ⟨member, level⟩, lost⟩
      exact ⟨n, ⟨member, lost⟩, level⟩
  · rw [List.forall_mem_map]
    simp only [List.mem_filter, and_imp]

/-- The nodes that fail, of all levels that a run gets to, are those of the last of these. -/
theorem filter_below_reach (g : Graph) (fails : Node → Bool) :
    (g.below (g.reach fails)).filter fails =
      match g.lowest? fails with
      | some k => (g.stage k).filter fails
      | none => [] := by
  cases lowest : g.lowest? fails with
  | none =>
    refine List.filter_eq_nil_iff.mpr fun n member => ?_
    rw [lowest?_eq_none.mp lowest n (mem_below.mp member).1]
    exact Bool.false_ne_true
  | some k =>
    have before : (g.below k).filter fails = [] := by
      refine List.filter_eq_nil_iff.mpr fun n member lost => ?_
      obtain ⟨inside, lower⟩ := mem_below.mp member
      exact Nat.not_le.mpr lower ((lowest?_eq_some.mp lowest).2 n inside lost)
    have last : g.reach fails = k + 1 := by rw [reach, lowest]
    rw [last, below_succ, List.filter_append, before, List.nil_append]

/-- Ways that are long enough for the rank of a node all count the same. -/
theorem depth_eq_depth {rank : Nat → Nat}
    (rises : ∀ v, ∀ u ∈ g.predecessors v, rank u < rank v) {a b v : Nat} (left : rank v < a)
    (right : rank v < b) : g.depth a v = g.depth b v := by
  induction a generalizing b v with
  | zero => exact absurd left (Nat.not_lt_zero _)
  | succ a ih =>
    cases b with
    | zero => exact absurd right (Nat.not_lt_zero _)
    | succ b =>
      rw [depth, depth]
      congr 1
      refine List.map_congr_left fun u reads => ?_
      have lower := rises v u reads
      rw [ih (show rank u < a by omega) (show rank u < b by omega)]

namespace Built

/-- The place of a node in the order of the graph rises along the edges. -/
theorem exists_rank (built : g.Built) : ∃ rank : Nat → Nat,
    (∀ v < g.nodes.length, rank v < g.nodes.length) ∧
      ∀ v, ∀ u ∈ g.predecessors v, rank u < rank v := by
  obtain ⟨order, sorted⟩ := built.sorted
  obtain ⟨greedy, perm⟩ := built.greedy_of_order sorted
  refine ⟨order.idxOf, fun v inside => ?_, fun v u reads => ?_⟩
  · have member : v ∈ order := perm.mem_iff.mpr (List.mem_range.mpr inside)
    simpa [perm.length_eq] using List.idxOf_lt_length_of_mem member
  · have edge := mem_predecessors.mp reads
    exact (greedy.legal built.covered perm).idxOf_lt
      ⟨built.lt_of_mem_predecessors reads, mem_successors.mpr edge⟩ (built.inside _ edge).2

theorem lt_of_reads (built : g.Built) {u v : Nat} (reads : u ∈ g.predecessors v) :
    v < g.nodes.length :=
  (built.inside _ (mem_predecessors.mp reads)).2

/-- A node is one level above the highest of the nodes it reads, and at level zero if it reads none. -/
theorem level_eq (built : g.Built) (v : Nat) :
    g.level v = ((g.predecessors v).map fun u => g.level u + 1).foldr max 0 := by
  -- All that is read has a lower rank, so for it one edge less than there are nodes is enough.
  obtain ⟨rank, within, rises⟩ := built.exists_rank
  cases size : g.nodes.length with
  | zero =>
    have none : g.predecessors v = [] := List.eq_nil_iff_forall_not_mem.mpr fun u reads => by
      have inside := built.lt_of_reads reads
      omega
    rw [none, level, size]
    rfl
  | succ bound =>
    rw [level, size, depth]
    congr 1
    refine List.map_congr_left fun u reads => ?_
    have lower := rises v u reads
    have inside := within v (built.lt_of_reads reads)
    rw [level, depth_eq_depth rises (show rank u < bound by omega) (show rank u < g.nodes.length by omega)]

/-- A node is at most at a level exactly if all it reads are below that level. -/
theorem level_le_iff (built : g.Built) {v k : Nat} :
    g.level v ≤ k ↔ ∀ u ∈ g.predecessors v, g.level u < k := by
  rw [built.level_eq v, foldr_max_le_iff]
  simp only [List.forall_mem_map, Nat.succ_le_iff]

theorem le_level_of_leads (built : g.Built) {edges v : Nat} (way : g.Leads edges v) :
    edges ≤ g.level v := by
  induction way with
  | source id first => exact Nat.zero_le _
  | edge edges u v way reads ih =>
    exact Nat.lt_of_le_of_lt ih (built.level_le_iff.mp (Nat.le_refl (g.level v)) u reads)

/-- A way of as many edges as its level says leads to every node. -/
theorem leads_level (built : g.Built) (v : Nat) : g.Leads (g.level v) v := by
  obtain ⟨k, is⟩ : ∃ k, g.level v = k := ⟨_, rfl⟩
  rw [is]
  induction k generalizing v with
  | zero =>
    have lower := built.level_le_iff.mp (Nat.le_of_eq is)
    exact .source v (List.eq_nil_iff_forall_not_mem.mpr fun u reads => Nat.not_lt_zero _ (lower u reads))
  | succ k ih =>
    have above : ¬ g.level v ≤ k := by omega
    rw [built.level_le_iff] at above
    obtain ⟨u, reads, high⟩ : ∃ u ∈ g.predecessors v, k ≤ g.level u := by simpa using above
    have lower := built.level_le_iff.mp (Nat.le_of_eq is) u reads
    exact .edge k u v (ih u (by omega)) reads

/-- The level of a node is how many edges the longest way to it has. -/
theorem longest_iff (built : g.Built) {k v : Nat} : g.Longest k v ↔ g.level v = k := by
  constructor
  · intro longest
    exact Nat.le_antisymm (longest.most _ (built.leads_level v)) (built.le_level_of_leads longest.leads)
  · rintro rfl
    exact ⟨built.leads_level v, fun _ => built.le_level_of_leads⟩

/-- A way passes nodes to which ways of all lesser lengths lead. -/
theorem exists_leads (built : g.Built) {edges v k : Nat} (way : g.Leads edges v)
    (inside : v < g.nodes.length) (less : k ≤ edges) : ∃ n ∈ g.nodes, g.Leads k n.id := by
  have itself {k v : Nat} (inside : v < g.nodes.length) (way : g.Leads k v) :
      ∃ n ∈ g.nodes, g.Leads k n.id := by
    have there := List.getElem?_eq_getElem inside
    exact ⟨_, List.mem_of_getElem? there, by rwa [built.numbered v _ there]⟩
  induction way with
  | source id first =>
    obtain rfl := Nat.le_zero.mp less
    exact itself inside (.source id first)
  | edge edges u v way reads ih =>
    rcases Nat.le_succ_iff.mp less with lower | rfl
    · exact ih (built.lt_of_mem_predecessors reads) lower
    · exact itself inside (.edge edges u v way reads)

theorem lt_height_iff (built : g.Built) {k : Nat} : k < g.height ↔ ∃ n ∈ g.nodes, g.Leads k n.id := by
  constructor
  · intro low
    obtain ⟨n, member, high⟩ : ∃ n ∈ g.nodes, k ≤ g.level n.id := by
      simpa [height_le_iff] using Nat.not_le.mpr low
    exact built.exists_leads (built.leads_level n.id) (built.id_lt member) high
  · rintro ⟨n, member, way⟩
    exact Nat.lt_of_le_of_lt (built.le_level_of_leads way) (level_lt_height member)

/-- There are no more levels than nodes. -/
theorem height_le (built : g.Built) : g.height ≤ g.nodes.length := by
  obtain ⟨rank, within, rises⟩ := built.exists_rank
  have bounded : ∀ bound v, rank v < bound → g.level v ≤ rank v := by
    intro bound
    induction bound with
    | zero => exact fun v low => absurd low (Nat.not_lt_zero _)
    | succ bound ih =>
      intro v low
      refine built.level_le_iff.mpr fun u reads => ?_
      have lower := rises v u reads
      exact Nat.lt_of_le_of_lt (ih u (by omega)) lower
  refine height_le_iff.mpr fun n member => ?_
  exact Nat.lt_of_le_of_lt (bounded _ n.id (Nat.lt_succ_self _)) (within n.id (built.id_lt member))

theorem mem_map_id_stage (built : g.Built) {id k : Nat} :
    id ∈ (g.stage k).map Node.id ↔ id < g.nodes.length ∧ g.level id = k := by
  constructor
  · intro member
    obtain ⟨n, there, rfl⟩ := List.mem_map.mp member
    obtain ⟨among, level⟩ := mem_stage.mp there
    exact ⟨built.id_lt among, level⟩
  · rintro ⟨inside, level⟩
    have there := List.getElem?_eq_getElem inside
    have number := built.numbered id _ there
    refine List.mem_map.mpr ⟨_, mem_stage.mpr ⟨List.mem_of_getElem? there, ?_⟩, number⟩
    rw [number, level]

theorem stage_ascending (built : g.Built) (k : Nat) :
    ((g.stage k).map Node.id).Pairwise (· < ·) := by
  have whole : (g.nodes.map Node.id).Pairwise (· < ·) := by
    rw [built.numbered.map_id]
    exact List.pairwise_lt_range
  exact whole.sublist (List.filter_sublist.map Node.id)

end Built

end Wavefront.Graph
