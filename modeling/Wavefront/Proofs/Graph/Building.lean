import Wavefront.Proofs.Graph.Order
set_option autoImplicit false

/-!
Which nodes make a graph. Main statement: some nodes are accepted exactly if each stands at its number,
reads nodes of the list only, and does not, over whatever many others, read its own output; whatever is
refused breaks one of these rules. The edges of the graph then say who reads whom, and its order is the
least of those in which every node comes after the nodes it reads.
-/
namespace Wavefront.Graph

/-- The node `v` of some nodes reads the temporary output of `u`. -/
def Reads (nodes : List Node) (u v : Nat) : Prop :=
  ∃ n ∈ nodes, n.id = v ∧ ∃ b ∈ n.map, ∃ location, b.source = .temp u location

/-- Every temporary output that is read is that of one of the nodes. -/
def Closed (nodes : List Node) : Prop := ∀ u v, Reads nodes u v → ∃ n ∈ nodes, n.id = u

/-- No node reads, over whatever many others, its own output. -/
def IsAcyclic (nodes : List Node) : Prop := Precedence.Acyclic (Reads nodes)

/-- What is wrong with nodes that make no graph. -/
inductive Flaw (nodes : List Node) : InvariantFault → Prop where
  /-- The first node that does not stand at its number. -/
  | misplaced {before rest : List Node} {n : Node} (split : nodes = before ++ n :: rest)
      (numbered : Numbered before) (elsewhere : n.id ≠ before.length) :
      Flaw nodes (.misplacedNode before.length n.id)
  /-- The first edge from where no node is. -/
  | dangling {u v : Nat} (numbered : Numbered nodes) (reads : Reads nodes u v)
      (missing : ∀ n ∈ nodes, n.id ≠ u)
      (first : ∀ u' v', Reads nodes u' v' → (∀ n ∈ nodes, n.id ≠ u') → u < u' ∨ u = u' ∧ v ≤ v') :
      Flaw nodes (.danglingEdge u v)
  | circle (numbered : Numbered nodes) (closed : Closed nodes) (circle : ¬ IsAcyclic nodes) :
      Flaw nodes .graphCycle

/-- Every node has its turn once, after the nodes from which an edge leads to it. -/
structure Legal (g : Graph) (order : List Nat) : Prop where
  perm : order.Perm (g.nodes.map Node.id)
  after : ∀ before id rest, order = before ++ id :: rest → ∀ u ∈ g.predecessors id, u ∈ before

/-- The graph of some nodes. -/
structure Represents (g : Graph) (scope : String) (nodes : List Node) : Prop where
  parts : g.scope = scope ∧ g.nodes = nodes
  edges : ∀ u v, (⟨u, v⟩ : Edge) ∈ g.edges.toList ↔ Reads nodes u v
  ascending : g.edges.toList.Pairwise fun a b =>
    a.source < b.source ∨ a.source = b.source ∧ a.target < b.target
  predecessors : ∀ u v, u ∈ g.predecessors v ↔ Reads nodes u v
  converse : ∀ u v, u ∈ g.predecessors v ↔ v ∈ g.successors u
  sorted : ∃ order, g.topologicalOrder = .ok order ∧ g.Legal order ∧
    ∀ other, g.Legal other → order = other ∨ List.Lex (· < ·) order other

/-- What building a graph from some nodes comes to. -/
structure Builds (scope : String) (nodes : List Node) : Prop where
  accepts : (∃ g, ofNodes scope nodes = .ok g) ↔
    Numbered nodes ∧ Closed nodes ∧ IsAcyclic nodes
  refuses : ∀ e, ofNodes scope nodes = .error e → ∃ fault, e = .invariant fault ∧ Flaw nodes fault
  represents : ∀ g, ofNodes scope nodes = .ok g → g.Represents scope nodes

variable {scope : String} {nodes : List Node} {g : Graph}

theorem Numbered.exists_id_iff (numbered : Numbered nodes) {id : Nat} :
    (∃ n ∈ nodes, n.id = id) ↔ id < nodes.length := by
  rw [← List.mem_map, numbered.map_id, List.mem_range]

theorem mem_edges_iff {u v : Nat} :
    (⟨u, v⟩ : Edge) ∈ (SortedSet.ofList (readEdges nodes)).toList ↔ Reads nodes u v := by
  rw [mem_edges_of_nodes, Reads]
  simp only [Node.mem_producers]
  refine exists_congr fun n => and_congr_right fun _ => ?_
  rw [and_comm, eq_comm]

section Order

theorem topologicalOrder_eq (numbered : Numbered g.nodes) : g.topologicalOrder =
    match Precedence.order (List.range g.nodes.length) (fun id => (g.predecessors id).length)
      g.successors with
    | .ok order => .ok order
    | .error .cycle => .error (.invariant .graphCycle)
    | .error .counter => .error (.invariant .counter) := by
  rw [← numbered.map_id]
  rfl

theorem topologicalOrder_eq_ok (numbered : Numbered g.nodes) {order : List Nat} :
    g.topologicalOrder = .ok order ↔
      Precedence.order (List.range g.nodes.length) (fun id => (g.predecessors id).length)
        g.successors = .ok order := by
  rw [topologicalOrder_eq numbered]
  split <;> simp [*]

/-- Counters that agree with the edges never run out, so all that can stop an order is a circle. -/
theorem topologicalOrder_error (numbered : Numbered g.nodes) (inside : g.Inside) {e : Error}
    (failed : g.topologicalOrder = .error e) : e = .invariant .graphCycle := by
  have fits := Precedence.order_ne_counter inside.covered
  rw [topologicalOrder_eq numbered] at failed
  split at failed
  · cases failed
  · exact (Except.error.inj failed).symm
  · rename_i unfit
    exact absurd unfit fits

theorem joins_eq (inside : g.Inside) :
    Precedence.Joins g.nodes.length g.successors = fun u v => (⟨u, v⟩ : Edge) ∈ g.edges.toList := by
  funext u v
  rw [Precedence.Joins, mem_successors, eq_iff_iff, and_iff_right_iff_imp]
  intro edge
  exact (inside _ edge).1

/-- Where all edges are inside of a graph, it has an order exactly if no edges make a circle. -/
theorem exists_order_iff (numbered : Numbered g.nodes) (inside : g.Inside) :
    (∃ order, g.topologicalOrder = .ok order) ↔
      Precedence.Acyclic fun u v => (⟨u, v⟩ : Edge) ∈ g.edges.toList := by
  simp only [topologicalOrder_eq_ok numbered]
  rw [Precedence.order_eq_ok_iff inside.covered, joins_eq inside, and_iff_right inside.exact]

theorem legal_iff (numbered : Numbered g.nodes) (inside : g.Inside) {order : List Nat} :
    Precedence.Legal g.nodes.length g.successors order ↔ g.Legal order := by
  have same (u v : Nat) : Precedence.Joins g.nodes.length g.successors u v ↔ u ∈ g.predecessors v := by
    rw [joins_eq inside, mem_predecessors]
  constructor
  · intro legal
    exact ⟨numbered.map_id ▸ legal.perm, fun before id rest split u edge =>
      legal.after before id rest split u ((same u id).mpr edge)⟩
  · intro legal
    exact ⟨numbered.map_id ▸ legal.perm, fun before id rest split u edge =>
      legal.after before id rest split u ((same u id).mp edge)⟩

end Order

/-- The graph of some nodes before it is checked. -/
def joined (scope : String) (nodes : List Node) : Graph :=
  ⟨scope, nodes, SortedSet.ofList (readEdges nodes)⟩

theorem ofNodes_eq (numbered : Numbered nodes) :
    ofNodes scope nodes = (joined scope nodes).validate.map fun _ => joined scope nodes := by
  rw [ofNodes, misplaced?_eq_none.mpr numbered]
  rfl

theorem lt_of_reads (numbered : Numbered nodes) {u v : Nat} (reads : Reads nodes u v) :
    v < nodes.length := by
  obtain ⟨n, member, target, _⟩ := reads
  exact numbered.exists_id_iff.mp ⟨n, member, target⟩

theorem inside_joined_iff (scope : String) (numbered : Numbered nodes) :
    (joined scope nodes).Inside ↔ Closed nodes := by
  constructor
  · intro inside u v reads
    exact numbered.exists_id_iff.mpr (inside ⟨u, v⟩ (mem_edges_iff.mpr reads)).1
  · rintro closed ⟨u, v⟩ edge
    have reads := mem_edges_iff.mp edge
    exact ⟨numbered.exists_id_iff.mp (closed u v reads), lt_of_reads numbered reads⟩

theorem dangling?_eq_none : g.dangling? = none ↔ g.Inside := by
  rw [dangling?, List.find?_eq_none, Inside]
  refine forall₂_congr fun e _ => ?_
  simp only [node?, Bool.or_eq_true, Option.isNone_iff_eq_none, List.getElem?_eq_none_iff]
  omega

/-- Between the nodes of a list there is an order exactly if none of them reads its own output. -/
theorem exists_order_joined_iff (scope : String) (numbered : Numbered nodes) (closed : Closed nodes) :
    (∃ order, (joined scope nodes).topologicalOrder = .ok order) ↔ IsAcyclic nodes := by
  have same : (fun u v => (⟨u, v⟩ : Edge) ∈ (joined scope nodes).edges.toList) = Reads nodes := by
    funext u v
    exact propext mem_edges_iff
  rw [exists_order_iff numbered ((inside_joined_iff scope numbered).mpr closed), same, IsAcyclic]

/-- Nodes that stand at their numbers and read each other without a circle make a graph. -/
theorem ofNodes_of_acyclic (scope : String) (numbered : Numbered nodes) (closed : Closed nodes)
    (acyclic : IsAcyclic nodes) : ofNodes scope nodes = .ok (joined scope nodes) := by
  obtain ⟨order, sorted⟩ := (exists_order_joined_iff scope numbered closed).mpr acyclic
  have fits := dangling?_eq_none.mpr ((inside_joined_iff scope numbered).mpr closed)
  rw [ofNodes_eq numbered, validate, fits, sorted]
  rfl

theorem ofNodes_eq_ok (scope : String) (numbered : Numbered nodes)
    (backward : ∀ n ∈ nodes, ∀ producer ∈ n.producers, producer < n.id) :
    ofNodes scope nodes = .ok ⟨scope, nodes, SortedSet.ofList (readEdges nodes)⟩ := by
  have rises (u v : Nat) (reads : Reads nodes u v) : u < v := by
    obtain ⟨n, member, rfl, among⟩ := reads
    exact backward n member u (Node.mem_producers.mpr among)
  refine ofNodes_of_acyclic scope numbered ?_ (Precedence.acyclic_of_rank id rises)
  intro u v reads
  exact numbered.exists_id_iff.mpr (Nat.lt_trans (rises u v reads) (lt_of_reads numbered reads))

section Flaws

/-- What stands before the first misplaced node stands at its number. -/
theorem flaw_of_misplaced {n : Node} {position : Nat} (found : misplaced? nodes = some (n, position)) :
    Flaw nodes (.misplacedNode position n.id) := by
  obtain ⟨elsewhere, i, below, there, before⟩ := List.find?_eq_some_iff_getElem.mp found
  rw [List.getElem_zipIdx, Prod.mk.injEq, Nat.zero_add] at there
  obtain ⟨rfl, rfl⟩ := there
  rw [List.length_zipIdx] at below
  have length : (nodes.take i).length = i := by
    rw [List.length_take, Nat.min_eq_left (Nat.le_of_lt below)]
  have numbered : Numbered (nodes.take i) := by
    intro j m at_
    rw [List.getElem?_take] at at_
    split at at_
    · rename_i earlier
      have fits := before j earlier
      rw [List.getElem?_eq_getElem (Nat.lt_trans earlier below), Option.some.injEq] at at_
      subst at_
      simpa using fits
    · cases at_
  have split : nodes = nodes.take i ++ nodes[i] :: nodes.drop (i + 1) := by
    rw [List.getElem_cons_drop, List.take_append_drop]
  have flaw := Flaw.misplaced split numbered (by simpa [length] using elsewhere)
  rwa [length] at flaw

/-- An edge has an end outside of the graph if the node that it comes from is missing. -/
theorem leaves_iff (numbered : Numbered nodes) {u v : Nat} (reads : Reads nodes u v) :
    (((joined scope nodes).node? u).isNone || ((joined scope nodes).node? v).isNone) = true ↔
      ∀ n ∈ nodes, n.id ≠ u := by
  have target := lt_of_reads numbered reads
  have missing : (∀ n ∈ nodes, n.id ≠ u) ↔ ¬ u < nodes.length := by
    rw [← numbered.exists_id_iff]
    simp only [not_exists, not_and, ne_eq]
  rw [missing]
  simp only [node?, joined, Bool.or_eq_true, Option.isNone_iff_eq_none, List.getElem?_eq_none_iff]
  omega

/-- The first edge with an end outside of the graph comes from where no node is. -/
theorem flaw_of_dangling (numbered : Numbered nodes) {e : Edge}
    (found : (joined scope nodes).dangling? = some e) :
    Flaw nodes (.danglingEdge e.source e.target) := by
  obtain ⟨leaves, before, after, split, others⟩ := List.find?_eq_some_iff_append.mp found
  have member : e ∈ (joined scope nodes).edges.toList := by
    rw [split]
    exact List.mem_append_right _ List.mem_cons_self
  have reads : Reads nodes e.source e.target := mem_edges_iff.mp member
  refine .dangling numbered reads ((leaves_iff numbered reads).mp leaves) ?_
  intro u v reads' missing
  have member' : (⟨u, v⟩ : Edge) ∈ (joined scope nodes).edges.toList := mem_edges_iff.mpr reads'
  have ascending : Ascending id (before ++ e :: after) := split ▸ (joined scope nodes).edges.ascending
  rw [split, List.mem_append, List.mem_cons] at member'
  rcases member' with earlier | rfl | later
  · have fits := others _ earlier
    rw [(leaves_iff numbered reads').mpr missing] at fits
    cases fits
  · exact .inr ⟨rfl, Nat.le_refl v⟩
  · have above := (List.pairwise_cons.mp (List.pairwise_append.mp ascending).2.1).1 _ later
    exact above.imp id fun same => ⟨same.1, Nat.le_of_lt same.2⟩

/-- Whatever is refused has a flaw. -/
theorem flaw_of_refused {e : Error} (refused : ofNodes scope nodes = .error e) :
    ∃ fault, e = .invariant fault ∧ Flaw nodes fault := by
  cases misplaced : misplaced? nodes with
  | some found =>
    rw [ofNodes, misplaced] at refused
    exact ⟨_, (Except.error.inj refused).symm, flaw_of_misplaced misplaced⟩
  | none =>
    have numbered := misplaced?_eq_none.mp misplaced
    rw [ofNodes_eq numbered, validate] at refused
    cases dangling : (joined scope nodes).dangling? with
    | some edge =>
      rw [dangling] at refused
      exact ⟨_, (Except.error.inj refused).symm, flaw_of_dangling numbered dangling⟩
    | none =>
      have inside := dangling?_eq_none.mp dangling
      have closed := (inside_joined_iff scope numbered).mp inside
      rw [dangling] at refused
      cases sorted : (joined scope nodes).topologicalOrder with
      | ok order =>
        rw [sorted] at refused
        cases refused
      | error fault =>
        rw [sorted] at refused
        have cause := topologicalOrder_error numbered inside sorted
        refine ⟨.graphCycle, (Except.error.inj refused).symm.trans cause, .circle numbered closed ?_⟩
        intro acyclic
        obtain ⟨order, success⟩ := (exists_order_joined_iff scope numbered closed).mpr acyclic
        rw [sorted] at success
        cases success

end Flaws

theorem Built.rules (built : g.Built) : Closed g.nodes ∧ IsAcyclic g.nodes := by
  have same : joined g.scope g.nodes = g := by
    rw [joined, ← built.edges]
  have closed : Closed g.nodes := (inside_joined_iff g.scope built.numbered).mp (by
    rw [same]
    exact built.inside)
  refine ⟨closed, (exists_order_joined_iff g.scope built.numbered closed).mp ?_⟩
  rw [same]
  exact built.sorted

theorem Built.reads_iff (built : g.Built) {u v : Nat} :
    (⟨u, v⟩ : Edge) ∈ g.edges.toList ↔ Reads g.nodes u v := by
  rw [built.edges]
  exact mem_edges_iff

/-- The order of a graph is the least of the legal ones. -/
theorem Built.exists_least (built : g.Built) : ∃ order, g.topologicalOrder = .ok order ∧
    g.Legal order ∧ ∀ other, g.Legal other → order = other ∨ List.Lex (· < ·) order other := by
  obtain ⟨order, sorted⟩ := built.sorted
  obtain ⟨greedy, perm⟩ := built.greedy_of_order sorted
  have legal (order : List Nat) :
      Precedence.Legal g.nodes.length g.successors order ↔ g.Legal order :=
    legal_iff built.numbered built.inside
  refine ⟨order, sorted, (legal order).mp (greedy.legal built.covered perm), ?_⟩
  intro other lawful
  exact greedy.eq_or_lex_of_legal (Inside.exact built.inside) ((legal other).mpr lawful)

theorem Built.represents (built : g.Built) : g.Represents g.scope g.nodes where
  parts := ⟨rfl, rfl⟩
  edges _ _ := built.reads_iff
  ascending := g.edges.ascending
  predecessors _ _ := mem_predecessors.trans built.reads_iff
  converse _ _ := mem_predecessors.trans mem_successors.symm
  sorted := built.exists_least

/-- Exactly the nodes that stand at their numbers and read each other without a circle make a graph. -/
theorem ofNodes_builds (scope : String) (nodes : List Node) : Builds scope nodes where
  accepts := by
    constructor
    · rintro ⟨g, made⟩
      obtain ⟨built, _, rfl⟩ := built_of_ofNodes made
      exact ⟨built.numbered, built.rules⟩
    · rintro ⟨numbered, closed, acyclic⟩
      exact ⟨_, ofNodes_of_acyclic scope numbered closed acyclic⟩
  refuses _ refused := flaw_of_refused refused
  represents g made := by
    obtain ⟨built, rfl, rfl⟩ := built_of_ofNodes made
    exact built.represents

/-- A node that reads later nodes, one of them twice. -/
example : (ofNodes "scope" [
    ⟨0, [⟨.temp 2 "b", []⟩, ⟨.temp 1 "a", []⟩, ⟨.temp 2 "b", []⟩], none, [], .final "out" "csv", none,
      NodeAnnotations.none⟩,
    ⟨1, [⟨.file "in" none, []⟩], none, [], .temporary "a", none, NodeAnnotations.none⟩,
    ⟨2, [⟨.temp 1 "a", []⟩], none, [], .temporary "b", none, NodeAnnotations.none⟩]).bind
      topologicalOrder = .ok [1, 2, 0] := rfl

/-- A node that reads its own output waits for itself. -/
example : ofNodes "scope" [⟨0, [⟨.temp 0 "a", []⟩], none, [], .temporary "a", none,
    NodeAnnotations.none⟩] = .error (.invariant .graphCycle) := rfl

end Wavefront.Graph
