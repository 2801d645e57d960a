import Mathlib.Data.List.FinRange
import Wavefront.Proofs.Drafting.Readers
import Wavefront.Proofs.Optimization.Wiring
set_option autoImplicit false

/-!
The form of a graph that is drafted from a plan. Main statement: its nodes stand at their numbers and
read nodes before them only, what is temporary is what others read, the results are those of the
plan's stores, and a node has a shuffle exactly if its branches end in rearranges that feed the package
its reduce plan starts with.
-/
namespace Wavefront

/-- What a store writes. -/
def Operator.result? : Operator → Option (String × String)
  | .store location format => some (location, format)
  | _ => none

/-- What a node writes for good. -/
def NodeOutput.result? : NodeOutput → Option (String × String)
  | .final location format => some (location, format)
  | .temporary _ => none

def LocalOp.isPackage : LocalOp → Bool
  | .package .. => true
  | _ => false

/-- What every graph that is drafted from a plan looks like. -/
structure Formed (p : Plan) (config : RunConfig) (g : Graph) : Prop where
  scope : g.scope = p.scope
  numbered : ∀ (position : Nat) (n : Node), g.nodes[position]? = some n → n.id = position
  edges : ∀ u v, (⟨u, v⟩ : Edge) ∈ g.edges.toList ↔
    ∃ n b location, g.nodes[v]? = some n ∧ b ∈ n.map ∧ b.source = .temp u location
  rises : ∀ e ∈ g.edges.toList, e.source < e.target
  sorted : g.topologicalOrder = .ok (List.range g.nodes.length)
  /-- What a branch reads back is written there by the node that it names. -/
  reads : ∀ n ∈ g.nodes, ∀ b ∈ n.map, ∀ u location, b.source = .temp u location →
    location = Location.temporary config.tempDir p.scope u ∧
      ∃ m, g.nodes[u]? = some m ∧ m.output = .temporary location
  temporary : ∀ n ∈ g.nodes, n.output.isTemporary = true ↔ g.successors n.id ≠ []
  results : (g.nodes.filterMap (·.output.result?)).Perm (p.ops.filterMap (·.kind.result?))
  plain : ∀ n ∈ g.nodes, n.reduce = [] → n.parallelism = none ∧
    ∃ b, n.map = [b] ∧ ∀ op ∈ n.ops, op.isRearrange = false
  shuffling : ∀ n ∈ g.nodes, n.reduce ≠ [] →
    n.parallelism = some config.cluster.defaultParallelism.toNat ∧
      (∀ (index : Nat) (b : Branch), n.map[index]? = some b →
        ∃ ops keys, b.ops = ops ++ [.rearrange index keys] ∧ ∀ op ∈ ops, op.isRearrange = false) ∧
      ∃ kind tail, n.reduce = .package kind n.map.length none :: tail ∧
        ∀ op ∈ tail, op.isPackage = false

theorem Records.isRearrange_eq_false {ops : List LocalOp} (records : Records ops) :
    ∀ op ∈ ops, op.isRearrange = false := by
  intro op member
  obtain ⟨r, rfl⟩ := records op member
  cases r <;> rfl

theorem Tail.isPackage_eq_false {kind : PackageKind} {keys : List (List String)}
    {tail : List LocalOp} (after : Tail kind keys tail) : ∀ op ∈ tail, op.isPackage = false := by
  intro op member
  cases op with
  | package other inputs known => exact absurd member after.no_package
  | _ => rfl

/-- What a shuffle asks of the branches and of the reduce plan. -/
theorem Shaped.feeds {branches : List (List LocalOp)} {reduce : List LocalOp} {keys : List String}
    (shaped : Shaped branches reduce keys) (shuffles : reduce ≠ []) :
    (∀ (index : Nat) (ops : List LocalOp), branches[index]? = some ops →
        ∃ before own, ops = before ++ [.rearrange index own] ∧
          ∀ op ∈ before, op.isRearrange = false) ∧
      ∃ kind tail, reduce = .package kind branches.length none :: tail ∧
        ∀ op ∈ tail, op.isPackage = false := by
  cases shaped with
  | mapOnly records => exact absurd rfl shuffles
  | @shuffled feeds kind tail records after =>
    refine ⟨fun index ops there => ?_, kind, tail, ?_, after.isPackage_eq_false⟩
    · simp only [rearranged, List.getElem?_mapIdx, Option.map_eq_some_iff] at there
      obtain ⟨feed, among, rfl⟩ := there
      exact ⟨feed.1, feed.2, rfl,
        (records feed (List.mem_of_getElem? among)).isRearrange_eq_false⟩
    · rw [rearranged, List.length_mapIdx]

/-- Lists without repetitions that agree on what is mapped to something are mapped to the same. -/
theorem Traversal.filterMap_perm {α β : Type} {f : α → Option β} {xs ys : List α}
    (left : xs.Nodup) (right : ys.Nodup) (same : ∀ x, (f x).isSome = true → (x ∈ xs ↔ x ∈ ys)) :
    (xs.filterMap f).Perm (ys.filterMap f) := by
  have kept (zs : List α) : (zs.filter fun x => (f x).isSome).filterMap f = zs.filterMap f := by
    rw [List.filterMap_filter]
    refine List.filterMap_congr fun x _ => ?_
    cases f x <;> rfl
  rw [← kept xs, ← kept ys]
  refine List.Perm.filterMap f ((List.perm_ext_iff_of_nodup (left.filter _) (right.filter _)).mpr ?_)
  intro x
  simp only [List.mem_filter]
  exact and_congr_left (same x)

theorem NodeOutput.result?_of_isTemporary {o : NodeOutput} (temporary : o.isTemporary = true) :
    o.result? = none := by
  cases o with
  | final location format => cases temporary
  | temporary location => rfl

theorem Operator.result?_isSome {kind : Operator} :
    kind.result?.isSome = true ↔ kind.isStore = true := by
  cases kind <;> simp [Operator.result?, Operator.isStore]

/-- A node writes for good what its operator stores. -/
theorem Realizes.result?_eq {p : Plan} {g : Graph} {owner : Fin g.nodes.length → Nat}
    (realizes : Realizes p g owner) (position : Fin g.nodes.length) :
    (g.nodes.get position).output.result? = (p.op? (owner position)).bind (·.kind.result?) := by
  show g.nodes[position].output.result? = _
  rcases (realizes.written _).mpr ⟨position, rfl⟩ with ⟨op, found, store⟩ | cut
  · cases kind : op.kind with
    | store location format =>
      rw [realizes.final position op location format found kind, found, Option.bind_some, kind]
      rfl
    | _ => simp [kind, Operator.isStore] at store
  · rw [NodeOutput.result?_of_isTemporary (realizes.temporary position cut)]
    obtain ⟨op, found, notStore, _⟩ := cut
    rw [found, Option.bind_some, eq_comm, ← Option.not_isSome_iff_eq_none,
      Operator.result?_isSome, notStore]
    exact Bool.false_ne_true

/-- The results of a graph are those of the stores of its plan. -/
theorem Realizes.results {p : Plan} {g : Graph} {owner : Fin g.nodes.length → Nat}
    (realizes : Realizes p g owner) (numbered : p.Numbered) :
    (g.nodes.filterMap (·.output.result?)).Perm (p.ops.filterMap (·.kind.result?)) := by
  let result (id : Nat) : Option (String × String) := (p.op? id).bind (·.kind.result?)
  have nodes : g.nodes.filterMap (·.output.result?) =
      ((List.finRange g.nodes.length).map owner).filterMap result := by
    conv_lhs => rw [← List.map_get_finRange g.nodes]
    rw [List.filterMap_map, List.filterMap_map]
    exact List.filterMap_congr fun position _ => realizes.result?_eq position
  have stores : p.ops.filterMap (·.kind.result?) = (p.ops.map PlanOp.id).filterMap result := by
    rw [List.filterMap_map]
    refine List.filterMap_congr fun op member => ?_
    simp only [Function.comp_apply, result, numbered.op?_of_mem member, Option.bind_some]
  rw [nodes, stores]
  refine Traversal.filterMap_perm ((List.nodup_finRange _).map realizes.injective)
    (numbered.map_id ▸ List.nodup_range) fun id is => ?_
  obtain ⟨op, found, written⟩ : ∃ op, p.op? id = some op ∧ op.kind.isStore = true := by
    cases found : p.op? id with
    | none => simp [result, found] at is
    | some op =>
      simp only [result, found, Option.bind_some] at is
      exact ⟨op, rfl, Operator.result?_isSome.mp is⟩
  have among : id ∈ (List.finRange g.nodes.length).map owner := by
    obtain ⟨position, rfl⟩ := (realizes.written id).mp (.inl ⟨op, found, written⟩)
    exact List.mem_map_of_mem (List.mem_finRange position)
  have inside : id ∈ p.ops.map PlanOp.id :=
    (Plan.op?_eq_some found).2 ▸ List.mem_map_of_mem (Plan.mem_of_op? found)
  exact ⟨fun _ => inside, fun _ => among⟩

namespace Drafting

variable {p : Plan} {order : List Nat} {s : State} {w : Surroundings}

theorem Reached.source_eq (validated : p.Validated order) (reached : Reached p order s)
    {position : Nat} {n : Node} (there : (s.nodes w)[position]? = some n) {b : Branch}
    (member : b ∈ n.map) {u : Nat} {location : String} (source : b.source = .temp u location) :
    ∃ slot, s.IsClosed slot ∧ s.numberOf slot = u ∧ location = w.temporary u := by
  obtain ⟨slot, d, left, _, rfl⟩ := State.getElem?_nodes.mp there
  obtain ⟨id, held, _⟩ := reached.held validated left
  simp only [Draft.node, List.mem_map] at member
  obtain ⟨branch, among, rfl⟩ := member
  exact held.source_eq among source

theorem State.IsRead.node {slot : Nat} (read : s.IsRead slot) :
    ∃ n ∈ s.nodes w, ∃ b ∈ n.map, ∃ location, b.source = .temp (s.numberOf slot) location := by
  obtain ⟨k, d, there, member⟩ := read
  obtain ⟨b, among, source⟩ := List.mem_map.mp member
  refine ⟨_, List.mem_of_getElem? (State.getElem?_nodes.mpr ⟨k, d, there, rfl, rfl⟩),
    _, List.mem_map_of_mem among, w.temporary (s.numberOf slot), ?_⟩
  simp only [source, DraftSource.settle]

theorem Reached.closed_of_temporary (validated : p.Validated order) (reached : Reached p order s)
    {position : Nat} {n : Node} (there : (s.nodes w)[position]? = some n)
    (temporary : n.output.isTemporary = true) :
    ∃ slot, s.IsClosed slot ∧ s.numberOf slot = position := by
  obtain ⟨slot, d, left, number, rfl⟩ := State.getElem?_nodes.mp there
  obtain ⟨id, held, output⟩ := reached.held validated left
  rcases held.written output with ⟨_, is⟩ | ⟨_, location, format, _, _, is⟩
  · exact ⟨slot, ⟨d, left, is⟩, number⟩
  · simp [Draft.node, is, NodeOutput.isTemporary] at temporary

/-- A node has reduce tasks exactly if it has a reduce plan. -/
theorem State.parallelism_eq {n : Node} (member : n ∈ s.nodes w) :
    n.parallelism = if n.reduce.isEmpty then none else some w.parallelism := by
  obtain ⟨position, there⟩ := List.mem_iff_getElem?.mp member
  obtain ⟨slot, d, _, _, rfl⟩ := State.getElem?_nodes.mp there
  rfl

end Drafting

namespace Plan

variable {p : Plan} {config : RunConfig} {g : Graph}

/-- A graph comes from drafts on which all operators are placed, one after the other. -/
theorem placed_of_toGraph (made : p.toGraph config = .ok g) :
    ∃ order s, p.Validated order ∧ Drafting.Reached p order s ∧
      order.foldlM (Drafting.State.step p) Drafting.State.start = .ok s ∧
      s.graph (p.surroundings config) = g := by
  obtain ⟨_, _, made⟩ := Traversal.bind_eq_ok.mp made
  obtain ⟨_, accepted, made⟩ := Traversal.bind_eq_ok.mp made
  obtain ⟨order, validated⟩ := validated_of_validate accepted
  obtain ⟨_, sorted, made⟩ := Traversal.bind_eq_ok.mp made
  obtain rfl := Except.ok.inj (validated.sorted.symm.trans sorted)
  obtain ⟨s, placed, made⟩ := Traversal.bind_eq_ok.mp made
  obtain ⟨nodes, numbered, made⟩ := Traversal.bind_eq_ok.mp made
  have reached : Drafting.Reached p order s := by
    rcases Drafting.foldlM_spec validated (List.nil_append order).symm (Drafting.start_reached p) with
      ⟨s', ran, reached, _⟩ | ⟨fault, ran, _⟩
    · rw [placed] at ran
      cases ran
      exact reached
    · rw [placed] at ran
      cases ran
  refine ⟨order, s, validated, reached, placed, ?_⟩
  rw [reached.nodesOf_eq_ok validated] at numbered
  cases numbered
  exact Except.ok.inj ((reached.ofNodes_eq_ok (w := p.surroundings config) validated).symm.trans made)

theorem allRead_of_toGraph (made : p.toGraph config = .ok g) :
    ∃ order s, p.Validated order ∧ Drafting.Reached p order s ∧ Drafting.AllRead p order s ∧
      s.graph (p.surroundings config) = g := by
  obtain ⟨order, s, validated, reached, placed, rfl⟩ := placed_of_toGraph made
  exact ⟨order, s, validated, reached, Drafting.foldlM_allRead validated (List.nil_append order).symm
    (Drafting.start_reached p) (Drafting.start_allRead p) placed, rfl⟩

theorem backward_of_toGraph (made : p.toGraph config = .ok g) :
    ∀ (position : Nat) (n : Node), g.nodes[position]? = some n → ∀ producer ∈ n.producers,
      producer < position := by
  obtain ⟨order, s, validated, reached, rfl⟩ := reached_of_toGraph made
  exact fun position n there producer reads => reached.backward validated there reads

/-- Every graph that is drafted from a plan has the form that the passes and the scheduler rely on. -/
theorem toGraph_formed (made : p.toGraph config = .ok g) : Formed p config g := by
  obtain ⟨built, drafted⟩ := drafted_of_toGraph made
  have rises := built.rises (backward_of_toGraph made)
  obtain ⟨order, s, validated, reached, read, rfl⟩ := allRead_of_toGraph made
  obtain ⟨owner, realizes⟩ := reached.realizes (w := p.surroundings config) validated
  let g := s.graph (p.surroundings config)
  have edges (u v : Nat) : (⟨u, v⟩ : Edge) ∈ g.edges.toList ↔
      ∃ n b location, g.nodes[v]? = some n ∧ b ∈ n.map ∧ b.source = .temp u location := by
    rw [built.edges, Graph.mem_edges_of_nodes]
    constructor
    · rintro ⟨n, member, reads, rfl⟩
      obtain ⟨b, among, location, source⟩ := Node.mem_producers.mp reads
      exact ⟨n, b, location, built.getElem?_id member, among, source⟩
    · rintro ⟨n, b, location, there, among, source⟩
      exact ⟨n, List.mem_of_getElem? there, Node.mem_producers.mpr ⟨b, among, location, source⟩,
        (built.numbered v n there).symm⟩
  have reads : ∀ n ∈ g.nodes, ∀ b ∈ n.map, ∀ u location, b.source = .temp u location →
      location = Location.temporary config.tempDir p.scope u ∧
        ∃ m, g.nodes[u]? = some m ∧ m.output = .temporary location := by
    intro n member b among u location source
    obtain ⟨slot, closed, rfl, rfl⟩ :=
      reached.source_eq validated (built.getElem?_id member) among source
    exact ⟨rfl, closed.node⟩
  have temporary : ∀ n ∈ g.nodes, n.output.isTemporary = true ↔ g.successors n.id ≠ [] := by
    intro n member
    have there := built.getElem?_id member
    constructor
    · intro writes
      obtain ⟨slot, closed, number⟩ := reached.closed_of_temporary validated there writes
      obtain ⟨m, among, b, inside, location, source⟩ :=
        (read.isRead validated reached closed).node (w := p.surroundings config)
      rw [number] at source
      exact List.ne_nil_of_mem (Graph.mem_successors.mpr
        ((edges n.id m.id).mpr ⟨m, b, location, built.getElem?_id among, inside, source⟩))
    · intro read
      obtain ⟨v, edge⟩ := List.exists_mem_of_ne_nil _ read
      obtain ⟨m, b, location, at_, inside, source⟩ := (edges _ _).mp (Graph.mem_successors.mp edge)
      obtain ⟨_, maker, made, output⟩ :=
        reads m (List.mem_of_getElem? at_) b inside n.id location source
      obtain rfl : n = maker := Option.some.inj (there.symm.trans made)
      rw [output]
      rfl
  refine ⟨rfl, built.numbered, edges, rises, built.topologicalOrder_eq_range rises, reads, temporary,
    realizes.results validated.numbered, ?_, ?_⟩
  · intro n member mapOnly
    obtain ⟨⟨keys, shaped⟩, combine, _⟩ := drafted n member
    rw [mapOnly] at shaped
    obtain ⟨ops, branches, records⟩ := shaped.one_branch
    obtain ⟨b, only, rfl⟩ : ∃ b, n.map = [b] ∧ b.ops = ops := by
      simpa only [List.map_eq_singleton_iff] using branches
    refine ⟨by rw [Drafting.State.parallelism_eq member, mapOnly]; rfl, b, only, ?_⟩
    simpa [Node.ops, only, combine, Node.combineOps, mapOnly] using records.isRearrange_eq_false
  · intro n member shuffles
    obtain ⟨⟨keys, shaped⟩, _, _⟩ := drafted n member
    obtain ⟨feeds, kind, tail, reduce, single⟩ := shaped.feeds shuffles
    refine ⟨?_, fun index b there => ?_, kind, tail, by simpa using reduce, single⟩
    · rw [Drafting.State.parallelism_eq member, List.isEmpty_eq_false_iff.mpr shuffles]
      rfl
    · exact feeds index b.ops (by rw [List.getElem?_map, there, Option.map_some])

/-- The filter that two jobs read is a node with a temporary output, and its readers come after it. -/
theorem toGraph_formed_visitCounts :
    ∃ g, visitCounts.toGraph RunConfig.standard = .ok g ∧
      g.topologicalOrder = .ok [0, 1, 2] ∧ g.successors 0 = [1, 2] ∧
      Formed visitCounts RunConfig.standard g :=
  ⟨_, rfl, rfl, rfl, toGraph_formed rfl⟩

end Plan

end Wavefront
