import Mathlib.Logic.Function.Basic
import Wavefront.Proofs.Drafting.Nodes
set_option autoImplicit false

/-!
What a job graph owes to its plan. Main statement: the nodes of the graph of a plan stand for the
operators whose records are written out, one node for each of them, and each node computes what its
operator computes.
-/
namespace Wavefront

/-- Each node of a graph stands for an operator of a plan. -/
structure Realizes (p : Plan) (g : Graph) (owner : Fin g.nodes.length → Nat) : Prop where
  injective : Function.Injective owner
  /-- The operators with a node are those that are written out. -/
  written : ∀ id, p.IsWritten id ↔ ∃ position, owner position = id
  /-- A store writes to its own location. -/
  final : ∀ (position : Fin g.nodes.length) op location format, p.op? (owner position) = some op →
    op.kind = .store location format → g.nodes[position].output = .final location format
  /-- What is read back is written to a temporary location. -/
  temporary : ∀ position : Fin g.nodes.length, p.IsCut (owner position) →
    g.nodes[position].output.isTemporary = true
  /-- A branch reads where the node that it names writes. -/
  reads : ∀ position : Fin g.nodes.length, ∀ b ∈ g.nodes[position].map, ∀ producer location,
    b.source = .temp producer location →
      ∃ n, g.nodes[producer]? = some n ∧ n.output = .temporary location
  /-- A node computes what its operator computes. -/
  computes : ∀ position : Fin g.nodes.length,
    ∃ x, p.meaning (owner position) = some x ∧ g.meaning position = some x

namespace Drafting

variable {p : Plan} {order : List Nat} {s : State} {w : Surroundings}

/-- The draft that becomes the node at a position, and its operator. -/
theorem Reached.exists_owner (validated : p.Validated order) (reached : Reached p order s)
    (position : Fin (s.graph w).nodes.length) :
    ∃ id slot d, s.drafts[slot]? = some (some d) ∧ Held p (Taken p order) s slot d id ∧
      d.output ≠ none ∧
      s.numberOf slot = position ∧ d.node w s.numberOf position = (s.graph w).nodes[position] := by
  obtain ⟨slot, d, there, number, node⟩ :=
    State.getElem?_nodes.mp (List.getElem?_eq_getElem
      (show position.1 < (s.nodes w).length from position.2))
  obtain ⟨id, held, output⟩ := reached.held validated there
  exact ⟨id, slot, d, there, held, output, number, node⟩

theorem Held.written {used : Nat → Prop} {slot id : Nat} {d : Draft}
    (held : Held p used s slot d id) (output : d.output ≠ none) :
    (p.IsCut id ∧ d.output = some .temporary) ∨
      ∃ op location format, p.op? id = some op ∧ op.kind = .store location format ∧
        d.output = some (.final location format) := by
  rcases held.settled.cases with ⟨waits, _⟩ | ⟨is, cut⟩ | ⟨op, location, format, is, found, kind⟩
  · exact absurd waits output
  · exact .inl ⟨cut, is⟩
  · exact .inr ⟨op, location, format, found, kind, is⟩

/-- An operator that is written out has a position, and the draft that goes there is its own. -/
theorem Reached.exists_position (validated : p.Validated order) (reached : Reached p order s) {id : Nat}
    (written : p.IsWritten id) : ∃ position : Fin (s.graph w).nodes.length, ∀ slot d owner,
      s.drafts[slot]? = some (some d) → Held p (Taken p order) s slot d owner →
        s.numberOf slot = position → owner = id := by
  obtain ⟨slot, d, there, held⟩ := reached.kept validated written
  have at_ : (s.graph w).nodes[s.numberOf slot]? = some (d.node w s.numberOf (s.numberOf slot)) :=
    State.getElem?_nodes.mpr ⟨slot, d, there, rfl, rfl⟩
  refine ⟨⟨_, (List.getElem?_eq_some_iff.mp at_).1⟩, fun slot' d' owner there' held' number => ?_⟩
  obtain rfl := State.numberOf_inj there' there number
  exact Option.some.inj (held'.holder.symm.trans held.holder)

/-- The drafts that are left at the end become a graph that realizes the plan. -/
theorem Reached.realizes (validated : p.Validated order) (reached : Reached p order s) :
    ∃ owner, Realizes p (s.graph w) owner := by
  choose owner slot d there held output number node using reached.exists_owner (w := w) validated
  refine ⟨owner, ?_, ?_, ?_, ?_, ?_, ?_⟩
  · intro first second same
    obtain ⟨phase, placed, _⟩ := (held second).placed
    have slots : slot first = slot second := (held first).slot_eq (same.symm ▸ placed)
    rw [Fin.ext_iff, ← number first, ← number second, slots]
  · intro id
    constructor
    · intro written
      obtain ⟨position, own⟩ := reached.exists_position (w := w) validated written
      exact ⟨position, own _ _ _ (there position) (held position) (number position)⟩
    · rintro ⟨position, rfl⟩
      rcases (held position).written (output position) with ⟨cut, _⟩ |
        ⟨op, location, format, found, kind, _⟩
      · exact .inr cut
      · exact .inl ⟨op, found, by rw [kind]; rfl⟩
  · intro position op location format found kind
    rw [← node position]
    rcases (held position).written (output position) with ⟨cut, _⟩ |
      ⟨op', location', format', found', kind', is⟩
    · exact absurd ⟨op, found, by rw [kind]; rfl⟩ cut.not_store
    · rw [found] at found'
      cases found'
      rw [kind] at kind'
      cases kind'
      simp only [Draft.node, is]
  · intro position cut
    rw [← node position]
    rcases (held position).written (output position) with ⟨_, is⟩ |
      ⟨op, location, format, found, kind, _⟩
    · simp only [Draft.node, is, NodeOutput.isTemporary]
    · exact absurd ⟨op, found, by rw [kind]; rfl⟩ cut.not_store
  · intro position b member producer location source
    rw [← node position] at member
    simp only [Draft.node, List.mem_map] at member
    obtain ⟨branch, among, rfl⟩ := member
    obtain ⟨slot, closed, rfl, rfl⟩ := (held position).source_eq among source
    exact closed.node
  · intro position
    obtain ⟨x, meant, _⟩ := (held position).computes.value
    refine ⟨x, meant, ?_⟩
    rw [← number position, reached.meaning_eq validated (there position), State.valueOf,
      (held position).holder, Option.bind_some, meant]

end Drafting

namespace Plan

/-- What drafting a graph needs to know of a configuration. -/
def surroundings (p : Plan) (config : RunConfig) : Drafting.Surroundings :=
  ⟨config.tempDir, p.scope, config.cluster.defaultParallelism.toNat⟩

/-- The graph of a plan, or why there is none. -/
theorem toGraph_cases (p : Plan) (config : RunConfig) :
    (∃ fault, config.validate = .error fault ∧ p.toGraph config = .error (.config fault)) ∨
    (config.validate = .ok () ∧ ¬ (p.validate = .ok () ∧ p.AggregatesOwnGroups) ∧
      ∃ fault, p.toGraph config = .error (.plan fault)) ∨
    (config.validate = .ok () ∧ p.validate = .ok () ∧ p.AggregatesOwnGroups ∧
      ∃ order s, p.Validated order ∧ Drafting.Reached p order s ∧
        p.toGraph config = .ok (s.graph (p.surroundings config))) := by
  cases configured : config.validate with
  | error fault =>
    refine .inl ⟨fault, rfl, ?_⟩
    simp only [toGraph, configured, Except.mapError, bind, Except.bind]
  | ok _ =>
    refine .inr ?_
    cases accepted : p.validate with
    | error e =>
      obtain ⟨fault, rfl⟩ := validate_error accepted
      refine .inl ⟨rfl, by simp, fault, ?_⟩
      simp only [toGraph, configured, accepted, Except.mapError, bind, Except.bind]
    | ok _ =>
      obtain ⟨order, validated⟩ := validated_of_validate accepted
      have runs : p.toGraph config = Drafting.run (p.surroundings config) p := by
        simp only [toGraph, configured, accepted, Except.mapError, bind, Except.bind]
        rfl
      rw [runs]
      rcases Drafting.run_spec (p.surroundings config) validated with
        ⟨owned, s, reached, ran⟩ | ⟨foreign, fault, ran⟩
      · exact .inr ⟨rfl, rfl, owned, order, s, validated, reached, ran⟩
      · exact .inl ⟨rfl, fun both => foreign both.2, fault, ran⟩

/-- A graph comes from drafts on which all operators are placed. -/
theorem reached_of_toGraph {p : Plan} {config : RunConfig} {g : Graph}
    (made : p.toGraph config = .ok g) :
    ∃ order s, p.Validated order ∧ Drafting.Reached p order s ∧
      s.graph (p.surroundings config) = g := by
  rcases p.toGraph_cases config with
    ⟨fault, _, failed⟩ | ⟨_, _, fault, failed⟩ | ⟨_, _, _, order, s, validated, reached, drafted⟩
  · rw [made] at failed
    cases failed
  · rw [made] at failed
    cases failed
  · rw [made] at drafted
    exact ⟨order, s, validated, reached, (Except.ok.inj drafted).symm⟩

/-- The nodes of the graph of a plan compute what the operators that are written out compute. -/
theorem toGraph_realizes {p : Plan} {config : RunConfig} {g : Graph}
    (made : p.toGraph config = .ok g) :
    ∃ owner, Realizes p g owner := by
  obtain ⟨order, s, validated, reached, rfl⟩ := reached_of_toGraph made
  exact reached.realizes validated

/-- The visits that lasted, kept as they are and counted by page. -/
def visitCounts : Plan := ⟨[
  ⟨0, .load "visits" none, []⟩,
  ⟨1, .filter "duration > 0", [0]⟩,
  ⟨2, .group ["page"], [1]⟩,
  ⟨3, .aggregate [⟨.count, none, "visits"⟩], [2]⟩,
  ⟨4, .store "pages" "json", [3]⟩,
  ⟨5, .store "kept" "json", [1]⟩]⟩

/-- The filter is read twice, so it has a node of its own beside those of the stores. -/
theorem toGraph_realizes_visitCounts :
    ∃ g owner, visitCounts.toGraph RunConfig.standard = .ok g ∧ g.nodes.length = 3 ∧
      Realizes visitCounts g owner := by
  obtain ⟨g, made, three⟩ : ∃ g, visitCounts.toGraph RunConfig.standard = .ok g ∧
    g.nodes.length = 3 :=
    ⟨_, rfl, rfl⟩
  obtain ⟨owner, realizes⟩ := toGraph_realizes made
  exact ⟨g, owner, made, three, realizes⟩

end Plan

end Wavefront
