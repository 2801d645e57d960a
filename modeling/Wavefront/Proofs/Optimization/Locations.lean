import Wavefront.Proofs.Drafting.Files
import Wavefront.Proofs.Drafting.Form
import Wavefront.Proofs.Run.Materialization
set_option autoImplicit false

/-!
Where the nodes of a compiled graph read and write. Temporary outputs live in the directory of the plan,
under the numbers of the nodes that write them, and combiners take as many records at a time as the
configuration says. Main statement: a node of a compiled graph that finds complete what it reads becomes
a job, unless a store or a load has been given no location.
-/
namespace Wavefront

/-- Where the nodes of a graph keep what is temporary, and how much they combine at a time. -/
structure Graph.Located (g : Graph) (config : RunConfig) : Prop where
  written : ∀ n ∈ g.nodes, ∀ location, n.output = .temporary location →
    location = Location.temporary config.tempDir g.scope n.id
  read : ∀ n ∈ g.nodes, ∀ b ∈ n.map, ∀ u location, b.source = .temp u location →
    location = Location.temporary config.tempDir g.scope u
  pieces : ∀ n ∈ g.nodes, ∀ combine ∈ n.combine, combine.chunkSize = config.lastInputChunkSize.toNat

theorem Location.temporary_ne_empty (tempDir scope : String) (node : Nat) :
    Location.temporary tempDir scope node ≠ "" := by
  simp [Location.temporary]

namespace Plan

variable {p : Plan} {config : RunConfig} {g : Graph}

theorem validate_of_compile (compiled : p.compile config = .ok g) : config.validate = .ok () := by
  obtain ⟨g₀, _, made, _⟩ := optimized_of_compile compiled
  obtain ⟨_, valid, _⟩ := Traversal.bind_eq_ok.mp made
  cases found : config.validate with
  | ok _ => rfl
  | error fault =>
    rw [found] at valid
    cases valid

/-- The temporary outputs of a graph that is drafted from a plan. -/
theorem temporaries_of_toGraph (made : p.toGraph config = .ok g) :
    (∀ n ∈ g.nodes, ∀ location, n.output = .temporary location →
      location = Location.temporary config.tempDir g.scope n.id) ∧
    ∀ n ∈ g.nodes, ∀ b ∈ n.map, ∀ u location, b.source = .temp u location →
      location = Location.temporary config.tempDir g.scope u := by
  have built := (drafted_of_toGraph made).1
  obtain ⟨order, s, validated, reached, rfl⟩ := reached_of_toGraph made
  refine ⟨fun n member location output => ?_, fun n member b among u location source => ?_⟩
  · have there := built.getElem?_id member
    obtain ⟨slot, closed, number⟩ :=
      reached.closed_of_temporary validated there (by rw [output]; rfl)
    obtain ⟨m, at_, written⟩ := closed.node (w := p.surroundings config)
    rw [number] at at_ written
    obtain rfl : n = m := Option.some.inj (there.symm.trans at_)
    exact NodeOutput.temporary.inj (output.symm.trans written)
  · obtain ⟨slot, _, _, is⟩ := reached.source_eq validated (built.getElem?_id member) among source
    exact is

/-- What is temporary in a compiled graph has its place. -/
theorem located_of_compile (compiled : p.compile config = .ok g) : g.Located config := by
  obtain ⟨g₀, nodes, made, rfl, each⟩ := optimized_of_compile compiled
  obtain ⟨written, read⟩ := temporaries_of_toGraph made
  have drafted := (drafted_of_toGraph made).2
  have origin (m : Node) (member : m ∈ nodes) : ∃ n ∈ g₀.nodes,
      Optimization.Optimized config.lastInputChunkSize.toNat (!config.disableCombiner) n m := by
    obtain ⟨n, among, optimized⟩ := Traversal.exists_of_forall₂ each.flip member
    exact ⟨n, among, optimized⟩
  refine ⟨fun m member location output => ?_, fun m member b among u location source => ?_,
    fun m member combine some => ?_⟩
  · obtain ⟨n, before, optimized⟩ := origin m member
    rw [optimized.id_eq]
    exact written n before location (optimized.output_eq.symm.trans output)
  · obtain ⟨n, before, optimized⟩ := origin m member
    have same : b.source ∈ n.map.map Branch.source := by
      rw [← optimized.sources_eq]
      exact List.mem_map_of_mem among
    obtain ⟨b', among', is⟩ := List.mem_map.mp same
    exact read n before b' among' u location (is.trans source)
  · obtain ⟨n, before, optimized⟩ := origin m member
    have none := (drafted n before).combine
    cases optimized with
    | combined =>
      cases some
      rfl
    | mapOnly | streamed | annotated =>
      rw [none] at some
      cases some

theorem scope_of_toGraph (made : p.toGraph config = .ok g) : g.scope = p.scope := by
  obtain ⟨order, s, _, _, rfl⟩ := reached_of_toGraph made
  rfl

theorem scope_of_compile (compiled : p.compile config = .ok g) : g.scope = p.scope := by
  obtain ⟨g₀, nodes, made, rfl, _⟩ := optimized_of_compile compiled
  exact (scope_of_toGraph made : g₀.scope = p.scope)

/-- A compiled graph reads a file only where a load of its plan does. -/
theorem exists_load_of_compile (compiled : p.compile config = .ok g) {n : Node} (member : n ∈ g.nodes)
    {b : Branch} (among : b ∈ n.map) {location : String} {schema : Option Schema}
    (source : b.source = .file location schema) : ∃ op ∈ p.ops, op.kind = .load location schema := by
  obtain ⟨g₀, nodes, made, rfl, each⟩ := optimized_of_compile compiled
  obtain ⟨order, s, _, _, placed, rfl⟩ := placed_of_toGraph made
  obtain ⟨m, before, optimized⟩ := Traversal.exists_of_forall₂ each.flip member
  have same : b.source ∈ m.map.map Branch.source := by
    rw [← optimized.sources_eq]
    exact List.mem_map_of_mem among
  obtain ⟨b', among', is⟩ := List.mem_map.mp same
  exact (Drafting.foldlM_loadsOnly (Drafting.start_loadsOnly p) placed).exists_load before among'
    (is.trans source)

/-- Where no store and no load has been given an empty location all nodes can become jobs. -/
theorem materializes_of_compile (compiled : p.compile config = .ok g)
    (outputs : ∀ n ∈ g.nodes, n.output.location ≠ "")
    (loads : ∀ op ∈ p.ops, ∀ schema, op.kind ≠ .load "" schema) : g.Materializes config := by
  have valid := validate_of_compile compiled
  have located := located_of_compile compiled
  refine ⟨valid, outputs, fun n member b among empty => ?_, fun n member combine some => ?_⟩
  · cases source : b.source with
    | file location schema =>
      obtain rfl : location = "" := by rwa [source] at empty
      obtain ⟨op, there, kind⟩ := exists_load_of_compile compiled member among source
      exact loads op there schema kind
    | temp u location =>
      have place := located.read n member b among u location source
      obtain rfl : location = "" := by rwa [source] at empty
      exact Location.temporary_ne_empty _ _ _ place.symm
  · rw [located.pieces n member combine some]
    exact RunConfig.lastInputChunkSize_ne_zero valid

/-- The results of a compiled graph are those of the stores of its plan. -/
theorem results_of_compile (compiled : p.compile config = .ok g) :
    (g.nodes.filterMap (·.output.result?)).Perm (p.ops.filterMap (·.kind.result?)) := by
  obtain ⟨g₀, nodes, made, rfl, each⟩ := optimized_of_compile compiled
  obtain ⟨order, s, validated, reached, rfl⟩ := reached_of_toGraph made
  obtain ⟨owner, realizes⟩ := reached.realizes (w := p.surroundings config) validated
  have outputs : nodes.map Node.output = (s.graph (p.surroundings config)).nodes.map Node.output :=
    Traversal.map_eq_of_forall₂ (fun _ _ optimized => optimized.output_eq) each
  have same : nodes.filterMap (·.output.result?) =
      (s.graph (p.surroundings config)).nodes.filterMap (·.output.result?) := by
    have results := congrArg (List.filterMap NodeOutput.result?) outputs
    rwa [List.filterMap_map, List.filterMap_map] at results
  exact same ▸ realizes.results validated.numbered

end Plan

/-- A node that finds complete what it reads becomes a job, unless it writes or reads nowhere. -/
theorem Graph.Located.of_jobFault? {g : Graph} {config : RunConfig} (located : g.Located config)
    (valid : config.validate = .ok ()) {n : Node} (member : n ∈ g.nodes) {completed : SortedSet Nat}
    {group : String} {fault : JobFault} (refused : n.jobFault? config completed group = some fault)
    (supplied : ∀ producer ∈ n.producers, producer ∈ completed.toList) :
    (fault = .outputWithoutLocation ∧ ∃ format, n.output = .final "" format) ∨
      (fault = .inputWithoutLocation ∧ ∃ b ∈ n.map, ∃ schema, b.source = .file "" schema) := by
  have chunks : ∀ combine ∈ n.combine, combine.chunkSize ≠ 0 := fun combine some => by
    rw [located.pieces n member combine some]
    exact RunConfig.lastInputChunkSize_ne_zero valid
  rcases n.jobFault?_of_empty refused valid supplied chunks with ⟨is, empty⟩ | ⟨is, b, among, empty⟩
  · refine .inl ⟨is, ?_⟩
    cases output : n.output with
    | final location format =>
      obtain rfl : location = "" := by rwa [output] at empty
      exact ⟨format, rfl⟩
    | temporary location =>
      have place := located.written n member location output
      obtain rfl : location = "" := by rwa [output] at empty
      exact absurd place.symm (Location.temporary_ne_empty _ _ _)
  · refine .inr ⟨is, b, among, ?_⟩
    cases source : b.source with
    | file location schema =>
      obtain rfl : location = "" := by rwa [source] at empty
      exact ⟨schema, rfl⟩
    | temp u location =>
      have place := located.read n member b among u location source
      obtain rfl : location = "" := by rwa [source] at empty
      exact absurd place.symm (Location.temporary_ne_empty _ _ _)

end Wavefront
