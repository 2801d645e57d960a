import Wavefront.Proofs.Optimization.Compilation
set_option autoImplicit false

/-!
The wiring of compiled graphs. The passes leave alone what the nodes of a graph read and where they
write, so a compiled graph is built like the graph it is made from. Main statement: in a compiled graph
each branch that reads a temporary output reads it where the node that it names writes it.
-/
namespace Wavefront

namespace Optimization.Optimized

variable {chunkSize : Nat} {combines : Bool} {n m : Node}

theorem sources_eq (optimized : Optimized chunkSize combines n m) :
    m.map.map Branch.source = n.map.map Branch.source := by
  cases optimized with
  | combined _ _ map => rw [map]; rfl
  | mapOnly | streamed | annotated => rfl

theorem output_eq (optimized : Optimized chunkSize combines n m) : m.output = n.output := by
  cases optimized <;> rfl

theorem producers_eq (optimized : Optimized chunkSize combines n m) : m.producers = n.producers := by
  have through (k : Node) : k.producers = (k.map.map Branch.source).filterMap Source.producer? := by
    rw [List.filterMap_map]
    rfl
  rw [through, through, optimized.sources_eq]

end Optimization.Optimized

namespace Graph

/-- Each branch that reads a temporary output reads it where the node that it names writes it. -/
def Linked (g : Graph) : Prop :=
  ∀ n ∈ g.nodes, ∀ b ∈ n.map, ∀ producer location, b.source = .temp producer location →
    ∃ maker, g.nodes[producer]? = some maker ∧ maker.output = .temporary location

variable {g : Graph} {nodes : List Node} {chunkSize : Nat} {combines : Bool}

theorem getElem?_optimized
    (each : List.Forall₂ (Optimization.Optimized chunkSize combines) g.nodes nodes) {position : Nat}
    {m : Node} (there : nodes[position]? = some m) :
    ∃ n, g.nodes[position]? = some n ∧ Optimization.Optimized chunkSize combines n m := by
  obtain ⟨length, pairs⟩ := Traversal.forall₂_iff_getElem?.mp each
  have inside := (List.getElem?_eq_some_iff.mp there).1
  have before := List.getElem?_eq_getElem (l := g.nodes) (i := position) (by omega)
  exact ⟨_, before, pairs _ _ _ before there⟩

theorem Built.optimized (built : g.Built)
    (each : List.Forall₂ (Optimization.Optimized chunkSize combines) g.nodes nodes) :
    Built { g with nodes } := by
  have ids : nodes.map Node.id = g.nodes.map Node.id :=
    Traversal.map_eq_of_forall₂ (fun _ _ optimized => optimized.id_eq) each
  have edges : readEdges nodes = readEdges g.nodes := by
    have reads : nodes.map (fun n => (n.producers, n.id)) = g.nodes.map fun n => (n.producers, n.id) :=
      Traversal.map_eq_of_forall₂ (fun _ _ optimized => by
        rw [optimized.producers_eq, optimized.id_eq]) each
    have through (ns : List Node) : readEdges ns = (ns.map fun n => (n.producers, n.id)).flatMap
        fun pair => pair.1.map fun producer => ⟨producer, pair.2⟩ := by
      rw [List.flatMap_map]
      rfl
    rw [through, through, reads]
  refine ⟨fun position m there => ?_, built.edges.trans (congrArg _ edges.symm), ?_, ?_⟩
  · obtain ⟨n, before, optimized⟩ := getElem?_optimized each there
    rw [optimized.id_eq, built.numbered position n before]
  · rw [← each.length_eq]
    exact built.inside
  · obtain ⟨order, sorted⟩ := built.sorted
    exact ⟨order, (topologicalOrder_congr ids).trans sorted⟩

theorem Linked.optimized (linked : g.Linked)
    (each : List.Forall₂ (Optimization.Optimized chunkSize combines) g.nodes nodes) :
    Linked { g with nodes } := by
  intro m member b among producer location source
  obtain ⟨position, there⟩ := List.mem_iff_getElem?.mp member
  obtain ⟨n, before, optimized⟩ := getElem?_optimized each there
  have read : b.source ∈ n.map.map Branch.source := by
    rw [← optimized.sources_eq]
    exact List.mem_map_of_mem among
  obtain ⟨b', among', same⟩ := List.mem_map.mp read
  obtain ⟨maker, made, output⟩ :=
    linked n (List.mem_of_getElem? before) b' among' producer location (same.trans source)
  have inside := (List.getElem?_eq_some_iff.mp made).1
  have after := List.getElem?_eq_getElem (l := nodes) (i := producer) (by rw [← each.length_eq]; exact inside)
  obtain ⟨maker', made', optimized'⟩ := getElem?_optimized each after
  obtain rfl : maker = maker' := Option.some.inj (made.symm.trans made')
  exact ⟨_, after, optimized'.output_eq.trans output⟩

end Graph

namespace Plan

variable {p : Plan} {config : RunConfig} {g : Graph}

/-- A compiled graph is made of the graph of its plan, node by node. -/
theorem optimized_of_compile (compiled : p.compile config = .ok g) :
    ∃ g₀ nodes, p.toGraph config = .ok g₀ ∧ g = { g₀ with nodes } ∧
      List.Forall₂ (Optimization.Optimized config.lastInputChunkSize.toNat (!config.disableCombiner))
        g₀.nodes nodes := by
  cases made : p.toGraph config with
  | error e => cases (compile_of_error made).symm.trans compiled
  | ok g₀ =>
    obtain ⟨nodes, same, each⟩ := compile_of_toGraph made
    exact ⟨g₀, nodes, rfl, (Except.ok.inj (same.symm.trans compiled)).symm, each⟩

/-- A compiled graph could have been built from its nodes. -/
theorem built_of_compile (compiled : p.compile config = .ok g) : g.Built := by
  obtain ⟨g₀, nodes, made, rfl, each⟩ := optimized_of_compile compiled
  exact (drafted_of_toGraph made).1.optimized each

/-- Temporary outputs are read where they are written. -/
theorem linked_of_compile (compiled : p.compile config = .ok g) : g.Linked := by
  obtain ⟨g₀, nodes, made, rfl, each⟩ := optimized_of_compile compiled
  obtain ⟨order, s, validated, reached, rfl⟩ := reached_of_toGraph made
  obtain ⟨owner, realizes⟩ := reached.realizes (w := p.surroundings config) validated
  refine Graph.Linked.optimized (fun n member b among producer location source => ?_) each
  obtain ⟨position, inside, rfl⟩ := List.mem_iff_getElem.mp member
  exact realizes.reads ⟨position, inside⟩ b among producer location source

end Plan

end Wavefront
