import Wavefront.Optimization.Pipeline
import Wavefront.Proofs.Drafting.Realization
import Wavefront.Proofs.Optimization.Outcome
import Wavefront.Proofs.Optimization.Schemas
set_option autoImplicit false

/-!
Compilation as a whole. Main statements: what is drafted always passes the optimization, so a plan
is compiled exactly if it has a job graph, and it has one exactly if the configuration and the plan
are accepted and every aggregate has a group of its own.
-/
namespace Wavefront

open Optimization

theorem Pass.onNodes_eq_done {revise : Node → Revision Node} {g : Graph} {nodes : List Node}
    (each : List.Forall₂ (fun n m => revise n = .done m) g.nodes nodes) :
    onNodes revise g = .done { g with nodes } := by
  simp only [onNodes, Revision.sweep_eq_done each, Revision.map_done]

/-- The passes up to the flow of schemas work node by node. -/
theorem Pass.applyAll_pipeline {config : RunConfig} {g : Graph} {nodes : List Node}
    (each : List.Forall₂ (fun n m => Optimization.revise config.lastInputChunkSize.toNat
      (!config.disableCombiner) n = .done m) g.nodes nodes) :
    applyAll (pipeline config) g = discoverKeyTypes { g with nodes } := by
  have chain := each.imp fun n m through => Revision.bind_eq_done.mp through
  obtain ⟨marked, chain, streamed⟩ := Traversal.forall₂_comp chain
  obtain ⟨annotated, chain, marked⟩ := Traversal.forall₂_comp
    (chain.imp fun n m through => Revision.bind_eq_done.mp through)
  obtain ⟨combined, first, annotated⟩ := Traversal.forall₂_comp
    (chain.imp fun n m through => Revision.bind_eq_done.mp through)
  have second :=
    @onNodes_eq_done Optimization.annotatePackages { g with nodes := combined } _ annotated
  have third := @onNodes_eq_done markStreams { g with nodes := _ } _ marked
  have fourth := @onNodes_eq_done (streamLastInputs config.lastInputChunkSize.toNat)
    { g with nodes := _ } _ streamed
  cases disabled : config.disableCombiner with
  | true =>
    simp only [disabled, Bool.not_true, Bool.false_eq_true, ↓reduceIte, Revision.done_inj,
      List.forall₂_eq_eq_eq] at first
    subst first
    simp only [applyAll, pipeline, disabled, ↓reduceIte, List.nil_append, List.foldl_cons,
      List.foldl_nil, Revision.done_bind, apply, second, third, fourth]
  | false =>
    simp only [disabled, Bool.not_false, ↓reduceIte] at first
    have combine := onNodes_eq_done first
    simp only [applyAll, pipeline, disabled, Bool.false_eq_true, ↓reduceIte, List.cons_append,
      List.nil_append, List.foldl_cons, List.foldl_nil, Revision.done_bind, apply, combine,
      second, third,
      fourth]

/-- What becomes of a node does not depend on its annotations. -/
theorem Optimization.Optimized.relabel {chunkSize : Nat} {combines : Bool} {n m k : Node}
    (optimized : Optimized chunkSize combines n m) (relabelled : Relabelled m k) :
    Optimized chunkSize combines n k := by
  obtain ⟨a, rfl⟩ := relabelled
  cases optimized with
  | mapOnly _ reduce => exact .mapOnly a reduce
  | combined _ wanted map records reduce algebraic after =>
    exact .combined a wanted map records reduce algebraic after
  | streamed _ map records reduce after => exact .streamed a map records reduce after
  | annotated _ map records reduce after other whole =>
    exact .annotated a map records reduce after other whole

theorem Optimization.Optimized.id_eq {chunkSize : Nat} {combines : Bool} {n m : Node}
    (optimized : Optimized chunkSize combines n m) : m.id = n.id := by
  cases optimized <;> rfl

theorem Graph.topologicalOrder_congr {g : Graph} {nodes : List Node}
    (same : nodes.map Node.id = g.nodes.map Node.id) :
    topologicalOrder { g with nodes } = g.topologicalOrder := by
  simp only [topologicalOrder, same]
  rfl

/-- The optimization goes through at every graph of drafted nodes. -/
theorem Pass.applyAll_drafted (config : RunConfig) {g : Graph} (built : g.Built)
    (drafted : ∀ n ∈ g.nodes, Drafted n) :
    ∃ nodes, applyAll (pipeline config) g = .done { g with nodes } ∧
      List.Forall₂ (Optimized config.lastInputChunkSize.toNat (!config.disableCombiner))
        g.nodes nodes := by
  obtain ⟨revised, each⟩ := Traversal.forall₂_of_exists fun n member =>
    (drafted n member).revise_eq_done config.lastInputChunkSize.toNat (!config.disableCombiner)
  have ids : revised.map Node.id = g.nodes.map Node.id :=
    Traversal.map_eq_of_forall₂ (fun _ _ both => both.2.id_eq) each
  obtain ⟨order, sorted⟩ := built.sorted
  have inside : ∀ id ∈ order, id < revised.length := by
    intro id member
    have among := (built.greedy_of_order sorted).2.mem_iff.mp member
    rw [← each.length_eq]
    exact List.mem_range.mp among
  have resorted : Graph.topologicalOrder { g with nodes := revised } = .ok order :=
    (Graph.topologicalOrder_congr ids).trans sorted
  obtain ⟨nodes, discovered, relabelled⟩ :=
    @discoverKeyTypes_eq_done { g with nodes := revised } order resorted inside
  refine ⟨nodes, (applyAll_pipeline (each.imp fun n m both => both.1)).trans discovered, ?_⟩
  exact Traversal.forall₂_trans (fun _ _ _ both after => both.2.relabel after) each relabelled

namespace Plan

variable {p : Plan} {config : RunConfig} {g : Graph}

/-- The nodes of the graph of a plan are as they are drafted. -/
theorem drafted_of_toGraph (made : p.toGraph config = .ok g) :
    g.Built ∧ ∀ n ∈ g.nodes, Drafted n := by
  obtain ⟨order, s, validated, reached, rfl⟩ := reached_of_toGraph made
  refine ⟨(Graph.built_of_ofNodes (reached.ofNodes_eq_ok validated)).1, fun n member => ?_⟩
  obtain ⟨position, there⟩ := List.mem_iff_getElem?.mp member
  obtain ⟨slot, d, left, _, rfl⟩ := Drafting.State.getElem?_nodes.mp there
  obtain ⟨id, held, _⟩ := reached.held validated left
  refine ⟨⟨d.groupKeys, ?_⟩, rfl, rfl⟩
  have shaped := held.computes.shaped
  have branches : (d.map.map fun b : Drafting.DraftBranch => b.ops) =
      (d.map.map fun b =>
        (⟨b.source.settle (p.surroundings config) s.numberOf, b.ops⟩ : Branch)).map
        Branch.ops := by
    rw [List.map_map]
    rfl
  exact branches ▸ shaped

/-- What is drafted is compiled, node by node. -/
theorem compile_of_toGraph (made : p.toGraph config = .ok g) :
    ∃ nodes, p.compile config = .ok { g with nodes } ∧
      List.Forall₂ (Optimized config.lastInputChunkSize.toNat (!config.disableCombiner))
        g.nodes nodes := by
  obtain ⟨built, drafted⟩ := drafted_of_toGraph made
  obtain ⟨nodes, applied, optimized⟩ := Pass.applyAll_drafted config built drafted
  refine ⟨nodes, ?_, optimized⟩
  simp only [compile, made, bind, Except.bind, applied, Revision.toExcept_done]

theorem compile_of_error {e : Error} (failed : p.toGraph config = .error e) :
    p.compile config = .error e := by
  simp only [compile, failed, bind, Except.bind]

/-- Compilation fails for the faults of the configuration and of the plan only. A plan is compiled
exactly if it has a job graph. -/
theorem compile_outcome (p : Plan) (config : RunConfig) :
    ((∃ c, p.compile config = .ok c) ↔
      config.validate = .ok () ∧ p.validate = .ok () ∧ p.AggregatesOwnGroups) ∧
    ((∃ c, p.compile config = .ok c) ↔ ∃ g, p.toGraph config = .ok g) ∧
    ∀ e, p.compile config = .error e ∨ p.toGraph config = .error e →
      (∃ fault, config.validate = .error fault ∧ e = .config fault) ∨
        config.validate = .ok () ∧ ∃ fault, e = .plan fault := by
  rcases p.toGraph_cases config with
    ⟨fault, configured, failed⟩ | ⟨configured, refused, fault, failed⟩ |
      ⟨configured, accepted, owned, order, s, validated, reached, drafted⟩
  · have compiled := compile_of_error failed
    refine ⟨by simp [compiled, configured], by simp [compiled, failed], ?_⟩
    rintro e (is | is)
    · rw [compiled] at is
      exact .inl ⟨fault, configured, (Except.error.inj is).symm⟩
    · rw [failed] at is
      exact .inl ⟨fault, configured, (Except.error.inj is).symm⟩
  · have compiled := compile_of_error failed
    refine ⟨⟨by simp [compiled], fun ⟨_, both⟩ => absurd both refused⟩,
      by simp [compiled, failed], ?_⟩
    rintro e (is | is)
    · rw [compiled] at is
      exact .inr ⟨configured, fault, (Except.error.inj is).symm⟩
    · rw [failed] at is
      exact .inr ⟨configured, fault, (Except.error.inj is).symm⟩
  · obtain ⟨nodes, compiled, _⟩ := compile_of_toGraph drafted
    refine ⟨by simp [compiled, configured, accepted, owned], by simp [compiled, drafted], ?_⟩
    rintro e (is | is)
    · rw [compiled] at is
      cases is
    · rw [drafted] at is
      cases is

end Plan

end Wavefront
