import Wavefront.Optimization.SchemaFlow
import Wavefront.Proofs.Graph.Order
import Wavefront.Proofs.Optimization.Revising
set_option autoImplicit false

/-!
The flow of schemas goes through every graph that has an order, and changes annotations only.
-/
namespace Wavefront.Optimization

/-- Nodes that differ in their annotations only. -/
def Relabelled (n m : Node) : Prop := ∃ a, m = { n with annotations := a }

theorem Relabelled.refl (n : Node) : Relabelled n n := ⟨n.annotations, rfl⟩

theorem Relabelled.trans {n m k : Node} (first : Relabelled n m) (second : Relabelled m k) :
    Relabelled n k := by
  obtain ⟨_, rfl⟩ := first
  obtain ⟨a, rfl⟩ := second
  exact ⟨a, rfl⟩

theorem through_eq_done (s : Flow) {ids : List Nat} (inside : ∀ id ∈ ids, id < s.nodes.length) :
    ∃ s', s.through ids = .done s' ∧ List.Forall₂ Relabelled s.nodes s'.nodes := by
  induction ids generalizing s with
  | nil => exact ⟨s, rfl, List.forall₂_same.mpr fun n _ => .refl n⟩
  | cons id rest ih =>
    have here := inside id List.mem_cons_self
    have there : s.nodes[id]? = some s.nodes[id] := List.getElem?_eq_getElem here
    let annotations := schemaAnnotations s.outputs s.nodes[id]
    let next : Flow := ⟨s.nodes.set id { s.nodes[id] with annotations },
      s.outputs.set id annotations.outputSchema⟩
    have step : s.through (id :: rest) = next.through rest := by
      rw [Flow.through, there]
    obtain ⟨s', through, later⟩ := ih next fun other member => by
      simpa [next] using inside other (List.mem_cons_of_mem _ member)
    refine ⟨s', step.trans through, ?_⟩
    rw [Traversal.forall₂_iff_getElem?] at later ⊢
    refine ⟨by simpa [next] using later.1, fun i n m left right => ?_⟩
    by_cases same : i = id
    · subst same
      rw [there] at left
      cases left
      have changed : next.nodes[i]? = some { s.nodes[i] with annotations } :=
        List.getElem?_set_self here
      exact Relabelled.trans ⟨annotations, rfl⟩ (later.2 i _ m changed right)
    · have kept : next.nodes[i]? = some n := (List.getElem?_set_ne (Ne.symm same)).trans left
      exact later.2 i n m kept right

theorem discoverKeyTypes_eq_done {g : Graph} {order : List Nat}
    (sorted : g.topologicalOrder = .ok order) (inside : ∀ id ∈ order, id < g.nodes.length) :
    ∃ nodes, discoverKeyTypes g = .done { g with nodes } ∧
      List.Forall₂ Relabelled g.nodes nodes := by
  obtain ⟨s, through, relabelled⟩ := through_eq_done ⟨g.nodes, g.nodes.map fun _ => none⟩ inside
  refine ⟨s.nodes, ?_, relabelled⟩
  simp only [discoverKeyTypes, sorted, through, Revision.map_done]

end Wavefront.Optimization
