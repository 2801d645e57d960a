import Wavefront.Proofs.Optimization.Idempotence
set_option autoImplicit false

/-!
The annotation of packages on graphs of any shape. Main statement: the pass goes through exactly if
the feeds of every package fill its inputs and no combine plan is without a rearrange, every package
then knows what its feeds carry, nothing else changes, and the order of the branches does not matter.
-/
namespace Wavefront

def LocalOp.unannotated : LocalOp → LocalOp
  | .package kind inputs _ => .package kind inputs none
  | .joinPackage inputs joinType chunkSize streamedInput _ =>
    .joinPackage inputs joinType chunkSize streamedInput none
  | op => op

/-- A combine plan, and what it is once its packages know their inputs. -/
structure CombinePlan.Informed (feeds : List Optimization.Feed) (plan plan' : CombinePlan) : Prop where
  ops : List.Forall₂ (Optimization.Informs feeds) plan.ops plan'.ops
  chunkSize : plan'.chunkSize = plan.chunkSize

namespace Node

open Optimization

/-- What feeds the shuffle of a node from its branches: the last rearrange of each that has one. -/
def branchFeeds (n : Node) : List Feed :=
  n.map.filterMap fun branch => (rearranges branch.ops).getLast?

/-- What feeds the reduce plan of a node: the last rearrange of the combine plan if there is one,
else what the branches feed. -/
def shuffleFeeds (n : Node) : List Feed :=
  match n.combine with
  | none => n.branchFeeds
  | some plan => (rearranges plan.ops).getLast?.toList

/-- A node whose packages can all come to know their inputs. -/
structure Fed (n : Node) : Prop where
  rearranged : ∀ plan ∈ n.combine, rearranges plan.ops ≠ []
  combine : Optimization.Fed n.branchFeeds n.combineOps
  reduce : Optimization.Fed n.shuffleFeeds n.reduce

/-- A node, and what it is once its packages know their inputs. -/
structure Informed (n m : Node) : Prop where
  combine : Option.Rel (CombinePlan.Informed n.branchFeeds) n.combine m.combine
  reduce : List.Forall₂ (Informs n.shuffleFeeds) n.reduce m.reduce
  others : m = { n with combine := m.combine, reduce := m.reduce }

def Reordered (n n' : Node) : Prop := ∃ map, n.map.Perm map ∧ n' = { n with map }

def unannotated (n : Node) : Node :=
  { n with
    combine := n.combine.map fun plan => { plan with ops := plan.ops.map LocalOp.unannotated }
    reduce := n.reduce.map LocalOp.unannotated }

end Node

def Graph.unannotated (g : Graph) : Graph := { g with nodes := g.nodes.map Node.unannotated }

namespace Optimization

variable {n n' m : Node} {feeds : List Feed}

theorem mapFeeds_eq_branchFeeds (n : Node) : mapFeeds n = n.branchFeeds := by
  simp only [mapFeeds, Node.branchFeeds, lastFeed?_eq]

/-- The reduce plan has feeds unless a combine plan has none to give. -/
theorem reduceFeeds_eq_ok :
    reduceFeeds n = .ok feeds ↔
      (∀ plan ∈ n.combine, rearranges plan.ops ≠ []) ∧ n.shuffleFeeds = feeds := by
  unfold reduceFeeds Node.shuffleFeeds
  cases n.combine with
  | none => simp [mapFeeds_eq_branchFeeds]
  | some plan =>
    simp only [lastFeed?_eq]
    cases last : (rearranges plan.ops).getLast? with
    | none => simp [List.getLast?_eq_none_iff.mp last]
    | some feed =>
      have some_rearrange : rearranges plan.ops ≠ [] := by
        intro nothing
        rw [nothing] at last
        cases last
      simp [some_rearrange]

/-- The packages of a combine plan are fed by the branches. -/
theorem annotateCombine_eq_done_iff :
    annotateCombine n = .done m ↔
      Fed n.branchFeeds n.combineOps ∧
        ∃ combine, Option.Rel (CombinePlan.Informed n.branchFeeds) n.combine combine ∧
          { n with combine } = m := by
  unfold annotateCombine
  cases there : n.combine with
  | none =>
    have nothing : Fed n.branchFeeds n.combineOps := by simp [Fed, Node.combineOps, there]
    have same : { n with combine := none } = n := by rw [← there]
    rw [Revision.done_inj]
    constructor
    · rintro rfl
      exact ⟨nothing, none, .none, same⟩
    · rintro ⟨_, combine, related, rfl⟩
      cases related
      exact same.symm
  | some plan =>
    have ops : n.combineOps = plan.ops := by simp [Node.combineOps, there]
    rw [Revision.map_eq_done, mapFeeds_eq_branchFeeds, ops]
    constructor
    · rintro ⟨ops', annotated, rfl⟩
      obtain ⟨fed, each⟩ := annotateOps_eq_done_iff.mp annotated
      exact ⟨fed, some { plan with ops := ops' }, .some ⟨each, rfl⟩, rfl⟩
    · rintro ⟨fed, combine, related, rfl⟩
      cases related with
      | some informed =>
        refine ⟨_, annotateOps_eq_done_iff.mpr ⟨fed, informed.ops⟩, ?_⟩
        rw [← informed.chunkSize]

/-- The packages of a reduce plan are fed by the combine plan or the branches. -/
theorem annotateReduce_eq_done_iff :
    annotateReduce n = .done m ↔
      (∀ plan ∈ n.combine, rearranges plan.ops ≠ []) ∧ Fed n.shuffleFeeds n.reduce ∧
        ∃ reduce, List.Forall₂ (Informs n.shuffleFeeds) n.reduce reduce ∧ { n with reduce } = m := by
  constructor
  · intro through
    unfold annotateReduce at through
    split at through
    · cases congrArg Revision.fault through
    · rename_i feeds fed
      obtain ⟨rearranged, rfl⟩ := reduceFeeds_eq_ok.mp fed
      obtain ⟨reduce, annotated, whole⟩ := Revision.map_eq_done.mp through
      obtain ⟨filled, each⟩ := annotateOps_eq_done_iff.mp annotated
      exact ⟨rearranged, filled, reduce, each, whole⟩
  · rintro ⟨rearranged, filled, reduce, each, whole⟩
    have annotated : annotateOps n.id n.shuffleFeeds n.reduce = .done reduce :=
      annotateOps_eq_done_iff.mpr ⟨filled, each⟩
    rw [annotateReduce_eq (reduceFeeds_eq_ok.mpr ⟨rearranged, rfl⟩) annotated, whole]

/-- What the combine plan knows does not change what it feeds. -/
theorem rearranges_eq_of_informed {combine : Option CombinePlan}
    (related : Option.Rel (CombinePlan.Informed feeds) n.combine combine) :
    ({ n with combine } : Node).shuffleFeeds = n.shuffleFeeds ∧
      ((∀ plan ∈ combine, rearranges plan.ops ≠ []) ↔
        ∀ plan ∈ n.combine, rearranges plan.ops ≠ []) := by
  unfold Node.shuffleFeeds
  generalize n.combine = before at related ⊢
  cases related with
  | none => exact ⟨rfl, Iff.rfl⟩
  | some informed => simp [rearranges_eq_of_informs informed.ops]

/-- The packages of a node come to know their inputs exactly if they are all fed. -/
theorem annotatePackages_eq_done_iff : annotatePackages n = .done m ↔ n.Fed ∧ n.Informed m := by
  rw [annotatePackages, Revision.bind_eq_done]
  constructor
  · rintro ⟨k, combined, reduced⟩
    obtain ⟨combineFed, combine, related, rfl⟩ := annotateCombine_eq_done_iff.mp combined
    obtain ⟨rearranged, reduceFed, reduce, each, rfl⟩ := annotateReduce_eq_done_iff.mp reduced
    obtain ⟨feeds, rearranges⟩ := rearranges_eq_of_informed related
    rw [feeds] at reduceFed each
    exact ⟨⟨rearranges.mp rearranged, combineFed, reduceFed⟩, related, each, rfl⟩
  · rintro ⟨fed, informed⟩
    obtain ⟨feeds, rearranges⟩ := rearranges_eq_of_informed informed.combine
    refine ⟨{ n with combine := m.combine }, ?_, ?_⟩
    · exact annotateCombine_eq_done_iff.mpr ⟨fed.combine, _, informed.combine, rfl⟩
    · apply annotateReduce_eq_done_iff.mpr
      rw [feeds]
      exact ⟨rearranges.mpr fed.rearranged, fed.reduce, _, informed.reduce, informed.others.symm⟩

/-- A node with fed packages can be annotated. -/
theorem exists_annotated (fed : n.Fed) : ∃ m, annotatePackages n = .done m := by
  obtain ⟨reduce, reduced⟩ := fed.reduce.exists_informs
  obtain ⟨combine, combined⟩ :
      ∃ combine, Option.Rel (CombinePlan.Informed n.branchFeeds) n.combine combine := by
    have fedPlan := fed.combine
    unfold Node.combineOps at fedPlan
    cases there : n.combine with
    | none => exact ⟨none, .none⟩
    | some plan =>
      rw [there] at fedPlan
      obtain ⟨ops, each⟩ := fedPlan.exists_informs
      exact ⟨some ⟨ops, plan.chunkSize⟩, .some ⟨each, rfl⟩⟩
  exact ⟨{ n with combine, reduce }, annotatePackages_eq_done_iff.mpr ⟨fed, combined, reduced, rfl⟩⟩

theorem rel_informed_perm {feeds' : List Feed} {before after : Option CombinePlan}
    (related : Option.Rel (CombinePlan.Informed feeds) before after) (same : feeds.Perm feeds') :
    Option.Rel (CombinePlan.Informed feeds') before after := by
  cases related with
  | none => exact .none
  | some informed =>
    exact .some ⟨informed.ops.imp fun _ _ first => first.perm same, informed.chunkSize⟩

theorem branchFeeds_perm (reordered : n.Reordered n') : n.branchFeeds.Perm n'.branchFeeds := by
  obtain ⟨map, permuted, rfl⟩ := reordered
  exact permuted.filterMap _

theorem shuffleFeeds_perm (reordered : n.Reordered n') : n.shuffleFeeds.Perm n'.shuffleFeeds := by
  have branches := branchFeeds_perm reordered
  obtain ⟨map, _, rfl⟩ := reordered
  cases there : n.combine with
  | none => simpa only [Node.shuffleFeeds, there] using branches
  | some plan => simp only [Node.shuffleFeeds, there, List.Perm.refl]

/-- What is known of a node does not depend on the order of its branches. -/
theorem annotatePackages_reordered (reordered : n.Reordered n')
    (through : annotatePackages n = .done m) :
    annotatePackages n' = .done { m with map := n'.map } := by
  have branches := branchFeeds_perm reordered
  have shuffle := shuffleFeeds_perm reordered
  obtain ⟨fed, informed⟩ := annotatePackages_eq_done_iff.mp through
  obtain ⟨map, _, rfl⟩ := reordered
  have still : ({ n with map } : Node).Fed :=
    ⟨fed.rearranged, fed.combine.perm branches, fed.reduce.perm shuffle⟩
  refine annotatePackages_eq_done_iff.mpr ⟨still, ?_, ?_, ?_⟩
  · exact rel_informed_perm informed.combine branches
  · exact informed.reduce.imp fun _ _ first => first.perm shuffle
  · rw [informed.others]

theorem annotateOps_value (node : Nat) (feeds : List Feed) (ops : List LocalOp) :
    (annotateOps node feeds ops).value.map LocalOp.unannotated = ops.map LocalOp.unannotated := by
  apply Revision.map_sweep_value
  intro op
  cases op with
  | package kind inputs before =>
    cases found : annotationOf node kind inputs feeds <;> simp only [annotateOp, found] <;> rfl
  | joinPackage inputs joinType =>
    cases found : annotationOf node (.join joinType) inputs feeds <;>
      simp only [annotateOp, found] <;> rfl
  | filter | project | stream | limit | rearrange | flatten | aggregate => rfl

/-- Stopped or not, the annotation changes nothing but what packages know. -/
theorem annotatePackages_value (n : Node) : (annotatePackages n).value.unannotated = n.unannotated := by
  have first (n : Node) : (annotateCombine n).value.unannotated = n.unannotated := by
    unfold annotateCombine
    split
    · rfl
    · rename_i plan there
      simp only [Revision.map, Node.unannotated, Option.map_some, annotateOps_value, there]
  have second (n : Node) : (annotateReduce n).value.unannotated = n.unannotated := by
    unfold annotateReduce
    split
    · rfl
    · simp only [Revision.map, Node.unannotated, annotateOps_value]
  unfold annotatePackages Revision.bind
  split
  · exact first n
  · rw [second, first]

end Optimization

namespace Graph

open Optimization

/-- What the annotation of packages does to a graph. -/
structure AnnotatesPackages (g : Graph) : Prop where
  /-- It goes through exactly if each package of each node has its inputs filled. -/
  succeeds : (∃ h, Pass.annotatePackages.apply g = .done h) ↔ ∀ n ∈ g.nodes, n.Fed
  /-- Every package then knows what its feeds carry. -/
  informed : ∀ h, Pass.annotatePackages.apply g = .done h →
    List.Forall₂ Node.Informed g.nodes h.nodes ∧ h.scope = g.scope ∧ h.edges = g.edges
  /-- Whether it goes through or not, nothing changes but what packages know. -/
  unchanged : (Pass.annotatePackages.apply g).value.unannotated = g.unannotated
  /-- The branches of the nodes may stand in any order. -/
  reordered : ∀ h nodes, Pass.annotatePackages.apply g = .done h →
    List.Forall₂ Node.Reordered g.nodes nodes →
      ∃ nodes', Pass.annotatePackages.apply { g with nodes } = .done { g with nodes := nodes' } ∧
        List.Forall₂ (fun m m' => m'.combine = m.combine ∧ m'.reduce = m.reduce) h.nodes nodes'

theorem apply_annotatePackages_eq_done {g h : Graph} :
    Pass.annotatePackages.apply g = .done h ↔
      ∃ nodes, h = { g with nodes } ∧
        List.Forall₂ (fun n m => annotatePackages n = .done m) g.nodes nodes :=
  Pass.onNodes_eq_done_iff

/-- Packages are annotated exactly, on a graph of any shape. -/
theorem annotatesPackages (g : Graph) : g.AnnotatesPackages where
  succeeds := by
    constructor
    · rintro ⟨h, through⟩ n member
      obtain ⟨nodes, _, each⟩ := apply_annotatePackages_eq_done.mp through
      obtain ⟨m, _, annotated⟩ := Traversal.exists_of_forall₂ each member
      exact (annotatePackages_eq_done_iff.mp annotated).1
    · intro fed
      obtain ⟨nodes, each⟩ := Traversal.forall₂_of_exists fun n member =>
        exists_annotated (fed n member)
      exact ⟨{ g with nodes }, apply_annotatePackages_eq_done.mpr ⟨nodes, rfl, each⟩⟩
  informed := by
    intro h through
    obtain ⟨nodes, rfl, each⟩ := apply_annotatePackages_eq_done.mp through
    exact ⟨each.imp fun n m annotated => (annotatePackages_eq_done_iff.mp annotated).2, rfl, rfl⟩
  unchanged := by
    have nodes := Revision.map_sweep_value annotatePackages_value g.nodes
    simp only [Pass.apply, Pass.onNodes, Revision.map, unannotated, nodes]
  reordered := by
    intro h nodes through others
    obtain ⟨known, rfl, each⟩ := apply_annotatePackages_eq_done.mp through
    have pairs : List.Forall₂ (fun m n' => ∃ m', (m'.combine = m.combine ∧ m'.reduce = m.reduce) ∧
        annotatePackages n' = .done m') known nodes := by
      apply Traversal.forall₂_trans _ each.flip others
      intro m n n' annotated same
      exact ⟨{ m with map := n'.map }, ⟨rfl, rfl⟩, annotatePackages_reordered same annotated⟩
    obtain ⟨nodes', same, again⟩ := Traversal.forall₂_comp pairs
    exact ⟨nodes', apply_annotatePackages_eq_done.mpr ⟨nodes', rfl, again.flip⟩, same⟩

end Graph

end Wavefront
