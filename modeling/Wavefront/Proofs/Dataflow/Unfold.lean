import Wavefront.Proofs.Dataflow.Term
import Wavefront.Proofs.Traversal
set_option autoImplicit false

/-!
How a term grows with the operations of a job: by one operation at the end of a branch, by the
rearrange that ends it, by the package that starts the reduce plan, and by one operation at its end.
-/
namespace Wavefront.Dataflow

theorem throughRecords_append {start x : Dataflow} {ops : List LocalOp} (r : RecordOp)
    (value : throughRecords start ops = some x) :
    throughRecords start (ops ++ [r.toLocal]) = some (.each r x) := by
  unfold throughRecords at *
  simp [List.foldlM_append, value]

/-- A rearrange behind operations on single records delivers what comes out of them. -/
theorem delivery?_append (start : Dataflow) (ops : List LocalOp) (index : Nat)
    (keys : List String) :
    delivery? (ops ++ [.rearrange index keys]) start =
      (throughRecords start ops).map fun x => ⟨index, keys, x⟩ := by
  induction ops generalizing start with
  | nil => rfl
  | cons op rest ih =>
    obtain ⟨second, others, more⟩ : ∃ second others,
      rest ++ [.rearrange index keys] = second :: others :=
      List.exists_cons_of_ne_nil (by simp)
    have unfolded : delivery? (op :: second :: others) start =
        (RecordOp.ofLocal? op).bind fun r => delivery? (second :: others) (.each r start) := by
      cases op <;> rfl
    rw [List.cons_append, more, unfolded]
    cases is : RecordOp.ofLocal? op with
    | none => simp [throughRecords, is]
    | some r =>
      have := ih (.each r start)
      rw [more] at this
      simp [throughRecords, is, this]

/-- Deliveries that stand at their indices are in order. -/
theorem inOrder_of_placed {deliveries : List Delivery}
    (placed : ∀ (i : Nat) (d : Delivery), deliveries[i]? = some d → d.index = i) :
    inOrder deliveries deliveries.length = some (deliveries.map fun d => (d.keys, d.value)) := by
  simp only [inOrder, ↓reduceIte]
  refine Traversal.mapM_eq_some.mpr (Traversal.forall₂_iff_getElem?.mpr ⟨by simp, ?_⟩)
  intro i index pair left right
  obtain ⟨within, equal⟩ := List.getElem?_eq_some_iff.mp left
  obtain rfl : i = index := by rwa [List.getElem_range] at equal
  have inside : i < deliveries.length := by simpa only [List.length_range] using within
  rw [List.getElem?_map] at right
  obtain ⟨d, there, rfl⟩ := Option.map_eq_some_iff.mp right
  rw [Traversal.find?_of_placed placed there, Option.map_some]

theorem afterPackage_append {kind : PackageKind} {count : Nat} {ops rest : List LocalOp}
    (known : afterPackage kind count ops = some rest) (op : LocalOp) :
    afterPackage kind count (ops ++ [op]) = some (rest ++ [op]) := by
  cases kind with
  | join joinType =>
    match ops with
    | [] => simp [afterPackage] at known
    | first :: others =>
      cases first <;> simp only [afterPackage, reduceCtorEq] at known
      split at known
      · rename_i same
        simp only [List.cons_append, afterPackage, same, ↓reduceIte, Option.some.injEq] at known ⊢
        rw [known]
      · simp at known
  | group | coGroup | distinct =>
    simp only [afterPackage, Option.some.injEq] at known ⊢
    rw [known]

/-- One more operation works on what the reduce plan before it computes. -/
theorem ofReduce_append {deliveries : List Delivery} {reduce : List LocalOp} {x y : Dataflow}
    {op : LocalOp} (value : ofReduce deliveries reduce = some x) (next : reduceStep x op = some y) :
    ofReduce deliveries (reduce ++ [op]) = some y := by
  match reduce with
  | [] => simp [ofReduce] at value
  | first :: ops =>
    cases first with
    | package kind count known =>
      simp only [ofReduce, Option.bind_eq_bind, Option.bind_eq_some_iff] at value
      obtain ⟨inputs, ordered, rest, after, folded⟩ := value
      simp only [List.cons_append, ofReduce, Option.bind_eq_bind, ordered, Option.bind_some,
        afterPackage_append after op, List.foldlM_append, folded, List.foldlM_cons, next,
        List.foldlM_nil, Option.pure_def]
    | _ => simp [ofReduce] at value

theorem ofPhases_cons (branches : List (Option Dataflow × List LocalOp)) (op : LocalOp)
    (reduce : List LocalOp) :
    ofPhases branches (op :: reduce) =
      (branches.mapM deliveryOf).bind fun deliveries => ofReduce deliveries (op :: reduce) := rfl

theorem ofPhases_append {branches : List (Option Dataflow × List LocalOp)} {reduce : List LocalOp}
    {x y : Dataflow} {op : LocalOp} (shuffled : reduce ≠ [])
    (value : ofPhases branches reduce = some x)
    (next : reduceStep x op = some y) : ofPhases branches (reduce ++ [op]) = some y := by
  obtain ⟨first, rest, rfl⟩ := List.exists_cons_of_ne_nil shuffled
  rw [List.cons_append, ofPhases_cons]
  rw [ofPhases_cons] at value
  obtain ⟨deliveries, delivered, reduced⟩ := Option.bind_eq_some_iff.mp value
  exact Option.bind_eq_some_iff.mpr ⟨deliveries, delivered, ofReduce_append reduced next⟩

/-- A package brings the branches together if the branch at each index delivers under that index. -/
theorem ofPhases_package {branches : List (Option Dataflow × List LocalOp)}
    {deliveries : List Delivery} {kind : PackageKind} {known : Option PackageAnnotation}
    {ops rest : List LocalOp}
    (delivered : List.Forall₂ (fun b d => deliveryOf b = some d) branches deliveries)
    (placed : ∀ (i : Nat) (d : Delivery), deliveries[i]? = some d → d.index = i)
    (after : afterPackage kind branches.length ops = some rest) :
    ofPhases branches (.package kind branches.length known :: ops) =
      rest.foldlM reduceStep (.shuffle kind (deliveries.map fun d => (d.keys, d.value))) := by
  rw [ofPhases_cons, Traversal.mapM_eq_some.mpr delivered, Option.bind_some, ofReduce, after,
    delivered.length_eq, inOrder_of_placed placed]
  rfl

end Wavefront.Dataflow
