import Wavefront.Optimization.Revision
import Wavefront.Proofs.Traversal
set_option autoImplicit false

/-!
Revisions that go through. A chain of revisions goes through if each of them does, and a sweep if it
does at every element.
-/
namespace Wavefront.Revision

variable {α β : Type}

@[simp] theorem map_done (f : α → β) (x : α) : (done x).map f = done (f x) := rfl

@[simp] theorem done_bind (x : α) (next : α → Revision α) : (done x).bind next = next x := rfl

@[simp] theorem toExcept_done (x : α) : (done x).toExcept = .ok x := rfl

@[simp] theorem done_inj {x y : α} : done x = done y ↔ x = y := by
  simp [done]

theorem toExcept_eq_ok {r : Revision α} {x : α} : r.toExcept = .ok x ↔ r = done x := by
  obtain ⟨value, fault⟩ := r
  cases fault <;> simp [toExcept, done]

/-- A chain goes through where both of its revisions do. -/
theorem bind_eq_done {r : Revision α} {next : α → Revision α} {y : α} :
    r.bind next = done y ↔ ∃ x, r = done x ∧ next x = done y := by
  obtain ⟨value, fault⟩ := r
  cases fault with
  | none =>
    constructor
    · intro through
      exact ⟨value, rfl, through⟩
    · rintro ⟨x, same, through⟩
      cases same
      exact through
  | some e =>
    constructor
    · intro through
      simp [bind, done] at through
    · rintro ⟨x, same, _⟩
      simp [done] at same

theorem map_eq_done {f : α → β} {r : Revision α} {y : β} :
    r.map f = done y ↔ ∃ x, r = done x ∧ f x = y := by
  obtain ⟨value, fault⟩ := r
  constructor
  · intro through
    obtain ⟨same, rfl⟩ : f value = y ∧ fault = none := by simpa [map, done] using through
    exact ⟨value, rfl, same⟩
  · rintro ⟨x, same, rfl⟩
    rw [same, map_done]

theorem sweep_cons {revise : α → Revision α} {x y : α} (first : revise x = done y) (rest : List α) :
    sweep revise (x :: rest) = (sweep revise rest).map (y :: ·) := by
  rw [sweep, first]
  rfl

theorem sweep_eq_done {revise : α → Revision α} {xs ys : List α}
    (each : List.Forall₂ (fun x y => revise x = done y) xs ys) : sweep revise xs = done ys := by
  induction each with
  | nil => rfl
  | cons first _ ih => rw [sweep_cons first, ih, map_done]

/-- A sweep that goes through does so at every element. -/
theorem forall₂_of_sweep {revise : α → Revision α} {xs ys : List α}
    (through : sweep revise xs = done ys) : List.Forall₂ (fun x y => revise x = done y) xs ys := by
  induction xs generalizing ys with
  | nil =>
    rw [← done_inj.mp through]
    exact .nil
  | cons x rest ih =>
    cases first : revise x with
    | mk value fault =>
      cases fault with
      | some e =>
        rw [sweep, first] at through
        cases congrArg Revision.fault through
      | none =>
        rw [sweep_cons first] at through
        obtain ⟨zs, others, rfl⟩ := map_eq_done.mp through
        exact .cons first (ih others)

theorem sweep_eq_done_iff {revise : α → Revision α} {xs ys : List α} :
    sweep revise xs = done ys ↔ List.Forall₂ (fun x y => revise x = done y) xs ys :=
  ⟨forall₂_of_sweep, sweep_eq_done⟩

theorem map_sweep_value {revise : α → Revision α} {f : α → β}
    (same : ∀ x, f (revise x).value = f x) (xs : List α) : (sweep revise xs).value.map f = xs.map f := by
  induction xs with
  | nil => rfl
  | cons x rest ih =>
    rw [sweep]
    split
    · simp only [map, List.map_cons, same]
    · simp only [map, List.map_cons, same, ih]

theorem sweep_eq_self {revise : α → Revision α} {xs : List α} (each : ∀ x ∈ xs, revise x = done x) :
    sweep revise xs = done xs :=
  sweep_eq_done (List.forall₂_same.mpr each)

theorem sweep_again {revise : α → Revision α} {xs ys : List α}
    (again : ∀ x y, revise x = done y → revise y = done y) (through : sweep revise xs = done ys) :
    sweep revise ys = done ys := by
  apply sweep_eq_self
  intro y member
  obtain ⟨x, _, first⟩ := Traversal.exists_of_forall₂ (forall₂_of_sweep through).flip member
  exact again x y first

end Wavefront.Revision
