import Mathlib.Data.List.Forall2
set_option autoImplicit false

/-!
Traversals that may fail. A traversal succeeds exactly if it succeeds at every element, and its
result is then the list of the results.
-/
namespace Wavefront.Traversal

variable {α β ε : Type}

/-- A traversal answers at the first element, and then at the others. -/
theorem mapM_cons (f : α → Option β) (x : α) (rest : List α) :
    (x :: rest).mapM f = (f x).bind fun y => (rest.mapM f).map (y :: ·) := by
  rw [List.mapM_cons]
  cases f x with
  | none => rfl
  | some y => cases rest.mapM f <;> rfl

theorem mapM_eq_some {f : α → Option β} {xs : List α} {ys : List β} :
    xs.mapM f = some ys ↔ List.Forall₂ (fun x y => f x = some y) xs ys := by
  induction xs generalizing ys with
  | nil => cases ys <;> simp
  | cons x rest ih =>
    rw [mapM_cons]
    cases ys with
    | nil => simp [Option.bind_eq_some_iff]
    | cons y zs => simp [Option.bind_eq_some_iff, ih]

theorem mapM_eq_ok {f : α → Except ε β} {xs : List α} {ys : List β} :
    xs.mapM f = .ok ys ↔ List.Forall₂ (fun x y => f x = .ok y) xs ys := by
  induction xs generalizing ys with
  | nil => cases ys <;> simp [pure, Except.pure]
  | cons x rest ih =>
    rw [List.mapM_cons]
    cases first : f x with
    | error e => cases ys <;> simp [bind, Except.bind, first]
    | ok y =>
      cases others : rest.mapM f with
      | error e => cases ys <;> simp [bind, Except.bind, first, ← ih, others]
      | ok zs => cases ys <;> simp [bind, Except.bind, pure, Except.pure, first, ← ih, others]

theorem bind_eq_ok {x : Except ε α} {next : α → Except ε β} {y : β} :
    x >>= next = .ok y ↔ ∃ a, x = .ok a ∧ next a = .ok y := by
  cases x <;> simp [bind, Except.bind]

theorem mapM_congr {f g : α → Option β} {xs : List α}
    (same : ∀ x ∈ xs, f x = g x) : xs.mapM f = xs.mapM g := by
  induction xs with
  | nil => rfl
  | cons x rest ih =>
    rw [List.mapM_cons, List.mapM_cons, same x List.mem_cons_self,
      ih fun y member => same y (List.mem_cons_of_mem x member)]

/-- Where a property fails, there is a first element that it fails at. -/
theorem exists_first {P : α → Prop} {xs : List α} {x : α} (member : x ∈ xs) (fails : ¬ P x) :
    ∃ before y after, xs = before ++ y :: after ∧ (∀ z ∈ before, P z) ∧ ¬ P y := by
  induction xs with
  | nil => cases member
  | cons y rest ih =>
    by_cases holds : P y
    · have later : x ∈ rest := (List.mem_cons.mp member).resolve_left fun same => fails (same ▸ holds)
      obtain ⟨before, z, after, rfl, good, bad⟩ := ih later
      refine ⟨y :: before, z, after, rfl, fun w among => ?_, bad⟩
      rcases List.mem_cons.mp among with rfl | earlier
      · exact holds
      · exact good w earlier
    · exact ⟨[], y, rest, rfl, by simp, holds⟩

/-- Two lists that agree element by element are as long as each other. -/
theorem forall₂_iff_getElem? {r : α → β → Prop} {xs : List α} {ys : List β} :
    List.Forall₂ r xs ys ↔
      xs.length = ys.length ∧ ∀ (i : Nat) (x : α) (y : β), xs[i]? = some x →
        ys[i]? = some y → r x y := by
  rw [List.forall₂_iff_get]
  refine and_congr_right fun _ => ⟨?_, ?_⟩
  · intro each i x y left right
    obtain ⟨insideLeft, rfl⟩ := List.getElem?_eq_some_iff.mp left
    obtain ⟨insideRight, rfl⟩ := List.getElem?_eq_some_iff.mp right
    exact each i insideLeft insideRight
  · intro each i insideLeft insideRight
    exact each i _ _ (List.getElem?_eq_getElem insideLeft) (List.getElem?_eq_getElem insideRight)

theorem exists_of_forall₂ {r : α → β → Prop} {xs : List α} {ys : List β}
    (each : List.Forall₂ r xs ys) {x : α} (member : x ∈ xs) : ∃ y ∈ ys, r x y := by
  induction each with
  | nil => cases member
  | cons first _ ih =>
    rcases List.mem_cons.mp member with rfl | later
    · exact ⟨_, List.mem_cons_self, first⟩
    · obtain ⟨y, among, holds⟩ := ih later
      exact ⟨y, List.mem_cons_of_mem _ among, holds⟩

theorem find?_of_placed {index : α → Nat} {xs : List α}
    (placed : ∀ (i : Nat) (x : α), xs[i]? = some x → index x = i) {i : Nat} {x : α}
    (there : xs[i]? = some x) : xs.find? (fun y => index y == i) = some x := by
  obtain ⟨inside, equal⟩ := List.getElem?_eq_some_iff.mp there
  refine List.find?_eq_some_iff_getElem.mpr ⟨by simp [placed i x there], i, inside, equal, ?_⟩
  intro j before
  have other := placed j _ (List.getElem?_eq_getElem (Nat.lt_trans before inside))
  simp only [other, Bool.not_eq_true', beq_eq_false_iff_ne]
  omega

theorem map_eq_range_of_placed {index : α → Nat} {xs : List α}
    (placed : ∀ (i : Nat) (x : α), xs[i]? = some x → index x = i) :
    xs.map index = List.range xs.length := by
  refine List.ext_getElem (by simp) fun i left right => ?_
  rw [List.getElem_map, List.getElem_range]
  exact placed i _ (List.getElem?_eq_getElem (by simpa using left))

theorem forall₂_comp {γ : Type} {r : α → γ → Prop} {q : γ → β → Prop} {xs : List α} {ys : List β}
    (both : List.Forall₂ (fun x y => ∃ z, r x z ∧ q z y) xs ys) :
    ∃ zs, List.Forall₂ r xs zs ∧ List.Forall₂ q zs ys := by
  induction both with
  | nil => exact ⟨[], .nil, .nil⟩
  | cons first _ ih =>
    obtain ⟨z, left, right⟩ := first
    obtain ⟨zs, lefts, rights⟩ := ih
    exact ⟨z :: zs, .cons left lefts, .cons right rights⟩

/-- Answers at the elements make a list of answers. -/
theorem forall₂_of_exists {r : α → β → Prop} {xs : List α} (each : ∀ x ∈ xs, ∃ y, r x y) :
    ∃ ys, List.Forall₂ r xs ys := by
  induction xs with
  | nil => exact ⟨[], .nil⟩
  | cons x rest ih =>
    obtain ⟨y, first⟩ := each x List.mem_cons_self
    obtain ⟨ys, others⟩ := ih fun other member => each other (List.mem_cons_of_mem x member)
    exact ⟨y :: ys, .cons first others⟩

theorem forall₂_trans {γ : Type} {r : α → γ → Prop} {q : γ → β → Prop} {t : α → β → Prop}
    {xs : List α} {zs : List γ} {ys : List β} (step : ∀ x z y, r x z → q z y → t x y)
    (left : List.Forall₂ r xs zs) (right : List.Forall₂ q zs ys) : List.Forall₂ t xs ys := by
  induction left generalizing ys with
  | nil =>
    cases right
    exact .nil
  | cons first _ ih =>
    cases right with
    | cons second others => exact .cons (step _ _ _ first second) (ih others)

theorem map_eq_of_forall₂ {γ : Type} {r : α → β → Prop} {f : α → γ} {g : β → γ} {xs : List α}
    {ys : List β} (same : ∀ x y, r x y → g y = f x) (each : List.Forall₂ r xs ys) :
      ys.map g = xs.map f := by
  induction each with
  | nil => rfl
  | cons first _ ih => rw [List.map_cons, List.map_cons, same _ _ first, ih]

end Wavefront.Traversal
