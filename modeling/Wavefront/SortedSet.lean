import Wavefront.Ascending
set_option autoImplicit false

/-!
Sets as ascending lists. A set is determined by its elements, and what is read off it comes in ascending
order.
-/
namespace Wavefront

structure SortedSet (κ : Type) [KeyOrder κ] where
  toList : List κ
  ascending : Ascending id toList
deriving DecidableEq

namespace SortedSet

variable {κ : Type} [DecidableEq κ] [KeyOrder κ]

def empty : SortedSet κ := ⟨[], .nil⟩

instance : Inhabited (SortedSet κ) := ⟨empty⟩

def insert (s : SortedSet κ) (x : κ) : SortedSet κ :=
  ⟨Ascending.place id x s.toList, Ascending.place_ascending x s.ascending⟩

def insertAll (s : SortedSet κ) (xs : List κ) : SortedSet κ := xs.foldl insert s

def ofList (xs : List κ) : SortedSet κ := empty.insertAll xs

def contains (s : SortedSet κ) (x : κ) : Bool := s.toList.contains x

def size (s : SortedSet κ) : Nat := s.toList.length

theorem mem_insert {s : SortedSet κ} {x y : κ} : y ∈ (s.insert x).toList ↔ y = x ∨ y ∈ s.toList :=
  Ascending.mem_place_id

theorem mem_insertAll {s : SortedSet κ} {xs : List κ} {y : κ} :
    y ∈ (s.insertAll xs).toList ↔ y ∈ xs ∨ y ∈ s.toList := by
  induction xs generalizing s with
  | nil => simp [insertAll]
  | cons x rest ih =>
    have step : s.insertAll (x :: rest) = (s.insert x).insertAll rest := rfl
    rw [step, ih, mem_insert, List.mem_cons]
    constructor
    · rintro (later | same | earlier)
      · exact .inl (.inr later)
      · exact .inl (.inl same)
      · exact .inr earlier
    · rintro ((same | later) | earlier)
      · exact .inr (.inl same)
      · exact .inl later
      · exact .inr (.inr earlier)

end SortedSet

end Wavefront
