set_option autoImplicit false

/-!
Ascending lists: each element has a key, the keys ascend and no key comes twice. Putting an element into
such a list keeps it ascending, and an element of the same key makes way for it. Sets and maps are kept
this way, so that two of them with the same elements are the same value.
-/
namespace Wavefront

/-- A strict order that tells any two different keys apart. -/
class KeyOrder (κ : Type) where
  before : κ → κ → Prop
  decideBefore : (a b : κ) → Decidable (before a b)
  before_trans : ∀ {a b c : κ}, before a b → before b c → before a c
  before_of_not : ∀ {a b : κ}, ¬ before a b → a ≠ b → before b a

instance KeyOrder.decidableBefore {κ : Type} [KeyOrder κ] (a b : κ) : Decidable (KeyOrder.before a b) :=
  KeyOrder.decideBefore a b

instance KeyOrder.nat : KeyOrder Nat where
  before a b := a < b
  decideBefore := Nat.decLt
  before_trans := Nat.lt_trans
  before_of_not notBefore different := by omega

instance KeyOrder.string : KeyOrder String where
  before a b := a < b
  decideBefore a b := String.decidableLT a b
  before_trans := String.lt_trans
  before_of_not notBefore different := Decidable.byContradiction fun notAfter =>
    different (String.le_antisymm (String.not_lt.mp notAfter) (String.not_lt.mp notBefore))

variable {α κ : Type} [DecidableEq κ] [KeyOrder κ]

def Ascending (key : α → κ) (xs : List α) : Prop :=
  xs.Pairwise fun a b => KeyOrder.before (key a) (key b)

namespace Ascending

/-- Puts an element into its place in an ascending list, instead of the element of its key if there
is one. -/
def place (key : α → κ) (x : α) : List α → List α
  | [] => [x]
  | y :: rest =>
    if KeyOrder.before (key x) (key y) then x :: y :: rest
    else if key x = key y then x :: rest
    else y :: place key x rest

theorem mem_of_mem_place {key : α → κ} {x y : α} {xs : List α} (member : y ∈ place key x xs) :
    y = x ∨ y ∈ xs := by
  induction xs with
  | nil => simpa [place] using member
  | cons head rest ih =>
    simp only [place] at member
    split at member
    · simpa using member
    · split at member
      · exact (List.mem_cons.mp member).imp id (List.mem_cons_of_mem _)
      · rcases List.mem_cons.mp member with same | other
        · exact .inr (same ▸ List.mem_cons_self)
        · exact (ih other).imp id (List.mem_cons_of_mem _)

theorem place_ascending {key : α → κ} (x : α) {xs : List α} (ascending : Ascending key xs) :
    Ascending key (place key x xs) := by
  induction xs with
  | nil => simp [Ascending, place]
  | cons head rest ih =>
    obtain ⟨above, tail⟩ := List.pairwise_cons.mp ascending
    simp only [place]
    split
    · rename_i first
      refine List.pairwise_cons.mpr ⟨fun y member => ?_, ascending⟩
      rcases List.mem_cons.mp member with same | other
      · exact same ▸ first
      · exact KeyOrder.before_trans first (above y other)
    · rename_i notFirst
      split
      · rename_i same
        exact List.pairwise_cons.mpr ⟨fun y member => same ▸ above y member, tail⟩
      · rename_i different
        refine List.pairwise_cons.mpr ⟨fun y member => ?_, ih tail⟩
        rcases mem_of_mem_place member with same | other
        · exact same ▸ KeyOrder.before_of_not notFirst different
        · exact above y other

/-- Where an element is its own key, nothing makes way but the element itself. -/
theorem mem_place_id {x y : κ} {xs : List κ} : y ∈ place id x xs ↔ y = x ∨ y ∈ xs := by
  refine ⟨mem_of_mem_place, fun either => ?_⟩
  induction xs with
  | nil => simpa [place] using either
  | cons head rest ih =>
    simp only [place]
    split
    · simpa using either
    · split
      · rename_i same
        have same : x = head := same
        simpa [same] using either
      · rcases either with same | member
        · exact List.mem_cons_of_mem _ (ih (.inl same))
        · rcases List.mem_cons.mp member with first | other
          · exact first ▸ List.mem_cons_self
          · exact List.mem_cons_of_mem _ (ih (.inr other))

end Ascending

end Wavefront
