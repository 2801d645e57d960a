import Wavefront.Error
set_option autoImplicit false

/-!
Revisions that may stop early. A revision that meets something it cannot treat leaves behind what it has
changed so far, so its result is always a value, with the reason for stopping beside it.
-/
namespace Wavefront

/-- What a revision leaves behind, and why it stopped early, if it did. -/
structure Revision (α : Type) where
  value : α
  fault : Option Error
deriving DecidableEq

namespace Revision

def done {α : Type} (value : α) : Revision α := ⟨value, none⟩

def stopped {α : Type} (value : α) (fault : PassFault) : Revision α := ⟨value, some (.pass fault)⟩

/-- Puts what a revision leaves behind into its surroundings. -/
def map {α β : Type} (f : α → β) (r : Revision α) : Revision β := ⟨f r.value, r.fault⟩

/-- Goes on with another revision unless the first has stopped. -/
def bind {α : Type} (r : Revision α) (next : α → Revision α) : Revision α :=
  if r.fault.isSome then r else next r.value

def toExcept {α : Type} (r : Revision α) : Except Error α :=
  match r.fault with
  | none => .ok r.value
  | some fault => .error fault

/-- Revises the elements of a list in turn, up to the first at which a revision stops. -/
def sweep {α : Type} (revise : α → Revision α) : List α → Revision (List α)
  | [] => done []
  | x :: rest =>
    let first := revise x
    if first.fault.isSome then first.map (· :: rest)
    else (sweep revise rest).map (first.value :: ·)

end Revision

end Wavefront
