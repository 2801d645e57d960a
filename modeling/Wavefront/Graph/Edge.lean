import Wavefront.Json.Decode
import Wavefront.Label
import Wavefront.SortedSet
set_option autoImplicit false

/-!
The edges of a job graph: a set of pairs of nodes, kept in ascending order of the first node and then of
the second.
-/
namespace Wavefront

/-- The target reads what the source writes. -/
structure Edge where
  source : Nat
  target : Nat
deriving DecidableEq, Repr

instance Edge.keyOrder : KeyOrder Edge where
  before a b := a.source < b.source ∨ a.source = b.source ∧ a.target < b.target
  decideBefore _ _ := inferInstance
  before_trans first second := by omega
  before_of_not := by
    rintro ⟨source, target⟩ ⟨source', target'⟩ notBefore different
    simp only [ne_eq, Edge.mk.injEq] at *
    omega

/-- A set of edges. -/
abbrev EdgeSet := SortedSet Edge

namespace EdgeSet

/-- The nodes from which an edge leads to `v`, ascending. -/
def sourcesOf (s : EdgeSet) (v : Nat) : List Nat :=
  (s.toList.filter (·.target == v)).map Edge.source

/-- The nodes to which an edge leads from `v`, ascending. -/
def targetsOf (s : EdgeSet) (v : Nat) : List Nat :=
  (s.toList.filter (·.source == v)).map Edge.target

/-- The document form of a set is the list of its pairs. -/
def toJson (s : EdgeSet) : Json :=
  Json.list (fun e => .arr [Json.nat e.source, Json.nat e.target]) s.toList

def edgeOfJson? : Json → Option Edge
  | .arr [source, target] => do return ⟨← Json.word? source, ← Json.word? target⟩
  | _ => none

/-- Reads a list of pairs, in any order. -/
def ofJson? (j : Json) : Option EdgeSet := (Json.list? edgeOfJson? j).map SortedSet.ofList

end EdgeSet

end Wavefront
