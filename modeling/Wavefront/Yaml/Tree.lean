import Wavefront.Yaml.Node
set_option autoImplicit false

/-!
Walks through the tree of a document. A walk follows the references that it meets one at a time, so a part
that refers to itself does no harm where nobody looks into it. A walk may follow only so many references,
because few lines can make a tree without end or of enormous size.
-/
namespace Wavefront.Yaml

namespace Node

mutual

/-- A part and the parts within it, in the order in which they start. -/
def parts : Node → List Node
  | .scalar s => [.scalar s]
  | .sequence tag items => .sequence tag items :: partsOfItems items
  | .mapping tag entries => .mapping tag entries :: partsOfEntries entries
  | .anchored number content => .anchored number content :: parts content
  | .reference number => [.reference number]

def partsOfItems : List Node → List Node
  | [] => []
  | n :: rest => parts n ++ partsOfItems rest

def partsOfEntries : List (Node × Node) → List Node
  | [] => []
  | (key, value) :: rest => parts key ++ (parts value ++ partsOfEntries rest)

end

/-- What a part adds to the size of a tree: both ends of a collection count, a number does not. -/
def weight : Node → Nat
  | .scalar _ | .reference _ => 1
  | .sequence .. | .mapping .. => 2
  | .anchored .. => 0

/-- The number of a part, and what has it. -/
def numbered? : Node → Option (Nat × Node)
  | .anchored number content => some (number, content)
  | _ => none

end Node

structure Tree where
  root : Node
  /-- The parts that have numbers. Of several with one number the last comes first. -/
  numbered : List (Nat × Node)
  /-- How many references a walk may follow. -/
  allowance : Nat

/-- How many references may be followed for each unit of the size of a tree. -/
def followedPerWeight : Nat := 100

namespace Tree

def ofRoot (root : Node) : Tree :=
  let parts := root.parts
  { root
    numbered := (parts.filterMap Node.numbered?).reverse
    allowance := followedPerWeight * parts.foldl (fun size n => size + n.weight) 0 }

def ofText? (s : String) : Option Tree := (parse? s).map ofRoot

end Tree

/-- A walk through a tree. It may fail, and its state is how many references it may still follow. -/
abbrev Walk (α : Type) : Type := ReaderT Tree (StateT Nat Option) α

def Tree.walk {α : Type} (t : Tree) (w : Walk α) : Option α := (w t).run' t.allowance

/-- What a walk brings that may bring nothing. -/
def Walk.ofOption {α : Type} : Option α → Walk α
  | some a => pure a
  | none => failure

/-- The scalar or collection that a part is, or that it refers to. -/
def Node.follow : Node → Walk Node
  | .anchored _ content => pure content
  | .reference number => do
    match ← getThe Nat with
    | 0 => failure
    | left + 1 =>
      set left
      Walk.ofOption ((← read).numbered.lookup number)
  | n => pure n

end Wavefront.Yaml
