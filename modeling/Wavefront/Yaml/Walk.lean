import Wavefront.Yaml.Meaning
import Wavefront.Yaml.Tree
set_option autoImplicit false

/-!
What a walk finds at a part of which the type is known beforehand. Then a text is any scalar as it is
written, and an absent part is a collection without members.
-/
namespace Wavefront.Yaml

namespace Scalar

def isAbsent (s : Scalar) : Bool := s.style == .plain && s.text.isEmpty

/-- Whether the text of a scalar may spell a value of a tag: a plain scalar may, and a block of lines as
they are if it has the tag. -/
def maySpell (s : Scalar) (tag : String) : Bool :=
  s.style == .plain || s.style == .literal && s.tag == some tag

/-- Whether a scalar is nothing where nothing is possible; fails if it has the tag of nothing for another
text. A tag of any other kind makes something of it, and so do quotes. -/
def isNothing? (s : Scalar) : Option Bool :=
  if s.style ≠ .plain then some false
  else match s.tag with
    | none => some (s.text.isEmpty || isNullWord s.text)
    | some tag =>
      if tag ≠ nullTag then some false else if isNullWord s.text then some true else none

end Scalar

namespace Node

def text (n : Node) : Walk String := do
  match ← n.follow with
  | .scalar s => return s.text
  | _ => failure

def switch (n : Node) : Walk Bool := do
  match ← n.follow with
  | .scalar s => if s.maySpell boolTag then Walk.ofOption (switch? s.text) else failure
  | _ => failure

def natBelow (bound : Nat) (n : Node) : Walk Nat := do
  match ← n.follow with
  | .scalar s =>
    match whole? s.text with
    | some (.nat value) => if s.maySpell intTag && value < bound then return value else failure
    | _ => failure
  | _ => failure

def items (n : Node) : Walk (List Node) := do
  match ← n.follow with
  | .sequence _ items => return items
  | .scalar s => if s.isAbsent then return [] else failure
  | _ => failure

def entries (n : Node) : Walk (List (Node × Node)) := do
  match ← n.follow with
  | .mapping _ entries => return entries
  | .scalar s => if s.isAbsent then return [] else failure
  | _ => failure

/-- The entries of a mapping by the texts of their keys. -/
def members (n : Node) : Walk (List (String × Node)) := do
  (← n.entries).mapM fun e => return (← e.1.text, e.2)

def option {α : Type} (decode : Node → Walk α) (n : Node) : Walk (Option α) := do
  let n ← n.follow
  match n with
  | .scalar s => if ← Walk.ofOption s.isNothing? then return none else some <$> decode n
  | _ => some <$> decode n

end Node

end Wavefront.Yaml
