set_option autoImplicit false

/-!
JSON values. An object is the list of its members in writing order, so that a printed document keeps
the order its author chose.
-/
namespace Wavefront

/-- A JSON number keeps apart what is written without point or exponent and what is not. -/
inductive Json.Number where
  | int (value : Int)
  | float (value : Float)
deriving BEq, Inhabited

inductive Json where
  | null
  | bool (value : Bool)
  | num (value : Json.Number)
  | str (value : String)
  | arr (items : List Json)
  | obj (members : List (String × Json))
deriving BEq, Inhabited

namespace Json

def nat (n : Nat) : Json := .num (.int n)

def list {α : Type} (encode : α → Json) (xs : List α) : Json := .arr (xs.map encode)

def strings (xs : List String) : Json := list .str xs

/-- An absent value is written as `null`. -/
def option {α : Type} (encode : α → Json) : Option α → Json
  | none => .null
  | some x => encode x

/-- Sets a member: the old value of the name goes, a new name comes last. -/
def put (name : String) (value : Json) : List (String × Json) → List (String × Json)
  | [] => [(name, value)]
  | (key, old) :: rest =>
    if key = name then (key, value) :: rest else (key, old) :: put name value rest

mutual

/-- Keeps the last of the members that share a name, at every depth. -/
def settle : Json → Json
  | .arr items => .arr (settleItems items)
  | .obj members => .obj (settleMembers [] members)
  | other => other

/-- `settle` on each element of an array. -/
def settleItems : List Json → List Json
  | [] => []
  | item :: rest => settle item :: settleItems rest

/-- `settle` on the members of an object, `done` holding those already seen. -/
def settleMembers (done : List (String × Json)) : List (String × Json) → List (String × Json)
  | [] => done
  | (name, value) :: rest => settleMembers (put name (settle value) done) rest

end

end Json

end Wavefront
