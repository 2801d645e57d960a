import Wavefront.Error
import Wavefront.Graph.Node
set_option autoImplicit false

/-!
Nodes in the making. The operators of a plan are placed on drafts one after the other; `Place` says on
which draft, and in which phase of it, the records of an operator are. A draft whose output is read by
other drafts is closed. The operations on drafts fail only where a promise between them is broken.
-/
namespace Wavefront.Drafting

/-- Where on a draft the records of an operator are. -/
inductive Phase where
  | map | reduce
  /-- In the output, where nothing can be appended. -/
  | closed
deriving DecidableEq, Repr

/-- The draft and the phase in which the records of an operator are. -/
structure Place where
  slot : Nat
  phase : Phase
deriving DecidableEq, Repr

/-- Where a branch of a draft reads. -/
inductive DraftSource where
  | file (location : String) (schema : Option Schema)
  /-- The output of another draft. -/
  | draft (slot : Nat)
deriving DecidableEq, Repr

/-- An input of a draft. -/
structure DraftBranch where
  source : DraftSource
  ops : List LocalOp
deriving DecidableEq, Repr

/-- Where a draft writes. -/
inductive DraftOutput where
  | final (location format : String)
  | temporary
deriving DecidableEq, Repr

/-- A node in the making. -/
structure Draft where
  map : List DraftBranch
  reduce : List LocalOp
  output : Option DraftOutput
  /-- The keys of the shuffle, for an aggregate that follows. -/
  groupKeys : List String
deriving DecidableEq, Repr

namespace Draft

def ofBranches (map : List DraftBranch) : Draft := ⟨map, [], none, []⟩

def reading (slot : Nat) : Draft := ofBranches [⟨.draft slot, []⟩]

def pushMap? (d : Draft) (op : LocalOp) : Option Draft :=
  match d.map with
  | [] => none
  | branch :: rest => some { d with map := { branch with ops := branch.ops ++ [op] } :: rest }

def pushReduce (d : Draft) (op : LocalOp) : Draft := { d with reduce := d.reduce ++ [op] }

/-- Gives a draft without an output a temporary one. -/
def close (d : Draft) : Draft := { d with output := some (d.output.getD .temporary) }

end Draft

/-- The drafts so far, a merged one leaving a gap, and the places of the operators so far. -/
structure State where
  drafts : List (Option Draft)
  places : List (Nat × Place)
deriving DecidableEq, Repr

namespace State

/-- The state before any operator is placed. -/
def start : State := ⟨[], []⟩

/-- Adds a draft; returns its slot. -/
def add (s : State) (d : Draft) : State × Nat :=
  ({ s with drafts := s.drafts ++ [some d] }, s.drafts.length)

def draft (s : State) (slot : Nat) : Except Error Draft :=
  match s.drafts[slot]? with
  | some (some d) => .ok d
  | _ => .error (.invariant (.draftGone slot))

def put (s : State) (slot : Nat) (d : Draft) : State := { s with drafts := s.drafts.set slot (some d) }

def modify (s : State) (slot : Nat) (change : Draft → Draft) : Except Error State :=
  (s.draft slot).map fun d => s.put slot (change d)

def close (s : State) (slot : Nat) : Except Error State := s.modify slot Draft.close

def readBack (s : State) (slot : Nat) : State × Place :=
  let (s, slot) := s.add (Draft.reading slot)
  (s, ⟨slot, .map⟩)

def pushMap (s : State) (slot : Nat) (op : LocalOp) : Except Error State := do
  let d ← s.draft slot
  match d.pushMap? op with
  | some d => .ok (s.put slot d)
  | none => .error (.invariant .noBranch)

end State

end Wavefront.Drafting
