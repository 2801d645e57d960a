import Wavefront.Ascending
set_option autoImplicit false

/-!
Sorting by precedence. Each vertex carries a counter of the edges into it that are still open. Again and
again the smallest vertex without open edges is taken and the edges that leave it are closed. The result
names every vertex after all it depends on. Vertices are numbers, and the counter of the vertex `v` is
found at position `v`.
-/
namespace Wavefront.Precedence

/-- Why a sort fails: some vertices depend on each other in a circle, or the counters do not agree with
the edges. -/
inductive Fault where
  | cycle
  | counter
deriving DecidableEq, Repr

/-- The state of a sort. -/
structure State where
  /-- How many edges into each vertex are open. -/
  pending : List Nat
  /-- The vertices without open edges that are not taken yet, in ascending order. -/
  ready : List Nat
deriving DecidableEq, Repr

/-- Closes one edge into `v`; fails if the counter of `v` is missing or already at zero. -/
def State.release? (s : State) (v : Nat) : Option State :=
  match s.pending[v]? with
  | some (left + 1) =>
    some ⟨s.pending.set v left, if left = 0 then Ascending.place id v s.ready else s.ready⟩
  | _ => none

/-- Closes an edge into each of the vertices in turn. -/
def State.releaseAll? (s : State) : List Nat → Option State
  | [] => some s
  | v :: rest => (s.release? v).bind fun s => s.releaseAll? rest

/-- Takes the smallest ready vertex until none is left. The first argument bounds the number of
vertices taken. -/
def run (successors : Nat → List Nat) : Nat → State → Except Fault (List Nat)
  | _, ⟨_, []⟩ => .ok []
  | 0, ⟨_, _ :: _⟩ => .error .counter
  | fuel + 1, ⟨pending, v :: ready⟩ =>
    match State.releaseAll? ⟨pending, ready⟩ (successors v) with
    | none => .error .counter
    | some s => (run successors fuel s).map (v :: ·)

/-- The state before any vertex is taken. -/
def start (vertices : List Nat) (incoming : Nat → Nat) : State :=
  let pending := vertices.map incoming
  ⟨pending, (vertices.filter fun v => pending[v]? == some 0).foldr (Ascending.place id) []⟩

/-- All vertices, each after all it depends on, the smallest first where there is a choice.
`incoming v` is the number of edges into `v`; `successors v` lists the ends of the edges from `v`. -/
def order (vertices : List Nat) (incoming : Nat → Nat) (successors : Nat → List Nat) :
    Except Fault (List Nat) :=
  match run successors vertices.length (start vertices incoming) with
  | .error fault => .error fault
  | .ok taken => if taken.length = vertices.length then .ok taken else .error .cycle

end Wavefront.Precedence
