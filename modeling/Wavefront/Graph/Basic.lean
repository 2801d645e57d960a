import Wavefront.Error
import Wavefront.Graph.Edge
import Wavefront.Graph.Node
import Wavefront.Precedence
set_option autoImplicit false

/-!
Job graphs. The edges say which node reads the temporary output of which; in a graph that is built from
its nodes they are exactly what the nodes' sources say, every node is known by its position, and no node
depends on itself.
-/
namespace Wavefront

/-- A job graph. The scope is shared by all temporary paths of a plan. -/
structure Graph where
  scope : String
  nodes : List Node
  edges : EdgeSet
deriving DecidableEq

namespace Graph

/-- The node at the position that a number names. -/
def node? (g : Graph) (id : Nat) : Option Node := g.nodes[id]?

/-- The nodes that a node reads, ascending. -/
def predecessors (g : Graph) (id : Nat) : List Nat := g.edges.sourcesOf id

/-- The nodes that read a node, ascending. -/
def successors (g : Graph) (id : Nat) : List Nat := g.edges.targetsOf id

/-- All nodes, each after those it reads, the smallest number first where there is a choice. -/
def topologicalOrder (g : Graph) : Except Error (List Nat) :=
  match Precedence.order (g.nodes.map Node.id) (fun id => (g.predecessors id).length) g.successors with
  | .ok order => .ok order
  | .error .cycle => .error (.invariant .graphCycle)
  | .error .counter => .error (.invariant .counter)

/-- The first edge with an end outside of the graph. -/
def dangling? (g : Graph) : Option Edge :=
  g.edges.toList.find? fun e => (g.node? e.source).isNone || (g.node? e.target).isNone

/-- Accepts the graphs whose edges join their nodes without a circle. -/
def validate (g : Graph) : Except Error Unit :=
  match g.dangling? with
  | some e => .error (.invariant (.danglingEdge e.source e.target))
  | none => g.topologicalOrder.map fun _ => ()

/-- The edges that the sources of some nodes ask for. -/
def readEdges (nodes : List Node) : List Edge :=
  nodes.flatMap fun n => n.producers.map fun producer => ⟨producer, n.id⟩

/-- The first position at which a node of another number stands. -/
def misplaced? (nodes : List Node) : Option (Node × Nat) :=
  nodes.zipIdx.find? fun (n, position) => n.id != position

def ofNodes (scope : String) (nodes : List Node) : Except Error Graph :=
  match misplaced? nodes with
  | some (n, position) => .error (.invariant (.misplacedNode position n.id))
  | none =>
    let g : Graph := ⟨scope, nodes, SortedSet.ofList (readEdges nodes)⟩
    g.validate.map fun _ => g

def toJson (g : Graph) : Json :=
  .obj [("scope", .str g.scope), ("nodes", Json.list Node.toJson g.nodes), ("edges", g.edges.toJson)]

def ofJson? (j : Json) : Option Graph := do
  let members ← Json.record? ["scope", "nodes", "edges"] j
  return {
    scope := ← Json.field? members "scope" Json.text?
    nodes := ← Json.field? members "nodes" (Json.list? Node.ofJson?)
    edges := ← Json.field? members "edges" EdgeSet.ofJson? }

end Graph

end Wavefront
