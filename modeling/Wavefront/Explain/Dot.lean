import Wavefront.Graph.Basic
set_option autoImplicit false

/-!
A job graph as a DOT document: one box a node, one arrow an edge. The lines of a label are set apart by
the escape for a line break, and the quotes and backslashes within a line are escaped themselves.
-/
namespace Wavefront.Explain

def escapeChar (c : Char) : List Char :=
  if c = '\\' then ['\\', '\\'] else if c = '"' then ['\\', '"'] else [c]

/-- The lines of a label, escaped and set apart. -/
def labelChars : List String → List Char
  | [] => []
  | [line] => line.toList.flatMap escapeChar
  | line :: rest => line.toList.flatMap escapeChar ++ '\\' :: 'n' :: labelChars rest

def phases (n : Node) : String :=
  if n.isMapOnly then "map" else if n.combine.isSome then "map+combine+reduce" else "map+reduce"

def labelLines (verbose : Bool) (n : Node) : List String :=
  [nodeLabel n.id, phases n] ++ (if verbose then n.ops.map LocalOp.display else []) ++ [n.output.location]

def boxName (id : Nat) : List Char := 'n' :: (toString id).toList

def boxChars (verbose : Bool) (n : Node) : List Char :=
  "  ".toList ++ boxName n.id ++ " [label=\"".toList ++ labelChars (labelLines verbose n) ++ "\"];\n".toList

def arrowChars (e : Edge) : List Char :=
  "  ".toList ++ boxName e.source ++ " -> ".toList ++ boxName e.target ++ ";\n".toList

def bannerChars : List Char :=
  "#--------------------------------------------------\n".toList ++
  "# Map Reduce Plan                                  \n".toList ++
  "#--------------------------------------------------\n".toList

def headerChars (scope : String) : List Char := "digraph \"".toList ++ scope.toList ++ "\" \x7b\n".toList

def dot (g : Graph) (verbose : Bool) : String :=
  String.ofList (bannerChars ++ headerChars g.scope ++ "  node [shape=box];\n".toList ++
    g.nodes.flatMap (boxChars verbose) ++ g.edges.toList.flatMap arrowChars ++ "\x7d\n".toList)

end Wavefront.Explain
