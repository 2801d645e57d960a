import Wavefront.Config.Setting
import Wavefront.Graph.Basic
import Wavefront.Text.Lines
set_option autoImplicit false

/-!
A job graph as a listing: a line of introduction, then some lines for every node, phase by phase.
-/
namespace Wavefront.Explain
open Wavefront.Text

def sourceText : Source → String
  | .file location _ => "Load[" ++ location ++ "]"
  | .temp node location => "Load[" ++ location ++ "] from " ++ nodeLabel node

def opLines (width : Nat) (ops : List LocalOp) : List String :=
  ops.map fun op => indent width op.display

def branchLines (b : Branch) (position : Nat) : List String :=
  indent 4 ("branch " ++ toString position ++ ": " ++ sourceText b.source) :: opLines 6 b.ops

def combineLines : Option CombinePlan → List String
  | none => []
  | some c => indent 2 ("Combine Plan chunk=" ++ toString c.chunkSize) :: opLines 4 c.ops

def reduceLines (n : Node) : List String :=
  if n.reduce.isEmpty then []
  else
    let title := match n.parallelism with
      | some p => "Reduce Plan parallelism=" ++ toString p
      | none => "Reduce Plan"
    indent 2 title :: opLines 4 n.reduce

def outputLine : NodeOutput → String
  | .final location format => indent 2 ("Store[" ++ location ++ "] format=" ++ format)
  | .temporary location => indent 2 ("Store[" ++ location ++ "] temporary")

/-- The line that names the nodes read. -/
def dependencyLines (producers : List Nat) : List String :=
  if producers.isEmpty then [] else [indent 2 ("Depends on " ++ commaList (producers.map nodeLabel))]

def fieldText (f : Field) : String := f.name ++ ":" ++ f.dataType.name

/-- The line of a package whose inputs are known. -/
def layoutLine? (op : LocalOp) : Option String :=
  let line (a : PackageAnnotation) : String :=
    indent 2 ("package layout: " ++ match a.layout with
      | .full => "Full"
      | .keyStripped => "KeyStripped")
  match op with
  | .package _ _ (some a) => some (line a)
  | .joinPackage _ _ _ _ (some a) => some (line a)
  | _ => none

/-- The lines of what has been found out about a node. -/
def annotationLines (n : Node) : List String :=
  let a := n.annotations
  (a.keyType.map fun t => indent 2 ("key type: " ++ t.name)).toList ++
  (if a.stream.any then
    [indent 2 ("streaming: map=" ++ switchText a.stream.map ++ " combine=" ++
      switchText a.stream.combine ++ " reduce=" ++ switchText a.stream.reduce)]
  else []) ++
  (a.outputSchema.map fun s =>
    indent 2 ("output schema: (" ++ commaList (s.fields.map fieldText) ++ ")")).toList ++
  n.ops.filterMap layoutLine?

def nodeLines (g : Graph) (verbose : Bool) (n : Node) : List String :=
  ["MapReduce " ++ nodeLabel n.id, indent 2 "Map Plan"] ++
  (n.map.zipIdx.flatMap fun (b, position) => branchLines b position) ++
  combineLines n.combine ++ reduceLines n ++ [outputLine n.output] ++
  dependencyLines (g.predecessors n.id) ++
  (if verbose then annotationLines n else [])

def listingLines (g : Graph) (verbose : Bool) : List String :=
  ("Job graph " ++ g.scope ++ " (" ++ toString g.nodes.length ++ " nodes)") ::
    g.nodes.flatMap (nodeLines g verbose)

def listing (g : Graph) (verbose : Bool) : String := unlines (listingLines g verbose)

end Wavefront.Explain
