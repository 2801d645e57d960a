import Wavefront.Graph.Node
import Wavefront.Optimization.Revision
set_option autoImplicit false

/-!
What packages know of their inputs. A package is fed by the rearranges in front of the shuffle: the last
one of the combine plan if the node has one, else the last one of every branch. Each input of a package
is fed by exactly one of them.
-/
namespace Wavefront.Optimization

/-- A rearrange as a package sees it. -/
structure Feed where
  index : Nat
  keys : List String
deriving DecidableEq, Repr

def feed? : LocalOp → Option Feed
  | .rearrange index keys => some ⟨index, keys⟩
  | _ => none

/-- The feed that the last rearrange of a phase makes. -/
def lastFeed? (ops : List LocalOp) : Option Feed := ops.reverse.findSome? feed?

/-- Adds a feed to those of a package, unless the input does not exist or has one. -/
def addFeed (node inputs : Nat) (taken : List Feed) (feed : Feed) : Except PassFault (List Feed) :=
  if inputs ≤ feed.index then .error (.indexExceeds node feed.index inputs)
  else if taken.any (·.index == feed.index) then .error (.fedTwice node feed.index)
  else .ok (taken ++ [feed])

/-- What a package of a kind knows of the input a feed goes to. A distinct package and one without keys
need the whole record as value. -/
def keyInfo (kind : PackageKind) (feed : Feed) : KeyInfo :=
  ⟨feed.index, feed.keys, !feed.keys.isEmpty && kind != .distinct⟩

def inputInfo (node : Nat) (kind : PackageKind) (feeds : List Feed) (index : Nat) :
    Except PassFault KeyInfo :=
  match feeds.find? (·.index == index) with
  | some feed => .ok (keyInfo kind feed)
  | none => .error (.neverFed node index)

def annotationOf (node : Nat) (kind : PackageKind) (inputs : Nat) (feeds : List Feed) :
    Except PassFault PackageAnnotation := do
  let feeds ← feeds.foldlM (addFeed node inputs) []
  let infos ← (List.range inputs).mapM (inputInfo node kind feeds)
  return ⟨infos, if infos.all KeyInfo.stripKeyFromValue then .keyStripped else .full⟩

def annotateOp (node : Nat) (feeds : List Feed) (op : LocalOp) : Revision LocalOp :=
  match op with
  | .package kind inputs _ =>
    match annotationOf node kind inputs feeds with
    | .ok known => .done (.package kind inputs (some known))
    | .error fault => .stopped op fault
  | .joinPackage inputs joinType chunkSize streamedInput _ =>
    match annotationOf node (.join joinType) inputs feeds with
    | .ok known => .done (.joinPackage inputs joinType chunkSize streamedInput (some known))
    | .error fault => .stopped op fault
  | _ => .done op

/-- Annotates the operations of a phase in turn. -/
def annotateOps (node : Nat) (feeds : List Feed) (ops : List LocalOp) : Revision (List LocalOp) :=
  Revision.sweep (annotateOp node feeds) ops

def mapFeeds (n : Node) : List Feed := n.map.filterMap fun b => lastFeed? b.ops

def annotateCombine (n : Node) : Revision Node :=
  match n.combine with
  | none => .done n
  | some combine =>
    (annotateOps n.id (mapFeeds n) combine.ops).map fun ops =>
      { n with combine := some { combine with ops } }

def reduceFeeds (n : Node) : Except PassFault (List Feed) :=
  match n.combine with
  | none => .ok (mapFeeds n)
  | some combine =>
    match lastFeed? combine.ops with
    | some feed => .ok [feed]
    | none => .error (.combineWithoutRearrange n.id)

def annotateReduce (n : Node) : Revision Node :=
  match reduceFeeds n with
  | .error fault => .stopped n fault
  | .ok feeds => (annotateOps n.id feeds n.reduce).map fun reduce => { n with reduce }

def annotatePackages (n : Node) : Revision Node := (annotateCombine n).bind annotateReduce

end Wavefront.Optimization
