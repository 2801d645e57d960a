import Wavefront.Config.Setting
import Wavefront.Graph.Basic
import Wavefront.Location
import Wavefront.Plan.Fingerprint
import Wavefront.Plan.Validity
import Wavefront.Drafting.Draft
set_option autoImplicit false

/-!
From a plan to a job graph. The operators are placed in topological order. What works on single records
stays in the phase of its input; a grouping moves to the reduce phase of its draft, or of a new one if
its input is past its shuffle already; an operator that several others read closes its draft. At the
end the drafts that are left become the nodes, numbered in their order.
-/
namespace Wavefront.Drafting

def State.inputPlace (s : State) (op : PlanOp) (position : Nat) : Except Error Place :=
  match op.inputs[position]? with
  | none => .error (.plan (.lacksInput op.id op.kind.name position))
  | some input =>
    match s.places.lookup input with
    | some place => .ok place
    | none => .error (.invariant (.visitedLate input op.id))

/-- A place where an operator can append to its first input. -/
def State.openPlace (s : State) (op : PlanOp) : Except Error (State × Place) := do
  let place ← s.inputPlace op 0
  match place.phase with
  | .closed => return s.readBack place.slot
  | _ => return (s, place)

def State.append (s : State) (op : PlanOp) (localOp : LocalOp) : Except Error (State × Place) := do
  let (s, place) ← s.openPlace op
  match place.phase with
  | .map => return (← s.pushMap place.slot localOp, place)
  | .reduce => return (← s.modify place.slot (·.pushReduce localOp), place)
  | .closed => throw (.invariant (.closedDraft op.id))

/-- Turns a draft into the reduce phase of a grouping. -/
def Draft.shuffle (d : Draft) (kind : PackageKind) (inputs : Nat) (keys : List String) : Draft :=
  { d.pushReduce (.package kind inputs none) with groupKeys := keys }

def State.shuffleOne (s : State) (op : PlanOp) (keys : List String) (kind : PackageKind) :
    Except Error (State × Place) := do
  let (s, place) ← s.openPlace op
  let (s, place) ← match place.phase with
    | .reduce => (s.close place.slot).map (·.readBack place.slot)
    | _ => .ok (s, place)
  let s ← s.pushMap place.slot (.rearrange 0 keys)
  let s ← s.modify place.slot (·.shuffle kind 1 keys)
  return (s, ⟨place.slot, .reduce⟩)

/-- Takes the only branch out of a draft that is merged into another. -/
def State.takeBranch (s : State) (slot : Nat) : Except Error (State × DraftBranch) :=
  match s.drafts[slot]? with
  | some (some ⟨branch :: _, _, _, _⟩) => .ok ({ s with drafts := s.drafts.set slot none }, branch)
  | some (some _) => .error (.invariant .noBranch)
  | _ => .error (.invariant (.mergedTwice slot))

/-- The branch through which an input of a grouping comes in: a draft that nobody else reads and that is
still in its map phase is merged, any other is closed and read back. -/
def State.inputBranch (s : State) (p : Plan) (op : PlanOp) (position input : Nat) :
    Except Error (State × DraftBranch) := do
  let place ← s.inputPlace op position
  if place.phase = .map ∧ (p.consumers input).length = 1 then s.takeBranch place.slot
  else return (← s.close place.slot, ⟨.draft place.slot, []⟩)

/-- The branches of the inputs from a position on, each ending in a rearrange by its keys. -/
def State.inputBranches (p : Plan) (op : PlanOp) (keys : List (List String)) :
    State → Nat → List Nat → Except Error (State × List DraftBranch)
  | s, _, [] => .ok (s, [])
  | s, position, input :: rest => do
    let (s, branch) ← s.inputBranch p op position input
    let branch := { branch with
      ops := branch.ops ++ [.rearrange position ((keys[position]?).getD [])] }
    let (s, branches) ← inputBranches p op keys s (position + 1) rest
    return (s, branch :: branches)

/-- Places a grouping of several inputs on a draft of its own. -/
def State.shuffleMany (s : State) (p : Plan) (op : PlanOp) (keys : List (List String))
    (kind : PackageKind) : Except Error (State × Place) := do
  let (s, branches) ← s.inputBranches p op keys 0 op.inputs
  let d := (Draft.ofBranches branches).shuffle kind op.inputs.length (keys.head?.getD [])
  let (s, slot) := s.add d
  return (s, ⟨slot, .reduce⟩)

def Draft.endsInGroup (d : Draft) : Bool :=
  match d.reduce.getLast? with
  | some (.package .group _ _) => true
  | _ => false

/-- Why an aggregate cannot be placed: its group is read by others too, or it follows no group. -/
def aggregateFault (p : Plan) (op : PlanOp) : PlanFault :=
  match op.inputs with
  | input :: _ =>
    if ((p.op? input).map (·.kind.isGroup)).getD false ∧ 1 < (p.consumers input).length then
      .sharedGroup op.id input
    else .notAfterGroup op.id
  | [] => .notAfterGroup op.id

def State.aggregate (s : State) (p : Plan) (op : PlanOp) (calls : List AggregateCall) :
    Except Error (State × Place) := do
  let place ← s.inputPlace op 0
  let d ← s.draft place.slot
  if place.phase = .reduce ∧ d.endsInGroup then
    return (s.put place.slot (d.pushReduce (.aggregate d.groupKeys calls .full)), place)
  else throw (.plan (aggregateFault p op))

def State.visit (s : State) (p : Plan) (op : PlanOp) : Except Error (State × Place) :=
  match op.kind with
  | .load location schema =>
    let (s, slot) := s.add (Draft.ofBranches [⟨.file location schema, []⟩])
    .ok (s, ⟨slot, .map⟩)
  | .filter predicate => s.append op (.filter predicate)
  | .project columns => s.append op (.project columns)
  | .stream command outputSchema => s.append op (.stream command outputSchema)
  | .limit n => s.append op (.limit n)
  | .group keys => s.shuffleOne op keys .group
  | .distinct => s.shuffleOne op [] .distinct
  | .coGroup keys => s.shuffleMany p op keys .coGroup
  | .join keys joinType => do
    let (s, place) ← s.shuffleMany p op keys (.join joinType)
    return (← s.modify place.slot (·.pushReduce (.flatten op.inputs.length)), place)
  | .aggregate calls => s.aggregate p op calls
  | .store location format => do
    let (s, place) ← s.openPlace op
    let s ← s.modify place.slot fun d => { d with output := some (.final location format) }
    return (s, ⟨place.slot, .closed⟩)

/-- Places one operator, and closes its draft if several others read it. -/
def State.step (p : Plan) (s : State) (id : Nat) : Except Error State :=
  match p.op? id with
  | none => .error (.invariant (.vanished id))
  | some op => do
    let (s, place) ← s.visit p op
    if !op.kind.isStore && 1 < (p.consumers id).length then
      let s ← s.close place.slot
      return { s with places := (id, ⟨place.slot, .closed⟩) :: s.places }
    else return { s with places := (id, place) :: s.places }

/-- The number of the node that the draft in a slot becomes. -/
def nodeNumber? (drafts : List (Option Draft)) (slot : Nat) : Option Nat :=
  match drafts[slot]? with
  | some (some _) => some ((drafts.take slot).countP Option.isSome)
  | _ => none

/-- What drafting needs to know besides the plan. -/
structure Surroundings where
  tempDir : String
  scope : String
  parallelism : Nat
deriving DecidableEq, Repr

/-- Where the temporary output of a node lives. -/
def Surroundings.temporary (w : Surroundings) (node : Nat) : String :=
  Location.temporary w.tempDir w.scope node

/-- The branch of a node, with the outputs of drafts found under their final numbers. -/
def branchOf (w : Surroundings) (drafts : List (Option Draft)) (id : Nat) (b : DraftBranch) :
    Except Error Branch :=
  match b.source with
  | .file location schema => .ok ⟨.file location schema, b.ops⟩
  | .draft slot =>
    match nodeNumber? drafts slot with
    | some producer => .ok ⟨.temp producer (w.temporary producer), b.ops⟩
    | none => .error (.invariant (.mergedAway id))

def nodeOf (w : Surroundings) (drafts : List (Option Draft)) (id : Nat) (d : Draft) :
    Except Error Node := do
  let output ← match d.output with
    | some (.final location format) => .ok (NodeOutput.final location format)
    | some .temporary => .ok (.temporary (w.temporary id))
    | none => .error (.invariant (.noOutput id))
  return {
    id
    map := ← d.map.mapM (branchOf w drafts id)
    combine := none
    reduce := d.reduce
    output
    parallelism := if d.reduce.isEmpty then none else some w.parallelism
    annotations := NodeAnnotations.none }

def nodesOf (w : Surroundings) (drafts : List (Option Draft)) : Except Error (List Node) :=
  ((drafts.filterMap id).zipIdx).mapM fun (d, id) => nodeOf w drafts id d

/-- Places all operators and makes the nodes. -/
def run (w : Surroundings) (p : Plan) : Except Error Graph := do
  let order ← p.topologicalOrder
  let s ← order.foldlM (State.step p) State.start
  Graph.ofNodes w.scope (← nodesOf w s.drafts)

end Wavefront.Drafting

namespace Wavefront.Plan

/-- The job graph of a plan, before it is optimized. -/
def toGraph (p : Plan) (config : RunConfig) : Except Error Graph := do
  config.validate.mapError Error.config
  p.validate
  Drafting.run ⟨config.tempDir, p.scope, config.cluster.defaultParallelism.toNat⟩ p

end Wavefront.Plan
