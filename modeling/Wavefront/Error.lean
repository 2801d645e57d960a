import Wavefront.Label
set_option autoImplicit false

/-!
Why planning or running fails. Each kind of failure is a type of causes; `Error` is their sum, `kind`
sorts the causes into what a caller tells apart, and `message` words them.
-/
namespace Wavefront

/-- A setting that no run can use, or a property that cannot be read. -/
inductive ConfigFault where
  | notPositive (key : String)
  | blank (key : String)
  | notANumber (key value : String)
  | notASwitch (key value : String)
deriving DecidableEq, Repr

def ConfigFault.message : ConfigFault → String
  | .notPositive key => key ++ " must be positive"
  | .blank key => key ++ " must not be empty"
  | .notANumber key value => key ++ ": expected a number, got '" ++ value ++ "'"
  | .notASwitch key value => key ++ ": expected true/false, got '" ++ value ++ "'"

/-- A plan that cannot be turned into a job graph. -/
inductive PlanFault where
  | noOperators
  | misplaced (position : Nat) (id : Nat)
  | unknownInput (id : Nat) (name : String) (input : Nat)
  | inputCount (id : Nat) (name : String) (count : Nat)
  | keyListCount (id : Nat) (name : String) (lists inputs : Nat)
  | inputWithoutKeys (id : Nat) (name : String)
  | keyWidths (id : Nat) (name : String)
  | noCalls (id : Nat)
  | storeIsRead (id consumer : Nat)
  | feedsNoStore (id : Nat) (name : String)
  | cycle
  | sharedGroup (id group : Nat)
  | notAfterGroup (id : Nat)
  | lacksInput (id : Nat) (name : String) (position : Nat)
deriving DecidableEq, Repr

def operatorLabel (id : Nat) (name : String) : String := opLabel id ++ " (" ++ name ++ ")"

def PlanFault.message : PlanFault → String
  | .noOperators => "plan has no operators"
  | .misplaced position id =>
    "operator at position " ++ toString position ++ " carries id " ++ opLabel id
  | .unknownInput id name input =>
    operatorLabel id name ++ " reads unknown operator " ++ opLabel input
  | .inputCount id name count =>
    operatorLabel id name ++ " has unsupported input count " ++ toString count
  | .keyListCount id name lists inputs =>
    operatorLabel id name ++ " has " ++ toString lists ++ " key lists for " ++ toString inputs ++ " inputs"
  | .inputWithoutKeys id name => operatorLabel id name ++ " has an input without keys"
  | .keyWidths id name => operatorLabel id name ++ " key lists differ in width"
  | .noCalls id => operatorLabel id "aggregate" ++ " has no calls"
  | .storeIsRead id consumer => operatorLabel id "store" ++ " is read by " ++ opLabel consumer
  | .feedsNoStore id name => operatorLabel id name ++ " feeds no store"
  | .cycle => "plan contains a cycle"
  | .sharedGroup id group =>
    operatorLabel id "aggregate" ++ " reads " ++ opLabel group ++
      ", a group with more than one consumer; give each aggregate its own group"
  | .notAfterGroup id => operatorLabel id "aggregate" ++ " must directly follow a group"
  | .lacksInput id name position => operatorLabel id name ++ " lacks input " ++ toString position

/-- A node that an optimization pass cannot treat. -/
inductive PassFault where
  | noFinalRearrange (node : Nat)
  | combineWithoutRearrange (node : Nat)
  | indexExceeds (node : Nat) (index inputs : Nat)
  | fedTwice (node : Nat) (index : Nat)
  | neverFed (node : Nat) (index : Nat)
  | combineStreams (node : Nat)
  | flattenMismatch (node : Nat) (inputs flattened : Nat)
  | noFlatten (node : Nat)
deriving DecidableEq, Repr

def PassFault.pass : PassFault → String
  | .noFinalRearrange .. => "combiner"
  | .combineWithoutRearrange .. | .indexExceeds .. | .fedTwice .. | .neverFed .. => "package-annotation"
  | .combineStreams .. => "stream-detection"
  | .flattenMismatch .. | .noFlatten .. => "last-input-streaming"

/-- What a pass found, after the name of the node. -/
def PassFault.finding : PassFault → String
  | .noFinalRearrange _ => "map branch does not end in a rearrange"
  | .combineWithoutRearrange _ => "combine plan has no rearrange"
  | .indexExceeds _ index inputs =>
    "rearrange index " ++ toString index ++ " exceeds " ++ toString inputs ++ " package inputs"
  | .fedTwice _ index => "package input " ++ toString index ++ " is fed twice"
  | .neverFed _ index => "package input " ++ toString index ++ " is never fed"
  | .combineStreams _ => "combine plan may not run an external command"
  | .flattenMismatch _ inputs flattened =>
    "join package has " ++ toString inputs ++ " inputs but flatten covers " ++ toString flattened
  | .noFlatten _ => "join package is not followed by a flatten"

def PassFault.node : PassFault → Nat
  | .noFinalRearrange node | .combineWithoutRearrange node
  | .indexExceeds node .. | .fedTwice node _ | .neverFed node _ | .combineStreams node
  | .flattenMismatch node .. | .noFlatten node => node

/-- A ready node that cannot be made into a job. -/
inductive JobFault where
  | config (fault : ConfigFault)
  | outputWithoutLocation
  | readsIncomplete (producer : Nat)
  | inputWithoutLocation
  | combineChunkZero
  | chunkSizeUnresolved (key : String)
  | other (reason : String)
deriving DecidableEq, Repr

/-- How a configuration fault reads on its own. -/
def configMessage (fault : ConfigFault) : String := "Invalid configuration: " ++ fault.message

def JobFault.message : JobFault → String
  | .config fault => configMessage fault
  | .outputWithoutLocation => "output has no location"
  | .readsIncomplete producer => "reads " ++ nodeLabel producer ++ ", which has not completed"
  | .inputWithoutLocation => "map input has no location"
  | .combineChunkZero => "combine chunk size must be positive"
  | .chunkSizeUnresolved key => key ++ " did not resolve to a positive number"
  | .other reason => reason

/-- Why the output of a job is not committed or discarded. `text` is what the file system says. -/
inductive CommitFault where
  | stagingMissing (path : String)
  | destinationExists (path : String)
  | removeStale (path text : String)
  | createParent (path text : String)
  | rename (path text : String)
  | removeTemporary (path text : String)
  | other (reason : String)
deriving DecidableEq, Repr

def CommitFault.message : CommitFault → String
  | .stagingMissing path => "staging output " ++ path ++ " is missing"
  | .destinationExists path => "destination " ++ path ++ " already exists"
  | .removeStale path text => "remove stale " ++ path ++ ": " ++ text
  | .createParent path text => "create " ++ path ++ ": " ++ text
  | .rename path text => "rename to " ++ path ++ ": " ++ text
  | .removeTemporary path text => "remove temporary " ++ path ++ ": " ++ text
  | .other reason => reason

/-- A broken promise between the parts of the planner and the launcher. -/
inductive InvariantFault where
  | vanished (id : Nat)
  | draftGone (slot : Nat)
  | visitedLate (input consumer : Nat)
  | noBranch
  | closedDraft (id : Nat)
  | mergedTwice (slot : Nat)
  | noOutput (node : Nat)
  | mergedAway (node : Nat)
  | misplacedNode (position : Nat) (id : Nat)
  | danglingEdge (source target : Nat)
  | graphCycle
  | missingNode (id : Nat)
  | counter
  | noneReady (left : Nat)
  | waveCommitted (seq : Nat)
deriving DecidableEq, Repr

def InvariantFault.message : InvariantFault → String
  | .vanished id => opLabel id ++ " vanished from plan"
  | .draftGone slot => "draft node " ++ toString slot ++ " is gone"
  | .visitedLate input consumer =>
    opLabel input ++ " visited after its consumer " ++ opLabel consumer
  | .noBranch => "map-phase draft without branch"
  | .closedDraft id => opLabel id ++ " appended to a closed node"
  | .mergedTwice slot => "draft node " ++ toString slot ++ " merged twice"
  | .noOutput node => nodeLabel node ++ " was left without an output"
  | .mergedAway node => nodeLabel node ++ " reads a merged-away node"
  | .misplacedNode position id =>
    "node at position " ++ toString position ++ " carries id " ++ nodeLabel id
  | .danglingEdge source target =>
    "edge " ++ nodeLabel source ++ " -> " ++ nodeLabel target ++ " references a missing node"
  | .graphCycle => "job graph contains a cycle"
  | .missingNode id => nodeLabel id ++ " missing from job graph"
  | .counter => "edge counters do not match the edges"
  | .noneReady left =>
    toString left ++ " nodes left but none is ready; commit the previous wave first"
  | .waveCommitted seq => "wave " ++ toString seq ++ " was already committed"

/-- What callers tell apart. -/
inductive ErrorKind where
  | config | planCompilation | optimization | jobCreation | commit | invariant
deriving DecidableEq, Repr

/-- A failure of planning or running. Jobs that fail on the cluster are no errors but outcomes. -/
inductive Error where
  | config (fault : ConfigFault)
  | plan (fault : PlanFault)
  | pass (fault : PassFault)
  | job (node : Nat) (fault : JobFault)
  | commit (job : String) (fault : CommitFault)
  | invariant (fault : InvariantFault)
deriving DecidableEq, Repr

def Error.kind : Error → ErrorKind
  | .config _ => .config
  | .plan _ => .planCompilation
  | .pass _ => .optimization
  | .job .. => .jobCreation
  | .commit .. => .commit
  | .invariant _ => .invariant

def Error.message : Error → String
  | .config fault => configMessage fault
  | .plan fault => "Plan compilation error: " ++ fault.message
  | .pass fault => "Optimization error in pass '" ++ fault.pass ++ "': " ++
      nodeLabel fault.node ++ ": " ++ fault.finding
  | .job node fault => "Job creation error for " ++ nodeLabel node ++ ": " ++ fault.message
  | .commit name fault => "Commit failed for job '" ++ name ++ "': " ++ fault.message
  | .invariant fault => "Internal invariant failed: " ++ fault.message

end Wavefront
