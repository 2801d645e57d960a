import Wavefront.Error
import Wavefront.Graph.Node
import Wavefront.Location
import Wavefront.Run.Job
import Wavefront.SortedSet
set_option autoImplicit false

/-!
Jobs from nodes. A node becomes a job once what it reads is complete; the job carries a snapshot of the
configuration, in which what the job itself says wins over the configuration of the run.
-/
namespace Wavefront

namespace Snapshot

def jobName : String := "job.name"

def jobGroup : String := "job.group"

def jobNodes : String := "job.nodes"

/-- The property that lets tasks run twice. An external command must not. -/
def speculative : String := "exec.speculative"

/-- The property that holds the number of reduce tasks. -/
def reduceTasks : String := "exec.reduce.tasks"

/-- The property that holds how many records a combiner takes at a time. -/
def combineChunkSize : String := "exec.combine.chunksize"

end Snapshot

namespace Node

def reduceTasks (n : Node) : Nat := n.parallelism.getD 0

/-- The properties that the job of a node sets itself. -/
def jobProperties (n : Node) (group : String) : List (String × String) :=
  [(Snapshot.jobName, Location.jobName group n.id), (Snapshot.jobGroup, group),
    (Snapshot.jobNodes, nodeLabel n.id),
    (Snapshot.speculative, switchText !n.annotations.stream.any),
    (Snapshot.reduceTasks, toString n.reduceTasks)] ++
  (n.combine.map fun combine => (Snapshot.combineChunkSize, toString combine.chunkSize)).toList

def snapshot (n : Node) (c : RunConfig) (group : String) : Snapshot :=
  c.toProperties.insertAll (n.jobProperties group)

/-- The first node that is read but has not completed. -/
def incomplete? (n : Node) (completed : SortedSet Nat) : Option Nat :=
  n.producers.find? fun producer => !completed.contains producer

/-- What keeps a node from becoming a job. -/
def jobFault? (n : Node) (c : RunConfig) (completed : SortedSet Nat) (group : String) : Option JobFault :=
  if let .error fault := c.validate then some (.config fault)
  else if n.output.location.isEmpty then some .outputWithoutLocation
  else if let some producer := n.incomplete? completed then some (.readsIncomplete producer)
  else if n.map.any fun branch => branch.source.location.isEmpty then some .inputWithoutLocation
  else if n.combine.any fun combine => combine.chunkSize == 0 then some .combineChunkZero
  else if ((n.snapshot c group).number? Setting.lastInputChunkSize.key).getD 0 = 0 then
    some (.chunkSizeUnresolved Setting.lastInputChunkSize.key)
  else none

def job (n : Node) (c : RunConfig) (scope group : String) (id : Nat) : Job where
  id := id
  name := Location.jobName group n.id
  group := group
  nodes := [n.id]
  inputs := n.map.map fun branch => branch.source.location
  staging := Location.staging c.tempDir scope group n.id
  destination := n.output.location
  temporary := n.output.isTemporary
  reduceTasks := n.reduceTasks
  config := n.snapshot c group

def materialize (n : Node) (c : RunConfig) (scope : String) (completed : SortedSet Nat) (group : String)
    (id : Nat) : Except Error Job :=
  match n.jobFault? c completed group with
  | some fault => .error (.job n.id fault)
  | none => .ok (n.job c scope group id)

end Node

end Wavefront
