import Wavefront.Config.Setting
set_option autoImplicit false

/-!
Jobs and waves. A job is a node of a job graph made ready for the cluster; the jobs that can run at the
same time make a wave.
-/
namespace Wavefront

/-- How far a job has come. -/
inductive JobStatus where
  | waiting | running | succeeded | failed
deriving DecidableEq, Repr

namespace JobStatus

def all : List JobStatus := [.waiting, .running, .succeeded, .failed]

def name : JobStatus → String
  | .waiting => "Waiting"
  | .running => "Running"
  | .succeeded => "Succeeded"
  | .failed => "Failed"

def isTerminal : JobStatus → Bool
  | .waiting | .running => false
  | .succeeded | .failed => true

def toJson (s : JobStatus) : Json := .str s.name

def ofJson? (j : Json) : Option JobStatus := Json.bareCase? (all.map fun s => (s.name, s)) false j

end JobStatus

structure Job where
  id : Nat
  /-- The group and the node, which no two jobs of a run share. -/
  name : String
  group : String
  /-- The nodes of the graph that the job runs. -/
  nodes : List Nat
  /-- What the map branches read, branch by branch. -/
  inputs : List String
  /-- Where the job writes. -/
  staging : String
  /-- Where its output is moved once it has succeeded. -/
  destination : String
  /-- Whether only later jobs read the output. -/
  temporary : Bool
  /-- Without reduce tasks there is no shuffle. -/
  reduceTasks : Nat
  config : Snapshot
deriving DecidableEq

namespace Job

/-- A map task for each input. -/
def mapTasks (j : Job) : Nat := j.inputs.length

def isMapOnly (j : Job) : Bool := j.reduceTasks == 0

end Job

/-- The jobs of one submission. -/
structure Wave where
  group : String
  /-- The waves of a run are numbered from zero. -/
  seq : Nat
  jobs : List Job
deriving DecidableEq

def Wave.jobIds (w : Wave) : List Nat := w.jobs.map Job.id

end Wavefront
