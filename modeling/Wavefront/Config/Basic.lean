import Wavefront.Error
import Wavefront.Json.Decode
import Wavefront.Properties
import Wavefront.Text.Blank
set_option autoImplicit false

/-!
The configuration of a run. Every switch that changes how a plan is compiled or run is a field of
`RunConfig`; `validate` refuses the configurations that no run can use.
-/
namespace Wavefront

/-- How the cluster is reached, and how many reducers a shuffle gets where nothing else is said. -/
structure ClusterConfig where
  jobTracker : Option String
  defaultFs : Option String
  queue : Option String
  defaultParallelism : UInt32
deriving DecidableEq

structure RunConfig where
  /-- How many records a streamed join or a combiner holds at a time. -/
  lastInputChunkSize : UInt64
  /-- Keeps combiners out of the job graph. -/
  disableCombiner : Bool
  /-- The pause between two looks at a running wave. -/
  pollIntervalMs : UInt64
  /-- Where temporary and staging outputs live. -/
  tempDir : String
  cluster : ClusterConfig
  /-- Properties that are handed to every job as they are. -/
  properties : Properties
deriving DecidableEq

namespace ClusterConfig

/-- A cluster of which nothing is known, with one reducer a shuffle. -/
def standard : ClusterConfig := ⟨none, none, none, 1⟩

def toJson (c : ClusterConfig) : Json :=
  .obj [("job_tracker", Json.option .str c.jobTracker), ("default_fs", Json.option .str c.defaultFs),
    ("queue", Json.option .str c.queue), ("default_parallelism", Json.nat c.defaultParallelism.toNat)]

def ofJson? (j : Json) : Option ClusterConfig := do
  let members ← Json.record? ["job_tracker", "default_fs", "queue", "default_parallelism"] j
  return {
    jobTracker := ← Json.optional? members "job_tracker" Json.text?
    defaultFs := ← Json.optional? members "default_fs" Json.text?
    queue := ← Json.optional? members "queue" Json.text?
    defaultParallelism := .ofNat (← Json.field? members "default_parallelism" Json.halfWord?) }

end ClusterConfig

namespace RunConfig

/-- The configuration that holds where nothing is set. -/
def standard : RunConfig :=
  ⟨1000, false, 500, "/tmp/jobwave", ClusterConfig.standard, Properties.empty⟩

def toJson (c : RunConfig) : Json :=
  .obj [("last_input_chunk_size", Json.nat c.lastInputChunkSize.toNat),
    ("disable_combiner", .bool c.disableCombiner), ("poll_interval_ms", Json.nat c.pollIntervalMs.toNat),
    ("temp_dir", .str c.tempDir), ("cluster", c.cluster.toJson), ("properties", c.properties.toJson)]

/-- Reads the document form of a configuration; the extra properties may be left out. -/
def ofJson? (j : Json) : Option RunConfig := do
  let members ← Json.recordUpTo? 1
    ["last_input_chunk_size", "disable_combiner", "poll_interval_ms", "temp_dir", "cluster", "properties"] j
  return {
    lastInputChunkSize := .ofNat (← Json.field? members "last_input_chunk_size" Json.word?)
    disableCombiner := ← Json.field? members "disable_combiner" Json.bool?
    pollIntervalMs := .ofNat (← Json.field? members "poll_interval_ms" Json.word?)
    tempDir := ← Json.field? members "temp_dir" Json.text?
    cluster := ← Json.field? members "cluster" ClusterConfig.ofJson?
    properties := ← Json.withDefault? members "properties" Properties.ofJson? Properties.empty }

end RunConfig

end Wavefront
