import Wavefront.Json.Decode
set_option autoImplicit false

/-!
What jobs report when they have ended, and the totals of a run. The counters are machine words, and so are
their totals.
-/
namespace Wavefront

/-- What a job reports. -/
structure JobStats where
  job : Nat
  nodes : List Nat
  mapTasks : UInt32
  reduceTasks : UInt32
  recordsIn : UInt64
  recordsOut : UInt64
  bytesWritten : UInt64
  durationMs : UInt64
deriving DecidableEq

namespace JobStats

def toJson (s : JobStats) : Json :=
  .obj [("job", Json.nat s.job), ("nodes", Json.list Json.nat s.nodes),
    ("map_tasks", Json.nat s.mapTasks.toNat), ("reduce_tasks", Json.nat s.reduceTasks.toNat),
    ("records_in", Json.nat s.recordsIn.toNat), ("records_out", Json.nat s.recordsOut.toNat),
    ("bytes_written", Json.nat s.bytesWritten.toNat), ("duration_ms", Json.nat s.durationMs.toNat)]

def ofJson? (j : Json) : Option JobStats := do
  let members ← Json.record? ["job", "nodes", "map_tasks", "reduce_tasks", "records_in", "records_out",
    "bytes_written", "duration_ms"] j
  let word (name : String) : Option UInt64 := (Json.field? members name Json.word?).map .ofNat
  let halfWord (name : String) : Option UInt32 := (Json.field? members name Json.halfWord?).map .ofNat
  return {
    job := ← Json.field? members "job" Json.word?
    nodes := ← Json.field? members "nodes" (Json.list? Json.word?)
    mapTasks := ← halfWord "map_tasks"
    reduceTasks := ← halfWord "reduce_tasks"
    recordsIn := ← word "records_in"
    recordsOut := ← word "records_out"
    bytesWritten := ← word "bytes_written"
    durationMs := ← word "duration_ms" }

end JobStats

structure RunSummary where
  jobs : Nat
  failedJobs : Nat
  mapTasks : UInt64
  reduceTasks : UInt64
  recordsIn : UInt64
  recordsOut : UInt64
  bytesWritten : UInt64
  durationMs : UInt64
deriving DecidableEq

namespace RunSummary

def start (jobs failedJobs : Nat) : RunSummary := ⟨jobs, failedJobs, 0, 0, 0, 0, 0, 0⟩

def add (t : RunSummary) (s : JobStats) : RunSummary :=
  { t with
    mapTasks := t.mapTasks + s.mapTasks.toUInt64
    reduceTasks := t.reduceTasks + s.reduceTasks.toUInt64
    recordsIn := t.recordsIn + s.recordsIn
    recordsOut := t.recordsOut + s.recordsOut
    bytesWritten := t.bytesWritten + s.bytesWritten
    durationMs := t.durationMs + s.durationMs }

def toJson (t : RunSummary) : Json :=
  .obj [("jobs", Json.nat t.jobs), ("failed_jobs", Json.nat t.failedJobs),
    ("map_tasks", Json.nat t.mapTasks.toNat), ("reduce_tasks", Json.nat t.reduceTasks.toNat),
    ("records_in", Json.nat t.recordsIn.toNat), ("records_out", Json.nat t.recordsOut.toNat),
    ("bytes_written", Json.nat t.bytesWritten.toNat), ("duration_ms", Json.nat t.durationMs.toNat)]

end RunSummary

end Wavefront
