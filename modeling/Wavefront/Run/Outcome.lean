import Wavefront.Json.Decode
import Wavefront.Json.Printer
import Wavefront.Run.Job
import Wavefront.Run.RunId
import Wavefront.Run.Stats
set_option autoImplicit false

/-!
The outcome of a run: a record for every job that was submitted, the waves, the progress at every look
and the lines that were logged.
-/
namespace Wavefront

/-- What became of a job. -/
structure JobRecord where
  job : Nat
  name : String
  nodes : List Nat
  status : JobStatus
  /-- What a job that has not succeeded says. -/
  message : Option String
  /-- Filled for all jobs of a run that succeeds, and for the failed jobs of one that fails. -/
  stats : Option JobStats
deriving DecidableEq

namespace JobRecord

def ofJob (job : Job) (status : JobStatus) (message : Option String) : JobRecord :=
  ⟨job.id, job.name, job.nodes, status, message, none⟩

def toJson (r : JobRecord) : Json :=
  .obj [("job", Json.nat r.job), ("name", .str r.name), ("nodes", Json.list Json.nat r.nodes),
    ("status", r.status.toJson), ("message", Json.option .str r.message),
    ("stats", Json.option JobStats.toJson r.stats)]

def ofJson? (j : Json) : Option JobRecord := do
  let members ← Json.record? ["job", "name", "nodes", "status", "message", "stats"] j
  return {
    job := ← Json.field? members "job" Json.word?
    name := ← Json.field? members "name" Json.text?
    nodes := ← Json.field? members "nodes" (Json.list? Json.word?)
    status := ← Json.field? members "status" JobStatus.ofJson?
    message := ← Json.optional? members "message" Json.text?
    stats := ← Json.optional? members "stats" JobStats.ofJson? }

def failureLine (r : JobRecord) : String :=
  r.name ++ " (" ++ jobLabel r.job ++ ") failed: " ++ r.message.getD "no diagnostic reported"

end JobRecord

structure Outcome (α : Type) where
  group : String
  succeeded : Bool
  successful : List JobRecord
  failed : List JobRecord
  /-- The jobs of each wave. -/
  waves : List (List Nat)
  /-- The progress at every look at the cluster. -/
  progress : List α
  lines : List String

namespace Outcome

def summary {α : Type} (o : Outcome α) : RunSummary :=
  ((o.successful ++ o.failed).filterMap JobRecord.stats).foldl RunSummary.add
    (.start (o.successful.length + o.failed.length) o.failed.length)

/-- The document form of the outcome of a run of a number. -/
def toJson (run : RunId) (o : Outcome Float) : Json :=
  .obj [("run_id", .str run.text), ("group_id", .str o.group), ("succeeded", .bool o.succeeded),
    ("successful", Json.list JobRecord.toJson o.successful),
    ("failed", Json.list JobRecord.toJson o.failed),
    ("waves", Json.list (Json.list Json.nat) o.waves),
    ("progress", Json.list (fun x => .num (.float x)) o.progress), ("lines", Json.strings o.lines)]

/-- The document of the outcome, one member a line. -/
def pretty (run : RunId) (o : Outcome Float) : String := (o.toJson run).pretty

/-- Reads the document form of an outcome, and the number of its run. -/
def ofJson? (j : Json) : Option (RunId × Outcome Float) := do
  let members ← Json.record? ["run_id", "group_id", "succeeded", "successful", "failed", "waves",
    "progress", "lines"] j
  let run ← Json.field? members "run_id" fun j => j.text?.bind RunId.ofText?
  return (run, {
    group := ← Json.field? members "group_id" Json.text?
    succeeded := ← Json.field? members "succeeded" Json.bool?
    successful := ← Json.field? members "successful" (Json.list? JobRecord.ofJson?)
    failed := ← Json.field? members "failed" (Json.list? JobRecord.ofJson?)
    waves := ← Json.field? members "waves" (Json.list? (Json.list? Json.word?))
    progress := ← Json.field? members "progress" (Json.list? Json.float?)
    lines := ← Json.field? members "lines" Json.strings? })

end Outcome

end Wavefront
