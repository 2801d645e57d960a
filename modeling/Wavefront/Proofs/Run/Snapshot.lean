import Wavefront.Proofs.Config.Flattening
import Wavefront.Proofs.Files.Places
import Wavefront.Proofs.Optimization.Idempotence
import Wavefront.Proofs.Optimization.Locations
set_option autoImplicit false

/-!
What a job is told. The snapshot of a job looks a property up in what the job says itself, then in the
settings of the run, and last in the extra properties. What the job says is what has become of its node:
the passes have marked the external commands, and the draft has given reduce tasks to what is shuffled.
Main statement: the snapshots of the jobs of a compiled graph resolve in this order and read back.
-/
namespace Wavefront

open Optimization (Marked)

/-- The setting of a key, as the configuration itself says it. -/
def RunConfig.own? (c : RunConfig) (key : String) : Option String := (Setting.ofKey? key).bind c.text?

namespace Node

/-- What the job of a node in a compiled graph says itself, where it says anything. -/
def jobTexts (n : Node) (c : RunConfig) (group : String) : List (String × Option String) :=
  [("job.name", some (group ++ "-node-" ++ toString n.id)),
    ("job.group", some group),
    ("job.nodes", some ("node-" ++ toString n.id)),
    ("exec.speculative", some (if n.ops.any LocalOp.isStream then "false" else "true")),
    ("exec.reduce.tasks",
      some (toString (if n.reduce = [] then 0 else c.cluster.defaultParallelism.toNat))),
    ("exec.combine.chunksize", n.combine.map fun _ => toString c.lastInputChunkSize.toNat)]

def jobText? (n : Node) (c : RunConfig) (group key : String) : Option String :=
  ((n.jobTexts c group).lookup key).join

/-- A node has the marks, the reduce tasks and the chunk size that its job is to have. -/
structure Prepared (n : Node) (c : RunConfig) : Prop where
  marked : n.annotations.stream.any = n.ops.any LocalOp.isStream
  tasks : n.reduceTasks = if n.reduce = [] then 0 else c.cluster.defaultParallelism.toNat
  pieces : ∀ combine ∈ n.combine, combine.chunkSize = c.lastInputChunkSize.toNat

end Node

/-- How the properties of the job of a node are found, and what is read of them. -/
structure Snapshot.Resolves (s : Snapshot) (c : RunConfig) (n : Node) (group : String) : Prop where
  looksUp : ∀ key, s.get? key =
    (n.jobText? c group key).or ((c.own? key).or (c.properties.get? key))
  absent : ∀ key, s.get? key = none ↔
    n.jobText? c group key = none ∧ c.own? key = none ∧ c.properties.get? key = none
  speculative : ∃ twice, s.switch? "exec.speculative" = some twice ∧
    (twice = false ↔ ∃ command schema, .stream command schema ∈ n.ops)
  tasks : ∃ count, s.number? "exec.reduce.tasks" = some count ∧ (count = 0 ↔ n.reduce = [])
  combined : n.combine.isSome = true →
    s.number? "exec.combine.chunksize" = some c.lastInputChunkSize.toNat
  streamed : s.number? "last.input.chunksize" = some c.lastInputChunkSize.toNat
  positive : 0 < c.lastInputChunkSize.toNat

theorem LocalOp.any_isStream {ops : List LocalOp} :
    ops.any LocalOp.isStream = true ↔ ∃ command schema, .stream command schema ∈ ops := by
  rw [List.any_eq_true]
  constructor
  · rintro ⟨op, member, runs⟩
    cases op <;> cases runs
    exact ⟨_, _, member⟩
  · intro ⟨command, schema, member⟩
    exact ⟨_, member, rfl⟩

namespace RunConfig

variable {c : RunConfig}

theorem defaultParallelism_ne_zero (valid : c.validate = .ok ()) :
    c.cluster.defaultParallelism.toNat ≠ 0 := by
  intro zero
  have is : c.cluster.defaultParallelism = 0 := UInt32.toNat_inj.mp zero
  simp only [validate, is] at valid
  split at valid
  · cases valid
  · split at valid <;> cases valid

theorem get?_toProperties_eq_or (c : RunConfig) (key : String) :
    c.toProperties.get? key = (c.own? key).or (c.properties.get? key) := by
  rw [own?]
  cases owner : Setting.ofKey? key with
  | some s =>
    obtain rfl := Setting.key_of_ofKey? owner
    exact c.get?_toProperties s
  | none => exact c.get?_toProperties_of_free owner

end RunConfig

namespace Node

variable {n : Node} {c : RunConfig} {group : String}

theorem distinct_jobProperties (n : Node) (group : String) :
    ((n.jobProperties group).map Prod.fst).Nodup := by
  rw [jobProperties]
  cases n.combine with
  | none =>
    show ["job.name", "job.group", "job.nodes", "exec.speculative", "exec.reduce.tasks"].Nodup
    decide
  | some combine =>
    show ["job.name", "job.group", "job.nodes", "exec.speculative", "exec.reduce.tasks",
      "exec.combine.chunksize"].Nodup
    decide

/-- What is written into the snapshot of a prepared node is what its job is to say. -/
theorem Prepared.lookup_jobProperties (prepared : n.Prepared c) (key : String) :
    (n.jobProperties group).lookup key = n.jobText? c group key := by
  have spared : switchText (!n.annotations.stream.any) =
      if n.ops.any LocalOp.isStream then "false" else "true" := by
    rw [prepared.marked]
    cases n.ops.any LocalOp.isStream <;> rfl
  have pieces : (n.combine.map fun combine => toString combine.chunkSize) =
      n.combine.map fun _ => toString c.lastInputChunkSize.toNat := by
    apply Option.map_congr
    intro combine some
    rw [prepared.pieces combine some]
  have name : Location.jobName group n.id = group ++ "-node-" ++ toString n.id := by
    rw [Location.jobName_eq, String.append_assoc]
  have last : (n.combine.map fun combine =>
        (Snapshot.combineChunkSize, toString combine.chunkSize)).toList.lookup key =
      if key = "exec.combine.chunksize" then n.combine.map fun _ => toString c.lastInputChunkSize.toNat
        else none := by
    rw [← pieces]
    cases n.combine with
    | none => simp
    | some combine => exact lookup_cons_ite _ _ _ []
  rw [jobProperties, List.lookup_append, last, spared, name, prepared.tasks]
  simp only [jobText?, jobTexts, lookup_cons_ite, List.lookup_nil, Snapshot.jobName, Snapshot.jobGroup,
    Snapshot.jobNodes, Snapshot.speculative, Snapshot.reduceTasks, nodeLabel]
  -- A key is one of the six, which exclude each other, or none of them.
  split_ifs <;> rfl

theorem Prepared.get?_snapshot (prepared : n.Prepared c) (key : String) :
    (n.snapshot c group).get? key =
      (n.jobText? c group key).or ((c.own? key).or (c.properties.get? key)) := by
  rw [snapshot, Properties.get?_insertAll, lookup_reverse (n.distinct_jobProperties group),
    prepared.lookup_jobProperties, c.get?_toProperties_eq_or]

/-- What the snapshot of a prepared node spells can be read. -/
theorem Prepared.snapshot_resolves (prepared : n.Prepared c) (valid : c.validate = .ok ()) :
    (n.snapshot c group).Resolves c n group := by
  have own (key text : String) (told : n.jobText? c group key = some text) :
      (n.snapshot c group).get? key = some text := by
    rw [prepared.get?_snapshot, told, Option.some_or]
  have positive := RunConfig.lastInputChunkSize_ne_zero valid
  have parallel := RunConfig.defaultParallelism_ne_zero valid
  have chunk := c.lastInputChunkSize.toNat_lt
  have fits := c.cluster.defaultParallelism.toNat_lt
  refine ⟨prepared.get?_snapshot, fun key => ?_, ?_, ?_, fun combines => ?_, n.number?_snapshot c group,
    by omega⟩
  · rw [prepared.get?_snapshot, Option.or_eq_none_iff, Option.or_eq_none_iff]
  · refine ⟨!n.ops.any LocalOp.isStream, ?_, by simp [← LocalOp.any_isStream]⟩
    rw [Snapshot.switch?, own _ _ rfl, Option.bind_some]
    cases n.ops.any LocalOp.isStream <;> decide
  · refine ⟨if n.reduce = [] then 0 else c.cluster.defaultParallelism.toNat, ?_, ?_⟩
    · rw [Snapshot.number?, own _ _ rfl, Option.bind_some]
      apply Text.numeral?_toString
      split
      · decide
      · exact Nat.lt_trans fits (by decide)
    · split <;> simp [*]
  · obtain ⟨combine, some⟩ := Option.isSome_iff_exists.mp combines
    have told : n.jobText? c group "exec.combine.chunksize" =
        Option.some (toString c.lastInputChunkSize.toNat) := by
      rw [jobText?, jobTexts, some]
      rfl
    rw [Snapshot.number?, own _ _ told, Option.bind_some]
    exact Text.numeral?_toString chunk

theorem any_stream_of_marked (marked : Marked n) :
    n.annotations.stream.any = n.ops.any LocalOp.isStream := by
  rw [marked.stream, StreamMarker.any, Optimization.streamMarker, ops, List.any_append, List.any_append,
    marked.clean, List.any_flatMap]

end Node

namespace Plan

variable {p : Plan} {config : RunConfig} {g : Graph}

theorem finished_of_compile (compiled : p.compile config = .ok g) :
    ∀ n ∈ g.nodes, Optimization.Finished (!config.disableCombiner) n := by
  obtain ⟨g₀, _, through⟩ := Traversal.bind_eq_ok.mp compiled
  exact (Pass.finished_of_pipeline (Revision.toExcept_eq_ok.mp through)).1

/-- What is shuffled has the reduce tasks of the configuration, and no other node has any. -/
theorem parallelism_of_compile (compiled : p.compile config = .ok g) :
    ∀ n ∈ g.nodes, n.parallelism =
      if n.reduce.isEmpty then none else some config.cluster.defaultParallelism.toNat := by
  obtain ⟨g₀, nodes, made, rfl, each⟩ := optimized_of_compile compiled
  obtain ⟨order, s, _, _, rfl⟩ := reached_of_toGraph made
  intro m member
  obtain ⟨n, before, optimized⟩ := Traversal.exists_of_forall₂ each.flip member
  have drafted := Drafting.State.parallelism_eq before
  cases optimized with
  | mapOnly => exact drafted
  | combined _ _ _ _ reduce | streamed _ _ _ reduce | annotated _ _ _ reduce =>
    rw [reduce] at drafted
    exact drafted

theorem prepared_of_compile (compiled : p.compile config = .ok g) {n : Node} (member : n ∈ g.nodes) :
    n.Prepared config := by
  refine ⟨Node.any_stream_of_marked (finished_of_compile compiled n member).marked, ?_,
    (located_of_compile compiled).pieces n member⟩
  rw [Node.reduceTasks, parallelism_of_compile compiled n member]
  cases n.reduce <;> rfl

/-- The snapshots of the jobs of a wave resolve in a fixed order and tell what has become of their nodes,
whatever the extra properties are called. -/
theorem snapshots_resolve (compiled : p.compile config = .ok g) {s s' : Schedule} {group : String}
    {wave : Wave} (found : s.next config g group = .ok (some (wave, s'))) :
    ∀ job ∈ wave.jobs, ∃ n ∈ g.nodes, job.nodes = [n.id] ∧ job.config.Resolves config n group := by
  obtain ⟨_, _, made, _⟩ := Schedule.next_made found
  intro job member
  obtain ⟨node, _, n, there, is⟩ := Traversal.exists_of_forall₂ (Schedule.jobs_made made).2.flip member
  have among := List.mem_of_getElem? there
  rw [is]
  exact ⟨n, among, rfl, (prepared_of_compile compiled among).snapshot_resolves (validate_of_compile compiled)⟩

end Plan

/-- Visits as a command writes them, counted by browser on both sides of the shuffle. -/
def Plan.browserCounts : Plan := ⟨[
  ⟨0, .load "visits" none, []⟩,
  ⟨1, .stream "browsers" none, [0]⟩,
  ⟨2, .group ["browser"], [1]⟩,
  ⟨3, .aggregate [⟨.count, none, "visits"⟩], [2]⟩,
  ⟨4, .store "counts" "json", [3]⟩]⟩

/-- Extra properties under the keys of a job and of settings, and one under a key of its own. -/
def RunConfig.shadowed : RunConfig :=
  { RunConfig.standard with
    properties := .ofList [("job.name", "mine"), ("exec.combine.chunksize", "7"),
      ("last.input.chunksize", "0"), ("cluster.queue", "night"), ("user.tag", "x")] }

/-- The only job of the plan hides the properties of its keys and of the settings that have a text. -/
theorem Plan.snapshots_resolve_browserCounts : ∃ g s' wave job,
    browserCounts.compile .shadowed = .ok g ∧
    Schedule.start.next .shadowed g "run" = .ok (some (wave, s')) ∧ wave.jobs = [job] ∧
    (["job.name", "exec.speculative", "exec.combine.chunksize", "last.input.chunksize", "cluster.queue",
      "user.tag", "user"].map fun key => job.config.get? key) =
      [some "run-node-0", some "false", some "1000", some "1000", some "night", some "x", none] ∧
    ∃ n ∈ g.nodes, job.nodes = [n.id] ∧ job.config.Resolves .shadowed n "run" := by
  obtain ⟨g, s', wave, job, compiled, found, only, texts⟩ : ∃ g s' wave job,
      browserCounts.compile .shadowed = .ok g ∧
      Schedule.start.next .shadowed g "run" = .ok (some (wave, s')) ∧ wave.jobs = [job] ∧
      (["job.name", "exec.speculative", "exec.combine.chunksize", "last.input.chunksize", "cluster.queue",
        "user.tag", "user"].map fun key => job.config.get? key) =
        [some "run-node-0", some "false", some "1000", some "1000", some "night", some "x", none] :=
    ⟨_, _, _, _, rfl, rfl, rfl, by decide +kernel⟩
  exact ⟨g, s', wave, job, compiled, found, only, texts,
    snapshots_resolve compiled found job (by rw [only]; exact List.mem_singleton_self job)⟩

end Wavefront
