import Wavefront.Proofs.Lookup
import Wavefront.Proofs.Run.Readiness
set_option autoImplicit false

/-!
When nodes become jobs. What a job sets itself hides no setting of the run, so a valid configuration
always resolves to a chunk size. Main statement: a node becomes a job exactly if the configuration is
valid, what it reads is complete and nothing it asks for is empty; on a graph of such nodes a schedule
hands out all that is ready.
-/
namespace Wavefront

namespace Node

variable {n : Node} {c : RunConfig}

theorem key_ne_of_mem_jobProperties {group : String} {entry : String × String}
    (member : entry ∈ n.jobProperties group) (s : Setting) : s.key ≠ entry.1 := by
  have unknown : Setting.ofKey? entry.1 = none := by
    simp only [jobProperties, List.mem_append, List.mem_cons, List.not_mem_nil, or_false,
      Option.mem_toList, Option.map_eq_some_iff] at member
    rcases member with (rfl | rfl | rfl | rfl | rfl) | ⟨_, _, rfl⟩ <;> rfl
  intro same
  rw [← same, Setting.ofKey?_key] at unknown
  cases unknown

theorem get?_snapshot (n : Node) (c : RunConfig) (group : String) (s : Setting) :
    (n.snapshot c group).get? s.key = (c.text? s).or (c.properties.get? s.key) := by
  rw [snapshot, Properties.get?_insertAll_of_forall_ne _
    fun entry member => key_ne_of_mem_jobProperties member s, c.get?_toProperties]

theorem number?_snapshot (n : Node) (c : RunConfig) (group : String) :
    (n.snapshot c group).number? Setting.lastInputChunkSize.key =
      some c.lastInputChunkSize.toNat := by
  rw [Snapshot.number?, get?_snapshot]
  exact Text.numeral?_toString c.lastInputChunkSize.toNat_lt

theorem incomplete?_eq_none {completed : SortedSet Nat} : n.incomplete? completed = none ↔
    ∀ producer ∈ n.producers, producer ∈ completed.toList := by
  simp [incomplete?, SortedSet.contains]

end Node

theorem RunConfig.lastInputChunkSize_ne_zero {c : RunConfig} (valid : c.validate = .ok ()) :
    c.lastInputChunkSize.toNat ≠ 0 := by
  intro zero
  have is : c.lastInputChunkSize = 0 := UInt64.toNat_inj.mp zero
  simp [validate, is] at valid

theorem ite_some_eq_none {α : Type} {p : Prop} [Decidable p] {x : α} {other : Option α} :
    (if p then some x else other) = none ↔ ¬ p ∧ other = none := by
  by_cases holds : p <;> simp [holds]

/-- When a node becomes a job. -/
theorem Node.jobFault?_eq_none {n : Node} {c : RunConfig} {completed : SortedSet Nat} {group : String} :
    n.jobFault? c completed group = none ↔
      c.validate = .ok () ∧ n.output.location ≠ "" ∧
      (∀ producer ∈ n.producers, producer ∈ completed.toList) ∧
      (∀ branch ∈ n.map, branch.source.location ≠ "") ∧
      ∀ combine ∈ n.combine, combine.chunkSize ≠ 0 := by
  rw [← incomplete?_eq_none, jobFault?, number?_snapshot]
  cases valid : c.validate with
  | error fault => simp
  | ok _ =>
    have resolved := RunConfig.lastInputChunkSize_ne_zero valid
    cases n.incomplete? completed with
    | some producer => simp [ite_some_eq_none]
    | none => cases n.combine <;> simp [ite_some_eq_none, resolved]

/-- If all else is in order, only an empty location keeps a node from becoming a job. -/
theorem Node.jobFault?_of_empty {n : Node} {c : RunConfig} {completed : SortedSet Nat} {group : String}
    {fault : JobFault} (refused : n.jobFault? c completed group = some fault)
    (valid : c.validate = .ok ()) (supplied : ∀ producer ∈ n.producers, producer ∈ completed.toList)
    (chunks : ∀ combine ∈ n.combine, combine.chunkSize ≠ 0) :
    (fault = .outputWithoutLocation ∧ n.output.location = "") ∨
      (fault = .inputWithoutLocation ∧ ∃ branch ∈ n.map, branch.source.location = "") := by
  have resolved := RunConfig.lastInputChunkSize_ne_zero valid
  have whole : n.combine.any (fun combine => combine.chunkSize == 0) = false := by
    rw [Option.any_eq_false]
    simpa using chunks
  rw [jobFault?, number?_snapshot, valid, incomplete?_eq_none.mpr supplied, whole] at refused
  by_cases output : n.output.location = ""
  · simp [output] at refused
    exact .inl ⟨refused.symm, output⟩
  · by_cases input : ∃ branch ∈ n.map, branch.source.location = ""
    · simp [output, input] at refused
      exact .inr ⟨refused.symm, input⟩
    · simp [output, input, resolved] at refused

/-- All nodes of a graph can become jobs, once what they read is complete. -/
structure Graph.Materializes (g : Graph) (c : RunConfig) : Prop where
  config : c.validate = .ok ()
  outputs : ∀ n ∈ g.nodes, n.output.location ≠ ""
  inputs : ∀ n ∈ g.nodes, ∀ branch ∈ n.map, branch.source.location ≠ ""
  chunks : ∀ n ∈ g.nodes, ∀ combine ∈ n.combine, combine.chunkSize ≠ 0

/-- The jobs of some nodes, numbered in a row. -/
def Graph.jobs (g : Graph) (c : RunConfig) (group : String) (id : Nat) (nodes : List Node) : List Job :=
  (nodes.zipIdx id).map fun entry => entry.1.job c g.scope group entry.2

namespace Graph

variable (g : Graph) (c : RunConfig) (group : String)

theorem jobs_cons (id : Nat) (n : Node) (rest : List Node) :
    g.jobs c group id (n :: rest) = n.job c g.scope group id :: g.jobs c group (id + 1) rest := rfl

theorem jobs_append (id : Nat) (first second : List Node) :
    g.jobs c group id (first ++ second) =
      g.jobs c group id first ++ g.jobs c group (id + first.length) second := by
  rw [jobs, List.zipIdx_append, List.map_append]
  rfl

@[simp] theorem length_jobs (id : Nat) (nodes : List Node) :
    (g.jobs c group id nodes).length = nodes.length := by
  rw [jobs, List.length_map, List.length_zipIdx]

@[simp] theorem map_id_jobs (id : Nat) (nodes : List Node) :
    (g.jobs c group id nodes).map Job.id = List.range' id nodes.length := by
  rw [jobs, List.map_map]
  exact List.zipIdx_map_snd id nodes

@[simp] theorem map_nodes_jobs (id : Nat) (nodes : List Node) :
    (g.jobs c group id nodes).map Job.nodes = nodes.map fun n => [n.id] := by
  induction nodes generalizing id with
  | nil => rfl
  | cons n rest ih => rw [jobs_cons, List.map_cons, ih, List.map_cons]; rfl

variable {g c group}

theorem exists_node_of_mem_jobs {id : Nat} {nodes : List Node} {job : Job}
    (member : job ∈ g.jobs c group id nodes) :
    ∃ n ∈ nodes, job = n.job c g.scope group job.id := by
  obtain ⟨⟨n, number⟩, there, rfl⟩ := List.mem_map.mp member
  exact ⟨n, List.fst_mem_of_mem_zipIdx there, rfl⟩

end Graph

namespace Schedule

variable {s : Schedule} {c : RunConfig} {g : Graph}

/-- Nodes that find complete what they read become jobs. -/
theorem jobs_eq_ok (group : String) (built : g.Built) (materializes : g.Materializes c)
    {nodes : List Node} (inside : ∀ n ∈ nodes, n ∈ g.nodes)
    (supplied : ∀ n ∈ nodes, ∀ producer ∈ g.predecessors n.id, producer ∈ s.completed.toList)
    (id : Nat) : s.jobs c g group id (nodes.map Node.id) = .ok (g.jobs c group id nodes) := by
  induction nodes generalizing id with
  | nil => rfl
  | cons n rest ih =>
    have member : n ∈ g.nodes := inside n List.mem_cons_self
    have there : g.node? n.id = some n := built.getElem?_id member
    have complete : ∀ producer ∈ n.producers, producer ∈ s.completed.toList := fun producer reads =>
      supplied n List.mem_cons_self producer (built.mem_predecessors_of_producers member reads)
    have made : n.jobFault? c s.completed group = none :=
      Node.jobFault?_eq_none.mpr ⟨materializes.config, materializes.outputs n member, complete,
        materializes.inputs n member, materializes.chunks n member⟩
    have others := ih (fun n member => inside n (List.mem_cons_of_mem _ member))
      (fun n member => supplied n (List.mem_cons_of_mem _ member)) (id + 1)
    rw [List.map_cons, Schedule.jobs, there]
    simp only [Node.materialize, made, others, bind, Except.bind, pure, Except.pure, Graph.jobs_cons]

/-- Jobs that were made are the jobs of their nodes. -/
theorem jobs_eq_of_ok {group : String} (built : g.Built) {nodes : List Node}
    (inside : ∀ n ∈ nodes, n ∈ g.nodes) {id : Nat} {jobs : List Job}
    (made : s.jobs c g group id (nodes.map Node.id) = .ok jobs) : jobs = g.jobs c group id nodes := by
  induction nodes generalizing id jobs with
  | nil => exact (Except.ok.inj made).symm
  | cons n rest ih =>
    have there : g.node? n.id = some n := built.getElem?_id (inside n List.mem_cons_self)
    rw [List.map_cons, Schedule.jobs, there] at made
    obtain ⟨job, first, made⟩ := Traversal.bind_eq_ok.mp made
    obtain ⟨later, others, made⟩ := Traversal.bind_eq_ok.mp made
    rw [← Except.ok.inj made, materialize_eq_ok first,
      ih (fun n member => inside n (List.mem_cons_of_mem _ member)) others, Graph.jobs_cons]

/-- All that is ready is handed out. -/
theorem next_eq_ok (group : String) (built : g.Built) (materializes : g.Materializes c)
    {nodes : List Node} (inside : ∀ n ∈ nodes, n ∈ g.nodes) (ready : s.ready g = nodes.map Node.id)
    (some : nodes ≠ []) (unfinished : s.scheduled.size ≠ g.nodes.length) :
    s.next c g group = .ok (.some (⟨group, s.nextSeq, g.jobs c group s.nextJob nodes⟩,
      { s with
        scheduled := s.scheduled.insertAll (nodes.map Node.id)
        nextJob := s.nextJob + nodes.length
        nextSeq := s.nextSeq + 1 })) := by
  have supplied : ∀ n ∈ nodes, ∀ producer ∈ g.predecessors n.id, producer ∈ s.completed.toList := by
    intro n member
    have among : n.id ∈ s.ready g := ready ▸ List.mem_map_of_mem member
    exact ((mem_ready built).mp among).2.2
  have made := jobs_eq_ok group built materializes inside supplied s.nextJob
  rw [next, if_neg unfinished]
  simp only [ready, List.isEmpty_map, List.isEmpty_iff, some, made, bind, Except.bind, pure,
    Except.pure, if_false, g.length_jobs]

end Schedule

end Wavefront
