import Wavefront.Proofs.Graph.Level
import Wavefront.Proofs.Run.Materialization
set_option autoImplicit false

/-!
Schedules between levels. Where all nodes below a level have had their wave and are complete, the nodes
of that level are what is ready. Main statement: what such a schedule hands out is a job for each node of
the level, and after these were committed it stands one level higher; on a graph of nodes that can become
jobs it does hand them out.
-/
namespace Wavefront

namespace Graph

variable (g : Graph) (c : RunConfig) (group : String)

def batches (levels : Nat) : List (List Job) :=
  (List.range levels).map fun k => g.jobs c group (g.below k).length (g.stage k)

theorem batches_succ (levels : Nat) : g.batches c group (levels + 1) =
    g.batches c group levels ++ [g.jobs c group (g.below levels).length (g.stage levels)] := by
  simp [batches, List.range_succ]

def wave (k : Nat) : Wave := ⟨group, k, g.jobs c group (g.below k).length (g.stage k)⟩

theorem flatten_batches (levels : Nat) :
    (g.batches c group levels).flatten = g.jobs c group 0 (g.below levels) := by
  induction levels with
  | zero => rfl
  | succ levels ih =>
    rw [batches_succ, List.flatten_append, ih, below_succ, jobs_append, Nat.zero_add, List.flatten_singleton]

theorem mem_map_id_jobs {id other : Nat} {nodes : List Node} :
    other ∈ (g.jobs c group id nodes).map Job.id ↔ id ≤ other ∧ other < id + nodes.length := by
  rw [map_id_jobs, List.mem_range'_1]

end Graph

namespace Schedule

/-- All nodes below a level have had their wave and are complete, and no wave to come was committed. -/
structure Reaches (g : Graph) (level : Nat) (s : Schedule) : Prop where
  scheduled : ∀ id, id ∈ s.scheduled.toList ↔ id < g.nodes.length ∧ g.level id < level
  completed : ∀ id, id ∈ s.completed.toList ↔ id < g.nodes.length ∧ g.level id < level
  committed : ∀ seq ∈ s.committed.toList, seq < s.nextSeq
  nextJob : s.nextJob = (g.below level).length

namespace Reaches

variable {g : Graph} {level : Nat} {s : Schedule} {c : RunConfig} {group : String}

theorem start (g : Graph) : Reaches g 0 Schedule.start where
  scheduled id := by simp [Schedule.start, SortedSet.empty]
  completed id := by simp [Schedule.start, SortedSet.empty]
  committed seq member := by simp [Schedule.start, SortedSet.empty] at member
  nextJob := rfl

/-- The nodes of the level are ready, and no others. -/
theorem ready_eq (built : g.Built) (reaches : Reaches g level s) :
    s.ready g = (g.stage level).map Node.id := by
  rw [ready, List.filter_map, Graph.stage]
  congr 1
  refine List.filter_congr fun n member => ?_
  have inside := built.id_lt member
  rw [Bool.eq_iff_iff, Function.comp_apply, isReady_iff, beq_iff_eq, reaches.scheduled]
  have supplied : (∀ u ∈ g.predecessors n.id, u ∈ s.completed.toList) ↔ g.level n.id ≤ level := by
    rw [built.level_le_iff]
    refine forall₂_congr fun u reads => ?_
    simp [reaches.completed, built.lt_of_mem_predecessors reads]
  rw [supplied]
  omega

theorem size_eq_iff (built : g.Built) (reaches : Reaches g level s) :
    s.scheduled.size = g.nodes.length ↔ g.height ≤ level := by
  rw [Schedule.size_eq_iff built fun id member => ((reaches.scheduled id).mp member).1,
    Graph.height_le_iff]
  refine forall₂_congr fun n member => ?_
  simp [reaches.scheduled, built.id_lt member]

/-- Every level has nodes. -/
theorem stage_ne_nil (built : g.Built) (reaches : Reaches g level s) (left : level < g.height) :
    g.stage level ≠ [] := by
  have unfinished : ¬ ∀ n ∈ g.nodes, n.id ∈ s.scheduled.toList := by
    rw [← Schedule.size_eq_iff built fun id member => ((reaches.scheduled id).mp member).1,
      reaches.size_eq_iff built]
    exact Nat.not_le.mpr left
  simp only [not_forall] at unfinished
  obtain ⟨n, member, fresh⟩ := unfinished
  have ready := ready_ne_nil built (fun id member => (reaches.completed id).mpr
    ((reaches.scheduled id).mp member)) (built.id_lt member) fresh
  rw [reaches.ready_eq built] at ready
  exact fun none => ready (by rw [none, List.map_nil])

theorem next_eq_none (built : g.Built) (reaches : Reaches g level s) (top : g.height ≤ level) :
    s.next c g group = .ok none :=
  Schedule.next_eq_none.mpr ((reaches.size_eq_iff built).mpr top)

/-- What is handed out is the wave of the level, and once it is committed the schedule stands one level
higher. -/
theorem handed {s' : Schedule} {wave : Wave} (built : g.Built) (reaches : Reaches g level s)
    (found : s.next c g group = .ok (some (wave, s'))) :
    level < g.height ∧ wave = ⟨group, s.nextSeq, g.jobs c group (g.below level).length (g.stage level)⟩ ∧
      s'.committed.contains s.nextSeq = false ∧
      Reaches g (level + 1)
        (wave.jobs.foldl complete { s' with committed := s'.committed.insert s.nextSeq }) := by
  have inside : ∀ n ∈ g.stage level, n ∈ g.nodes := fun n member => (Graph.mem_stage.mp member).1
  obtain ⟨some, seq, made, rfl⟩ := next_made found
  rw [reaches.ready_eq built, reaches.nextJob] at made
  have jobs := jobs_eq_of_ok built inside made
  have below : level < g.height := by
    refine Nat.not_le.mp fun top => ?_
    rw [reaches.next_eq_none built top] at found
    cases found
  refine ⟨below, ?_, ?_, ?_⟩
  · rw [← jobs, ← seq, ← next_group found]
  · simpa [SortedSet.contains] using fun again => Nat.lt_irrefl _ (reaches.committed _ again)
  · obtain ⟨scheduled, committed, nextJob, nextSeq, completed⟩ := foldl_complete wave.jobs
      { s with
        scheduled := s.scheduled.insertAll (s.ready g)
        committed := s.committed.insert s.nextSeq
        nextJob := s.nextJob + wave.jobs.length
        nextSeq := s.nextSeq + 1 }
    have own (id : Nat) : (∃ job ∈ wave.jobs, id ∈ job.nodes) ↔ id ∈ (g.stage level).map Node.id := by
      rw [← List.mem_flatMap, List.flatMap_def, jobs, g.map_nodes_jobs]
      simp [eq_comm]
    constructor
    · intro id
      rw [scheduled, SortedSet.mem_insertAll, reaches.ready_eq built, reaches.scheduled,
        built.mem_map_id_stage]
      omega
    · intro id
      rw [completed, own, reaches.completed, built.mem_map_id_stage]
      omega
    · intro seq member
      rw [committed, SortedSet.mem_insert] at member
      rw [nextSeq]
      rcases member with rfl | before
      · exact Nat.lt_succ_self _
      · exact Nat.lt_succ_of_lt (reaches.committed seq before)
    · rw [nextJob, jobs, g.length_jobs, reaches.nextJob, Graph.below_succ, List.length_append]

/-- The wave of the level is handed out, and once it is committed the schedule stands one level higher. -/
theorem exists_next (group : String) (built : g.Built) (materializes : g.Materializes c)
    (reaches : Reaches g level s) (left : level < g.height) :
    let jobs := g.jobs c group (g.below level).length (g.stage level)
    ∃ s', s.next c g group = .ok (some (⟨group, s.nextSeq, jobs⟩, s')) ∧
      s'.committed.contains s.nextSeq = false ∧
      Reaches g (level + 1)
        (jobs.foldl complete { s' with committed := s'.committed.insert s.nextSeq }) := by
  intro jobs
  have inside : ∀ n ∈ g.stage level, n ∈ g.nodes := fun n member => (Graph.mem_stage.mp member).1
  have unfinished : s.scheduled.size ≠ g.nodes.length := fun size =>
    absurd ((reaches.size_eq_iff built).mp size) (Nat.not_le.mpr left)
  have found := next_eq_ok group built materializes inside (reaches.ready_eq built)
    (reaches.stage_ne_nil built left) unfinished
  rw [reaches.nextJob] at found
  obtain ⟨_, _, fresh, higher⟩ := reaches.handed built found
  exact ⟨_, found, fresh, higher⟩

/-- A wave is kept back only by a node of the level that cannot become a job. -/
theorem next_error {e : Error} (built : g.Built) (reaches : Reaches g level s)
    (failed : s.next c g group = .error e) :
    ∃ n ∈ g.stage level, ∃ fault, n.jobFault? c s.completed group = some fault ∧
      (∀ producer ∈ n.producers, producer ∈ s.completed.toList) ∧ e = .job n.id fault := by
  obtain ⟨unfinished, ⟨empty, _⟩ | ⟨n, member, fault, ready, refused, same⟩⟩ :=
    Schedule.next_error built failed
  · have left : level < g.height := Nat.not_le.mp fun top => unfinished ((reaches.size_eq_iff built).mpr top)
    rw [reaches.ready_eq built, List.map_eq_nil_iff] at empty
    exact absurd empty (reaches.stage_ne_nil built left)
  · have level := (built.mem_map_id_stage.mp (reaches.ready_eq built ▸ ready)).2
    have supplied := ((mem_ready built).mp ready).2.2
    exact ⟨n, Graph.mem_stage.mpr ⟨member, level⟩, fault, refused, fun producer reads =>
      supplied producer (built.mem_predecessors_of_producers member reads), same⟩

end Reaches

end Schedule

end Wavefront
