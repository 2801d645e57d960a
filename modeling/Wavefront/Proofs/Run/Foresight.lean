import Wavefront.CommandLine.Execution
import Wavefront.Files.Tree
import Wavefront.Proofs.Run.Levels
import Wavefront.Proofs.Run.Simulated
import Wavefront.Proofs.Run.Trace
import Wavefront.Proofs.Run.Waves
set_option autoImplicit false

/-!
Runs on the simulated cluster, foreseen. Main statement: such a launch ends with an outcome, and the
graph and the scripts say which: the waves are the levels of the graph, up to the lowest level with a
node that fails, and every job of these waves is recorded as its script says. So does the command that
runs a plan and leaves no markers.
-/
namespace Wavefront

namespace Simulation

/-- A cluster that leaves no markers, with the scripts of some nodes, on which nothing has run. -/
def scripted (standard : JobScript) (scripts : List (Nat × JobScript)) : Simulation :=
  scripts.foldl (fun s entry => s.withScript entry.1 entry.2) (.start standard false)

def nodeScript (s : Simulation) (n : Node) : JobScript := (s.scripts.lookup n.id).getD s.defaultScript

def fails (s : Simulation) (n : Node) : Bool := (s.nodeScript n).failure.isSome

theorem scripted_eq (standard : JobScript) (scripts : List (Nat × JobScript)) :
    scripted standard scripts = { start standard false with scripts := scripts.reverse } := by
  have each (s : Simulation) : scripts.foldl (fun s entry => s.withScript entry.1 entry.2) s =
      { s with scripts := scripts.reverse ++ s.scripts } := by
    induction scripts generalizing s with
    | nil => rfl
    | cons entry rest ih => rw [List.foldl_cons, ih, withScript]; simp
  rw [scripted, each]
  simp [start]

theorem scripted_unused (standard : JobScript) (scripts : List (Nat × JobScript)) :
    (scripted standard scripts).running? = none ∧ (scripted standard scripts).submissions = [] ∧
      (scripted standard scripts).marks = false := by
  rw [scripted_eq]
  exact ⟨rfl, rfl, rfl⟩

variable {s t : Simulation} {c : RunConfig} {g : Graph} {group : String}

@[simp] theorem scriptOf_job (s : Simulation) (n : Node) (c : RunConfig) (scope group : String) (id : Nat) :
    s.scriptOf (n.job c scope group id) = s.nodeScript n := by
  simp [scriptOf, nodeScript, Node.job]

theorem scriptOf_congr (scripts : s.scripts = t.scripts) (standard : s.defaultScript = t.defaultScript)
    (job : Job) : s.scriptOf job = t.scriptOf job := by
  rw [scriptOf, scriptOf, scripts, standard]

/-- The jobs that succeed are those of the nodes that do not fail. -/
theorem map_nodes_done (s : Simulation) (id : Nat) (nodes : List Node) :
    (s.done (g.jobs c group id nodes)).map JobRecord.nodes =
      (nodes.filter fun n => !s.fails n).map fun n => [n.id] := by
  induction nodes generalizing id with
  | nil => rfl
  | cons n rest ih =>
    rw [Graph.jobs_cons, done_cons, scriptOf_job, List.filter_cons, fails]
    cases (s.nodeScript n).failure with
    | some message => exact ih (id + 1)
    | none => exact congrArg ([n.id] :: ·) (ih (id + 1))

theorem map_nodes_lost (s : Simulation) (id : Nat) (nodes : List Node) :
    (s.lost (g.jobs c group id nodes)).map JobRecord.nodes =
      (nodes.filter s.fails).map fun n => [n.id] := by
  induction nodes generalizing id with
  | nil => rfl
  | cons n rest ih =>
    rw [Graph.jobs_cons, lost_cons, scriptOf_job, List.filter_cons, fails]
    cases (s.nodeScript n).failure with
    | some message => exact congrArg ([n.id] :: ·) (ih (id + 1))
    | none => exact ih (id + 1)

@[simp] theorem map_unreported_done (s : Simulation) (jobs : List Job) :
    (s.done jobs).map JobRecord.unreported = s.done jobs := by
  rw [done, List.map_map]
  rfl

@[simp] theorem map_unreported_lost (s : Simulation) (jobs : List Job) :
    (s.lost jobs).map JobRecord.unreported = s.lost jobs := by
  rw [lost, List.map_filterMap]
  refine List.filterMap_congr fun job _ => ?_
  cases (s.scriptOf job).failure <;> rfl

theorem lost_jobs_eq_nil (s : Simulation) (id : Nat) {nodes : List Node} :
    s.lost (g.jobs c group id nodes) = [] ↔ ∀ n ∈ nodes, s.fails n = false := by
  rw [← List.map_eq_nil_iff (f := JobRecord.nodes), map_nodes_lost]
  simp

end Simulation

theorem JobRecord.map_nodes_unreported (records : List JobRecord) :
    (records.map unreported).map nodes = records.map nodes := by
  rw [List.map_map]
  rfl

variable {α : Type} {c : RunConfig} {g : Graph} {group : String} {start : Simulation}

/-- What the graph and the scripts say of a launch, by its outcome and by the cluster at its end. -/
structure Foreseen (c : RunConfig) (g : Graph) (group : String) (start : Simulation)
    (outcome : Outcome α) (final : Simulation) : Prop where
  /-- A node is one level above the highest of the nodes it reads. -/
  level : ∀ id, g.level id = ((g.predecessors id).map fun u => g.level u + 1).foldr max 0
  ascending : ∀ k, ((g.stage k).map Node.id).Pairwise (· < ·)
  succeeded : outcome.succeeded = true ↔ ∀ n ∈ g.nodes, start.fails n = false
  /-- The cluster was given the waves that the outcome tells of. -/
  submissions : final.submissions = outcome.waves
  /-- The waves are the levels, each in the order of its nodes. -/
  waves : outcome.waves.map (·.map final.nodeOf?) =
    (List.range (g.reach start.fails)).map fun k => (g.stage k).map fun n => some n.id
  /-- Jobs are numbered in the order of the waves. -/
  numbered : outcome.waves.flatten = List.range (g.below (g.reach start.fails)).length
  successful : outcome.successful.map JobRecord.unreported =
    start.done (g.jobs c group 0 (g.below (g.reach start.fails)))
  /-- Those that have succeeded are the nodes of these levels that do not fail. -/
  successful_nodes : outcome.successful.map JobRecord.nodes =
    ((g.below (g.reach start.fails)).filter fun n => !start.fails n).map fun n => [n.id]
  failed : outcome.failed.map JobRecord.unreported =
    start.lost (g.jobs c group 0 (g.below (g.reach start.fails)))
  /-- Those that have failed are the nodes that do, of the lowest level that has any. -/
  failed_nodes : outcome.failed.map JobRecord.nodes =
    match g.lowest? start.fails with
    | some k => ((g.stage k).filter start.fails).map fun n => [n.id]
    | none => []

/-- The levels below some level have been taken to their ends, on a cluster that began as `start`. -/
structure Follows (c : RunConfig) (g : Graph) (group : String) (start : Simulation) (levels : Nat)
    (journal : Journal α) (sim : Simulation) : Prop where
  scripts : sim.scripts = start.scripts
  standard : sim.defaultScript = start.defaultScript
  marks : sim.marks = start.marks
  settled : sim.running? = none
  jobs : ∀ job ∈ g.jobs c group 0 (g.below levels),
    sim.job? job.id = some (.ended job (start.scriptOf job))
  submissions : sim.submissions = journal.waves
  waves : journal.waves = (g.batches c group levels).map (·.map Job.id)
  successful : journal.successful = start.done (g.jobs c group 0 (g.below levels))

namespace Follows

variable {levels : Nat} {journal journal' : Journal α} {sim sim' : Simulation}

theorem scriptOf_eq (follows : Follows c g group start levels journal sim) (job : Job) :
    sim.scriptOf job = start.scriptOf job :=
  Simulation.scriptOf_congr follows.scripts follows.standard job

theorem done_eq (follows : Follows c g group start levels journal sim) (jobs : List Job) :
    sim.done jobs = start.done jobs := by
  simp only [Simulation.done, follows.scriptOf_eq]

theorem lost_eq (follows : Follows c g group start levels journal sim) (jobs : List Job) :
    sim.lost jobs = start.lost jobs := by
  simp only [Simulation.lost, follows.scriptOf_eq]

theorem initial (c : RunConfig) (g : Graph) (group : String) [ProgressNumber α] (nodes : Nat)
    (settled : start.running? = none) (unused : start.submissions = []) :
    Follows c g group start 0 (Journal.start nodes : Journal α) start where
  scripts := rfl
  standard := rfl
  marks := rfl
  settled := settled
  jobs job member := by cases member
  submissions := unused
  waves := rfl
  successful := rfl

/-- The wave of a level takes a launch one level higher. -/
theorem wave (follows : Follows c g group start levels journal sim) {wave : Wave}
    (jobs : wave.jobs = g.jobs c group (g.below levels).length (g.stage levels)) {ticks : Nat}
    (running : Simulation.Running sim wave ticks sim')
    (past : ∀ job ∈ wave.jobs, (sim.scriptOf job).duration ≤ ticks)
    (waves : journal'.waves = journal.waves ++ [wave.jobIds])
    (successful : journal'.successful = journal.successful ++ sim.done wave.jobs) :
    Follows c g group start (levels + 1) journal' sim' where
  scripts := running.scripts.trans follows.scripts
  standard := running.standard.trans follows.standard
  marks := running.marks.trans follows.marks
  settled := running.running?_eq_none.mpr past
  jobs job member := by
    -- Jobs of the levels before have lower numbers, and the wave leaves them alone.
    rw [Graph.below_succ, Graph.jobs_append, Nat.zero_add, ← jobs] at member
    rcases List.mem_append.mp member with earlier | now
    · have absent : job.id ∉ wave.jobIds := by
        have number := (Graph.mem_map_id_jobs g c group).mp (List.mem_map_of_mem earlier)
        rw [Wave.jobIds, jobs, Graph.mem_map_id_jobs]
        omega
      rw [running.others job.id absent, follows.jobs job earlier]
    · rw [running.jobs job now, SimulatedJob.after_of_le job _ (past job now), follows.scriptOf_eq]
  submissions := by rw [running.submissions, follows.submissions, waves]
  waves := by
    rw [waves, follows.waves, g.batches_succ, List.map_append, List.map_singleton, Wave.jobIds, jobs]
  successful := by
    rw [successful, follows.successful, follows.done_eq, ← Simulation.done_append, jobs,
      Graph.below_succ, Graph.jobs_append, Nat.zero_add]

/-- The nodes of the waves. -/
theorem map_nodeOf (follows : Follows c g group start levels journal sim) :
    journal.waves.map (·.map sim.nodeOf?) =
      (List.range levels).map fun k => (g.stage k).map fun n => some n.id := by
  have each : ∀ batch ∈ g.batches c group levels,
      (batch.map Job.id).map sim.nodeOf? = (batch.map Job.nodes).map List.head? := by
    intro batch member
    rw [List.map_map, List.map_map]
    refine List.map_congr_left fun job among => ?_
    have there : job ∈ g.jobs c group 0 (g.below levels) := by
      rw [← g.flatten_batches]
      exact List.mem_flatten_of_mem member among
    have known := follows.jobs job there
    rw [← SimulatedJob.after_of_le job _ (Nat.le_refl _)] at known
    simp [Simulation.nodeOf?, known]
  rw [follows.waves, List.map_map]
  calc (g.batches c group levels).map ((·.map sim.nodeOf?) ∘ (·.map Job.id))
      = (g.batches c group levels).map fun batch => (batch.map Job.nodes).map List.head? :=
        List.map_congr_left each
    _ = (List.range levels).map fun k => (g.stage k).map fun n => some n.id := by
        rw [Graph.batches, List.map_map]
        refine List.map_congr_left fun k _ => ?_
        rw [Function.comp_apply, g.map_nodes_jobs, List.map_map]
        rfl

/-- An outcome that tells of all levels that a run gets to is foreseen. -/
theorem foreseen (built : g.Built)
    (follows : Follows c g group start (g.reach start.fails) journal sim) {outcome : Outcome α}
    (succeeded : outcome.succeeded = true ↔ ∀ n ∈ g.nodes, start.fails n = false)
    (waves : outcome.waves = journal.waves)
    (successful : outcome.successful.map JobRecord.unreported = journal.successful)
    (failed : outcome.failed.map JobRecord.unreported =
      start.lost (g.jobs c group 0 (g.below (g.reach start.fails)))) :
    Foreseen c g group start outcome sim := by
  refine ⟨built.level_eq, built.stage_ascending, succeeded, follows.submissions.trans waves.symm,
    ?_, ?_, successful.trans follows.successful, ?_, failed, ?_⟩
  · rw [waves, follows.map_nodeOf]
  · rw [waves, follows.waves, ← List.map_flatten, g.flatten_batches, g.map_id_jobs, List.range_eq_range']
  · rw [← JobRecord.map_nodes_unreported, successful, follows.successful, Simulation.map_nodes_done]
  · rw [← JobRecord.map_nodes_unreported, failed, Simulation.map_nodes_lost, g.filter_below_reach]
    cases g.lowest? start.fails <;> rfl

end Follows

namespace Schedule

/-- The nodes that are complete are those whose jobs are recorded as successful. -/
def Agrees (s : Schedule) (successful : List JobRecord) : Prop :=
  ∀ id, id ∈ s.completed.toList ↔ [id] ∈ successful.map JobRecord.nodes

namespace Agrees

variable {s : Schedule} {successful : List JobRecord}

theorem of_unreported {reported : List JobRecord} (agrees : s.Agrees successful)
    (same : reported.map JobRecord.unreported = successful.map JobRecord.unreported) :
    s.Agrees reported := by
  intro id
  rw [← JobRecord.map_nodes_unreported, same, JobRecord.map_nodes_unreported]
  exact agrees id

/-- The commit of a wave completes the nodes of the jobs that are recorded as successful with it. -/
theorem commit (agrees : s.Agrees successful) (sim : Simulation) {jobs : List Job}
    (distinct : (jobs.map Job.id).Nodup) (single : ∀ job ∈ jobs, ∃ id, job.nodes = [id]) :
    ((jobs.filter fun job => ((sim.done jobs).map JobRecord.job).contains job.id).foldl complete
      s).Agrees (successful ++ sim.done jobs) := by
  intro id
  obtain ⟨_, _, _, _, completed⟩ := foldl_complete
    (jobs.filter fun job => ((sim.done jobs).map JobRecord.job).contains job.id) s
  have recorded : [id] ∈ (sim.done jobs).map JobRecord.nodes ↔
      ∃ job ∈ jobs, (sim.scriptOf job).failure = none ∧ job.nodes = [id] := by
    simp [Simulation.done, JobRecord.ofJob, and_assoc]
  rw [completed, List.map_append, List.mem_append, recorded]
  refine or_congr (agrees id) (exists_congr fun job => ?_)
  rw [List.mem_filter, and_assoc]
  refine and_congr_right fun member => ?_
  obtain ⟨node, nodes⟩ := single job member
  rw [sim.contains_done distinct member, nodes, List.mem_singleton, List.singleton_inj, eq_comm (a := id)]

end Agrees

end Schedule

namespace Launch

variable {M : Type → Type} [Monad M] [LawfulMonad M] {W : Type}
  [Stateful M (Schedule × (Simulation × W))] {l : Launch M α} {b : Backdrop W} {levels : Nat}
  {journal : Journal α} {sim : Simulation}

/-- A launch has ended as foreseen: the world is at rest, temporary outputs are forgotten, and the outcome
tells which nodes are complete. -/
structure Concluded (b : Backdrop W) (c : RunConfig) (l : Launch M α) (start : Simulation)
    (outcome : Outcome α) (s : Schedule) (final : Simulation) (w : W) : Prop where
  foreseen : Foreseen c l.graph l.group start outcome final
  rests : b.rests s w
  forgotten : s.temporaries = []
  agrees : s.Agrees outcome.successful

/-- A launch stands between two levels. -/
structure Stands (b : Backdrop W) (c : RunConfig) (l : Launch M α) (start : Simulation) (levels : Nat)
    (journal : Journal α) (s : Schedule) (sim : Simulation) (w : W) : Prop where
  reaches : s.Reaches l.graph levels
  follows : Follows c l.graph l.group start levels journal sim
  agrees : s.Agrees journal.successful
  rests : b.rests s w

/-- The wave of a level has been handed out and has ended, and is to be committed. -/
structure Ends [ProgressNumber α] (b : Backdrop W) (c : RunConfig) (l : Launch M α)
    (start : Simulation) (levels : Nat) (journal : Journal α) (before : Schedule × (Simulation × W))
    (wave : Wave) (journal' : Journal α) (s : Schedule) (sim : Simulation) (w : W) : Prop where
  jobs : wave.jobs = (l.graph.wave c l.group levels).jobs
  fresh : s.committed.contains wave.seq = false
  asked : (ofSource (l.source.next l.graph l.group)).act before = (.ok (some wave), (s, before.2))
  ran : (l.runWave wave journal).act (s, before.2) =
    (do
      ofSource (l.source.commit wave ((start.done wave.jobs).map JobRecord.job))
      return (journal', start.lost wave.jobs)).act (s, (sim, w))
  runs : b.runs s wave sim w
  settled : sim.running? = none
  verdicts : ∀ job ∈ wave.jobs, ((start.done wave.jobs).map JobRecord.job).contains job.id = true ↔
    sim.status job.id = .succeeded
  follows : Follows c l.graph l.group start (levels + 1) journal' sim
  agrees : ((wave.jobs.filter fun job =>
    ((start.done wave.jobs).map JobRecord.job).contains job.id).foldl Schedule.complete
      { s with committed := s.committed.insert wave.seq }).Agrees journal'.successful
  reaches : (wave.jobs.foldl Schedule.complete
    { s with committed := s.committed.insert wave.seq }).Reaches l.graph (levels + 1)

theorem Simulates.report [ProgressNumber α] (simulates : l.Simulates c b) {records : List JobRecord}
    (plain : records.map JobRecord.unreported = records)
    (known : ∀ r ∈ records, ∃ job, sim.job? r.job = some job) (s : Schedule) (w : W) :
    ∃ answers, (records.mapM l.withStats).act (s, (sim, w)) = (.ok answers, (s, (sim, w))) ∧
      answers.map JobRecord.unreported = records := by
  refine ⟨_, simulates.withStats known s w, ?_⟩
  rw [List.map_map]
  exact plain

variable [ProgressNumber α]

theorem Simulates.cleaned (simulates : l.Simulates c b) {s : Schedule} (sim : Simulation) {w : W}
    (rests : b.rests s w) :
    ∃ w', (ofSource l.source.cleanup).act (s, (sim, w)) =
      (.ok ⟨⟩, ({ s with temporaries := [] }, (sim, w'))) ∧
        b.rests { s with temporaries := [] } w' := by
  obtain ⟨w', cleaned, rests⟩ := simulates.cleanup s sim w rests
  refine ⟨w', ?_, rests⟩
  rw [ofSource_act, cleaned]
  rfl

/-- At the top a launch succeeds. -/
theorem Simulates.succeed (simulates : l.Simulates c b) (built : l.graph.Built)
    (whole : ∀ n ∈ l.graph.nodes, start.fails n = false) {s : Schedule} {w : W}
    (stands : Stands b c l start l.graph.height journal s sim w) :
    ∃ outcome s' w', (l.succeed journal).act (s, (sim, w)) = (.ok outcome, (s', (sim, w'))) ∧
      Concluded b c l start outcome s' sim w' := by
  have last : l.graph.reach start.fails = l.graph.height := by
    rw [Graph.reach, Graph.lowest?_eq_none.mpr whole]
  have follows := stands.follows
  rw [← last] at follows
  have known : ∀ r ∈ journal.successful, ∃ job, sim.job? r.job = some job := by
    rw [follows.successful]
    intro r member
    obtain ⟨job, among, is⟩ := start.exists_job_of_mem_done member
    exact ⟨_, is ▸ follows.jobs job among⟩
  have plain : journal.successful.map JobRecord.unreported = journal.successful := by
    rw [follows.successful, start.map_unreported_done]
  obtain ⟨w', cleaned, rests⟩ := simulates.cleaned sim stands.rests
  obtain ⟨answers, reported, successful⟩ :=
    simulates.report plain known { s with temporaries := [] } w'
  refine ⟨journal.success l.group answers, { s with temporaries := [] }, w', ?_,
    follows.foreseen built (iff_of_true rfl whole) rfl successful ?_, rests, rfl,
    stands.agrees.of_unreported (successful.trans plain.symm)⟩
  · rw [Launch.succeed, Step.act_bind_ok cleaned, Step.act_bind_ok reported, Step.act_pure]
  · exact ((start.lost_jobs_eq_nil 0).mpr fun n member => whole n (Graph.mem_below.mp member).1).symm

/-- A launch fails after the lowest level with a node that fails. -/
theorem Simulates.fail (simulates : l.Simulates c b) (built : l.graph.Built)
    (lowest : l.graph.lowest? start.fails = some levels)
    (follows : Follows c l.graph l.group start (levels + 1) journal sim) {s : Schedule} {w : W}
    (agrees : s.Agrees journal.successful) (rests : b.rests s w) :
    let lost := start.lost (l.graph.jobs c l.group (l.graph.below levels).length (l.graph.stage levels))
    ∃ outcome s' w', (l.fail journal lost).act (s, (sim, w)) = (.ok outcome, (s', (sim, w'))) ∧
      Concluded b c l start outcome s' sim w' := by
  intro lost
  obtain ⟨⟨n, stage, fails⟩, least⟩ := Graph.lowest?_eq_some.mp lowest
  have last : l.graph.reach start.fails = levels + 1 := by rw [Graph.reach, lowest]
  -- No node of the levels before fails, so this level has all that is lost.
  have all : start.lost (l.graph.jobs c l.group 0 (l.graph.below (levels + 1))) = lost := by
    have before : start.lost (l.graph.jobs c l.group 0 (l.graph.below levels)) = [] := by
      refine (start.lost_jobs_eq_nil 0).mpr fun n member => ?_
      obtain ⟨inside, lower⟩ := Graph.mem_below.mp member
      rw [Bool.eq_false_iff]
      exact fun fails => Nat.not_le.mpr lower (least n inside fails)
    rw [Graph.below_succ, Graph.jobs_append, start.lost_append, before, Nat.zero_add, List.nil_append]
  have stopped : (ofCluster l.cluster.stop).act (s, (sim, w)) = (.ok ⟨⟩, (s, (sim, w))) := by
    rw [ofCluster_act, simulates.stop, Simulation.stop_eq_self follows.settled]
    rfl
  have known : ∀ r ∈ lost, ∃ job, sim.job? r.job = some job := by
    rw [← all]
    intro r member
    obtain ⟨job, among, is⟩ := start.exists_job_of_mem_lost member
    exact ⟨_, is ▸ follows.jobs job among⟩
  obtain ⟨w', cleaned, rests⟩ := simulates.cleaned sim rests
  obtain ⟨answers, reported, failed⟩ :=
    simulates.report (start.map_unreported_lost _) known { s with temporaries := [] } w'
  rw [← last] at follows all
  refine ⟨journal.failure l.group answers, { s with temporaries := [] }, w', ?_,
    follows.foreseen built ?_ rfl ?_ (failed.trans all.symm), rests, rfl, agrees⟩
  · rw [Launch.fail, Step.act_bind_ok stopped, Step.act_bind_ok cleaned, Step.act_bind_ok reported,
      Step.act_pure]
  · refine iff_of_false Bool.false_ne_true fun whole => ?_
    rw [whole n (Graph.mem_stage.mp stage).1] at fails
    exact Bool.false_ne_true fails
  · show journal.successful.map JobRecord.unreported = journal.successful
    rw [follows.successful, start.map_unreported_done]

/-- Where the backdrop admits it a wave that has ended is committed. -/
theorem Simulates.commits (simulates : l.Simulates c b) {journal' : Journal α}
    {before : Schedule × (Simulation × W)} {wave : Wave} {s : Schedule} {w : W}
    (ends : Ends b c l start levels journal before wave journal' s sim w)
    (admitted : b.admits (l.graph.wave c l.group levels).jobs) :
    ∃ s' w', (l.runWave wave journal).act (s, before.2) =
        (.ok (journal', start.lost wave.jobs), (s', (sim, w'))) ∧
      s'.Agrees journal'.successful ∧ b.rests s' w' ∧
      (start.lost wave.jobs = [] → s'.Reaches l.graph (levels + 1)) := by
  obtain ⟨w', committed, rests⟩ := simulates.commit wave _ s sim w (ends.jobs ▸ admitted) ends.fresh
    ends.runs ends.settled ends.verdicts
  refine ⟨_, w', ends.ran.trans ?_, ends.agrees, rests, fun whole => ?_⟩
  · rw [Step.act_bind_ok (by rw [ofSource_act, committed]; rfl), Step.act_pure]
  · rw [start.filter_done_eq_self whole]
    exact ends.reaches

section Climbing

variable (simulates : l.Simulates c b) (built : l.graph.Built)
  (materializes : l.graph.Materializes c)
  (polls : ∀ n ∈ l.graph.nodes, (start.nodeScript n).duration ≤ l.limits.polls)
  (marks : start.marks = b.marks)

include simulates built materializes polls marks

/-- Below the top the wave of the next level is handed out, and it is looked at until it has ended. -/
theorem Simulates.exists_ends {s : Schedule} {w : W}
    (stands : Stands b c l start levels journal s sim w) (left : levels < l.graph.height) :
    ∃ wave journal' s' sim' w',
      Ends b c l start levels journal (s, (sim, w)) wave journal' s' sim' w' := by
  obtain ⟨reaches, follows, agrees, rests⟩ := stands
  obtain ⟨s₁, handed, fresh, higher⟩ := reaches.exists_next l.group built materializes left
  let wave : Wave := ⟨l.group, s.nextSeq, (l.graph.wave c l.group levels).jobs⟩
  have asked : (ofSource (l.source.next l.graph l.group)).act (s, (sim, w)) =
      (.ok (some wave), (s₁, (sim, w))) := by
    rw [ofSource_act, simulates.next, handed]
    rfl
  have distinct : wave.jobIds.Nodup := by
    show (List.map Job.id (l.graph.jobs c l.group _ _)).Nodup
    rw [Graph.map_id_jobs]
    exact List.nodup_range'
  have some : wave.jobs ≠ [] := by
    show l.graph.jobs c l.group _ _ ≠ []
    rw [ne_eq, ← List.length_eq_zero_iff, Graph.length_jobs, List.length_eq_zero_iff]
    exact reaches.stage_ne_nil built left
  have short : ∀ job ∈ wave.jobs, (sim.scriptOf job).duration ≤ l.limits.polls := by
    intro job member
    obtain ⟨n, stage, is⟩ := Graph.exists_node_of_mem_jobs member
    rw [follows.scriptOf_eq, is, Simulation.scriptOf_job]
    exact polls n (Graph.mem_stage.mp stage).1
  obtain ⟨journal', ticks, sim', w', ran, runs, running, past, verdicts, waves, successful⟩ :=
    simulates.runWave_ends follows.settled distinct some short journal fun sim' running =>
      simulates.begins levels s s₁ wave sim sim' w reaches handed (follows.marks.trans marks) running rests
  have after := follows.wave rfl running past waves successful
  rw [follows.lost_eq, follows.done_eq] at ran
  rw [follows.done_eq] at verdicts successful
  refine ⟨wave, journal', s₁, sim', w', rfl, fresh, asked, ran, runs,
    running.running?_eq_none.mpr past, verdicts, after, ?_, higher⟩
  obtain ⟨_, _, _, rfl⟩ := Schedule.next_made handed
  have before : ({ s with
      scheduled := s.scheduled.insertAll (s.ready l.graph)
      nextJob := s.nextJob + wave.jobs.length
      nextSeq := s.nextSeq + 1
      committed := s.committed.insert wave.seq } : Schedule).Agrees journal.successful := agrees
  rw [successful]
  refine before.commit start distinct fun job member => ?_
  obtain ⟨n, _, is⟩ := Graph.exists_node_of_mem_jobs member
  exact ⟨n.id, by rw [is]; rfl⟩

/-- If no node of a level fails and its outputs can be put in place, the launch goes up one level. -/
theorem Simulates.ascend {s : Schedule} {w : W} (stands : Stands b c l start levels journal s sim w)
    (left : levels < l.graph.height) (admitted : b.admits (l.graph.wave c l.group levels).jobs)
    (alive : ∀ n ∈ l.graph.stage levels, start.fails n = false) (waves : Nat) :
    ∃ journal' s' sim' w', (l.runWaves (waves + 1) journal).act (s, (sim, w)) =
        (l.runWaves waves journal').act (s', (sim', w')) ∧
      Stands b c l start (levels + 1) journal' s' sim' w' := by
  obtain ⟨wave, journal', s₁, sim', w₁, ends⟩ :=
    simulates.exists_ends built materializes polls marks stands left
  obtain ⟨s', w', ran, agrees, rests, higher⟩ := simulates.commits ends admitted
  have whole : start.lost wave.jobs = [] := by
    rw [ends.jobs]
    exact (start.lost_jobs_eq_nil _).mpr alive
  refine ⟨journal', s', sim', w', ?_, higher whole, ends.follows, agrees, rests⟩
  rw [Launch.runWaves, Step.act_bind_ok ends.asked]
  dsimp only
  rw [Step.act_bind_ok ran, whole]
  rfl

/-- A launch goes up to any level below which no node fails and all outputs can be put in place. -/
theorem Simulates.climb (settled : start.running? = none) (unused : start.submissions = [])
    (bounded : levels ≤ l.graph.height)
    (admitted : ∀ k < levels, b.admits (l.graph.wave c l.group k).jobs)
    (alive : ∀ n ∈ l.graph.nodes, l.graph.level n.id < levels → start.fails n = false) {w : W}
    (rests : b.rests .start w) (waves : Nat) :
    ∃ journal s sim w', (l.runWaves (levels + waves) (.start l.graph.nodes.length)).act
        (.start, (start, w)) = (l.runWaves waves journal).act (s, (sim, w')) ∧
      Stands b c l start levels journal s sim w' := by
  induction levels generalizing waves with
  | zero =>
    refine ⟨.start l.graph.nodes.length, .start, start, w, by rw [Nat.zero_add], .start l.graph,
      .initial c l.graph l.group l.graph.nodes.length settled unused, fun id => ?_, rests⟩
    simp [Schedule.start, SortedSet.empty, Journal.start]
  | succ levels ih =>
    obtain ⟨journal, s, sim, w₁, ran, stands⟩ := ih (Nat.le_of_succ_le bounded)
      (fun k lower => admitted k (Nat.lt_succ_of_lt lower))
      (fun n member lower => alive n member (Nat.lt_succ_of_lt lower)) (waves + 1)
    obtain ⟨journal', s', sim', w', ran', stands'⟩ := simulates.ascend built materializes polls marks
      stands bounded (admitted levels (Nat.lt_succ_self levels)) (fun n member => by
        obtain ⟨inside, level⟩ := Graph.mem_stage.mp member
        exact alive n inside (level ▸ Nat.lt_succ_self _)) waves
    refine ⟨journal', s', sim', w', ?_, stands'⟩
    rw [Nat.add_right_comm, Nat.add_assoc, ran, ran']

/-- From the start on a launch ends as foreseen, if all outputs can be put in place. -/
theorem Simulates.concluded (settled : start.running? = none) (unused : start.submissions = [])
    (admitted : ∀ k, b.admits (l.graph.wave c l.group k).jobs)
    (waves : l.graph.nodes.length < l.limits.waves) {w : W} (rests : b.rests .start w) :
    ∃ outcome s final w', l.run.act (.start, (start, w)) = (.ok outcome, (s, (final, w'))) ∧
      Concluded b c l start outcome s final w' := by
  have bound := built.height_le
  cases lowest : l.graph.lowest? start.fails with
  | none =>
    have whole := Graph.lowest?_eq_none.mp lowest
    obtain ⟨rest, enough⟩ := Nat.exists_eq_add_of_lt (Nat.lt_of_le_of_lt bound waves)
    obtain ⟨journal, s, sim, w₁, climbed, stands⟩ := simulates.climb built materializes polls marks
      settled unused (Nat.le_refl _) (fun k _ => admitted k) (fun n member _ => whole n member) rests
      (rest + 1)
    obtain ⟨outcome, s', w', ended, concluded⟩ := simulates.succeed built whole stands
    have asked : (ofSource (l.source.next l.graph l.group)).act (s, (sim, w₁)) =
        (.ok none, (s, (sim, w₁))) := by
      rw [ofSource_act, simulates.next, stands.reaches.next_eq_none built (Nat.le_refl _)]
      rfl
    refine ⟨outcome, s', sim, w', ?_, concluded⟩
    rw [Launch.run, enough, Nat.add_assoc, climbed, Launch.runWaves, Step.act_bind_ok asked]
    exact ended
  | some levels =>
    obtain ⟨⟨n, stage, fails⟩, least⟩ := Graph.lowest?_eq_some.mp lowest
    obtain ⟨inside, level⟩ := Graph.mem_stage.mp stage
    have left : levels < l.graph.height := level ▸ Graph.level_lt_height inside
    obtain ⟨rest, enough⟩ := Nat.exists_eq_add_of_lt (Nat.lt_of_lt_of_le left (Nat.le_of_lt
      (Nat.lt_of_le_of_lt bound waves)))
    obtain ⟨journal, s, sim, w₁, climbed, stands⟩ := simulates.climb built materializes polls marks
      settled unused (Nat.le_of_lt left) (fun k _ => admitted k) (fun other member lower => by
        rw [Bool.eq_false_iff]
        exact fun fails => Nat.not_le.mpr lower (least other member fails)) rests (rest + 1)
    obtain ⟨wave, journal', s₁, sim', w₂, ends⟩ :=
      simulates.exists_ends built materializes polls marks stands left
    obtain ⟨s', w₃, ran, agrees, rests', _⟩ := simulates.commits ends (admitted levels)
    obtain ⟨outcome, s'', w', ended, concluded⟩ := simulates.fail built lowest ends.follows agrees rests'
    refine ⟨outcome, s'', sim', w', ?_, concluded⟩
    have some : start.lost wave.jobs ≠ [] := by
      rw [ends.jobs]
      intro none
      rw [(start.lost_jobs_eq_nil _).mp none n stage] at fails
      cases fails
    rw [Launch.run, enough, Nat.add_assoc, climbed, Launch.runWaves, Step.act_bind_ok ends.asked]
    dsimp only
    rw [Step.act_bind_ok ran]
    dsimp only
    rw [if_neg (by rwa [List.isEmpty_iff]), ends.jobs]
    exact ended

/-- A launch breaks off at a level where no node fails but a commit is refused. -/
theorem Simulates.refused (settled : start.running? = none) (unused : start.submissions = [])
    (left : levels < l.graph.height)
    (admitted : ∀ k < levels, b.admits (l.graph.wave c l.group k).jobs)
    (alive : ∀ n ∈ l.graph.nodes, l.graph.level n.id ≤ levels → start.fails n = false)
    (waves : l.graph.nodes.length < l.limits.waves) {w : W} (rests : b.rests .start w)
    {refusal : Error → Prop}
    (refuses : ∀ wave succeeded s sim w, wave.jobs = (l.graph.wave c l.group levels).jobs →
      s.committed.contains wave.seq = false → b.runs s wave sim w →
      (∀ job ∈ wave.jobs, succeeded.contains job.id = true ∧ sim.status job.id = .succeeded) →
      ∃ fault after, refusal fault ∧
        (l.source.commit wave succeeded).act (s, (sim, w)) = (.error fault, after)) :
    ∃ fault after, refusal fault ∧ l.run.act (.start, (start, w)) = (.error (.error fault), after) := by
  have bound := built.height_le
  obtain ⟨rest, enough⟩ := Nat.exists_eq_add_of_lt (Nat.lt_of_lt_of_le left (Nat.le_of_lt
    (Nat.lt_of_le_of_lt bound waves)))
  obtain ⟨journal, s, sim, w₁, climbed, stands⟩ := simulates.climb built materializes polls marks
    settled unused (Nat.le_of_lt left) admitted
    (fun n member lower => alive n member (Nat.le_of_lt lower)) rests (rest + 1)
  obtain ⟨wave, journal', s₁, sim', w₂, ends⟩ :=
    simulates.exists_ends built materializes polls marks stands left
  have distinct : (wave.jobs.map Job.id).Nodup := by
    rw [ends.jobs]
    show (List.map Job.id (l.graph.jobs c l.group _ _)).Nodup
    rw [Graph.map_id_jobs]
    exact List.nodup_range'
  have succeeds : ∀ job ∈ wave.jobs, ((start.done wave.jobs).map JobRecord.job).contains job.id = true ∧
      sim'.status job.id = .succeeded := by
    intro job member
    have verdict : ((start.done wave.jobs).map JobRecord.job).contains job.id = true := by
      rw [start.contains_done distinct member]
      obtain ⟨n, stage, is⟩ := Graph.exists_node_of_mem_jobs (ends.jobs ▸ member)
      obtain ⟨inside, level⟩ := Graph.mem_stage.mp stage
      rw [is, Simulation.scriptOf_job]
      exact Option.not_isSome_iff_eq_none.mp (Bool.eq_false_iff.mp (alive n inside (Nat.le_of_eq level)))
    exact ⟨verdict, (ends.verdicts job member).mp verdict⟩
  obtain ⟨fault, after, refusal, refused⟩ := refuses wave _ s₁ sim' w₂ ends.jobs ends.fresh ends.runs succeeds
  refine ⟨fault, after, refusal, ?_⟩
  have broken : (l.runWave wave journal).act (s₁, (sim, w₁)) = (.error (.error fault), after) := by
    refine ends.ran.trans (Step.act_bind_error ?_)
    rw [ofSource_act, refused]
    rfl
  rw [Launch.run, enough, Nat.add_assoc, climbed, Launch.runWaves, Step.act_bind_ok ends.asked]
  exact Step.act_bind_error broken

end Climbing

/-- A launch that leaves outputs in place ends as foreseen. -/
theorem Simulates.run (simulates : l.Simulates c .idle) (built : l.graph.Built)
    (materializes : l.graph.Materializes c) (standard : JobScript) (scripts : List (Nat × JobScript))
    (waves : l.graph.nodes.length < l.limits.waves)
    (polls : ∀ n ∈ l.graph.nodes,
      ((Simulation.scripted standard scripts).nodeScript n).duration ≤ l.limits.polls) (w : W) :
    ∃ outcome s' final w',
      l.run.act (.start, (.scripted standard scripts, w)) = (.ok outcome, (s', (final, w'))) ∧
      Foreseen c l.graph l.group (.scripted standard scripts) outcome final := by
  obtain ⟨settled, unused, marks⟩ := Simulation.scripted_unused standard scripts
  obtain ⟨outcome, s, final, w', ran, concluded⟩ := simulates.concluded built materializes polls marks
    settled unused (fun _ => trivial) waves trivial
  exact ⟨outcome, s, final, w', ran, concluded.foreseen⟩

end Launch

namespace CommandLine

theorem duration_le_polls (g : Graph) (script : JobScript) :
    script.duration ≤ (simulationLimits g).polls := by
  have bound : (simulationLimits g).polls = UInt32.size := rfl
  rw [bound, JobScript.duration, Nat.max_le]
  exact ⟨by decide, Nat.le_of_lt script.ticks.toNat_lt⟩

variable {m : Type → Type} [Monad m] [LawfulMonad m] {W : Type} [Stateful m W] {o : RunOptions}

/-- A run that leaves no markers launches its graph on a fresh schedule and a fresh cluster. -/
theorem launch_act (machine : Machine m) (plain : o.commit = false) (w : W) :
    (launch machine o c g).act w =
      let site : Site (StateT Simulation m) Float :=
        .simulated machine.files (simulationLimits g) (machine.sleep c.pollIntervalMs.toNat)
      let ended := (site.launch c g o.group).run.act (.start, (o.simulation, w))
      (ended.1.mapError CommandFault.launch, ended.2.2.2) := by
  rw [launch, plain, Step.act_adapt, Step.act]
  simp only [ExceptT.run_mk, act_run', Bool.false_eq_true, if_false, Committer.widen_idle]
  rfl

/-- A command that runs a graph on the simulated cluster and leaves no markers ends as foreseen. -/
theorem launch_foreseen {scope : String} {nodes : List Node}
    (made : Graph.ofNodes scope nodes = .ok g) (materializes : g.Materializes c)
    (machine : Machine m) (plain : o.commit = false) (w : W) :
    ∃ outcome final w', (launch machine o c g).act w = (.ok outcome, w') ∧
      Foreseen c g o.group o.simulation outcome final := by
  have scripted : o.simulation = .scripted .standard (o.failNodes.map fun node =>
      (node, .failing ("scripted failure of " ++ nodeLabel node))) := by
    rw [RunOptions.simulation, plain, Simulation.scripted, List.foldl_map]
  obtain ⟨outcome, s, final, w', ran, foreseen⟩ :=
    (Site.simulated_simulates (α := Float) machine.files (simulationLimits g)
      (machine.sleep c.pollIntervalMs.toNat) c g o.group).run (Graph.built_of_ofNodes made).1
      materializes .standard _ (Nat.lt_succ_self _) (fun n _ => duration_le_polls g _) w
  rw [← scripted] at ran foreseen
  refine ⟨outcome, final, w', ?_, foreseen⟩
  rw [launch_act machine plain]
  simp only [ran]
  rfl

end CommandLine

end Wavefront
