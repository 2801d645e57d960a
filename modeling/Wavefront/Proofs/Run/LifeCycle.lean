import Wavefront.Proofs.Run.Ledger
set_option autoImplicit false

/-!
The life cycle of outputs. Main statement: on a compiled graph, whatever the cluster and the committer
do, a job is submitted only when what it reads is in place, an output is put in place once and after its
job has succeeded, final outputs stay, and temporary ones are dropped at the end of a run, once each.
-/
namespace Wavefront

variable {σ α : Type}

/-- What becomes of the outputs of a launch. -/
structure LifeCycle (g : Graph) (result : Except LaunchFault (Outcome α)) (events : List Event) :
    Prop where
  /-- What the jobs of a wave read is in place when the wave is submitted. -/
  supplied : ∀ before wave answer after, events = before ++ .submit wave answer :: after →
    ∀ job ∈ wave.jobs, Supplied g before job
  /-- No node has two jobs. -/
  once : ((submittedJobs events).flatMap Job.nodes).Nodup
  /-- The committer is asked once to put the output of a job in place, after the job has succeeded. -/
  stored_once : ((events.filterMap Event.stored?).map Job.id).Nodup
  stored : ∀ before job answer after, events = before ++ .store job answer :: after →
    HasSucceeded before job
  /-- Only temporary outputs are dropped. -/
  dropped : ∀ job answer, .discard job answer ∈ events → job.temporary = true ∧
    ∃ n ∈ g.nodes, job.nodes = [n.id] ∧ n.output.isTemporary = true
  /-- A run that ends with an outcome drops each temporary output that was put in place, once. -/
  cleaned : ∀ outcome, result = .ok outcome →
    events.filterMap Event.dropped? = temporaries events ∧ ((temporaries events).map Job.id).Nodup
  /-- Nothing is put in place once an output was dropped. -/
  last : ∃ before after, events = before ++ after ∧ before.filterMap Event.dropped? = [] ∧
    after.filterMap Event.stored? = []

namespace Ledger

variable {c : RunConfig} {g : Graph} {group : String} {s : Schedule} {log rest : List Event}
  {result : Except LaunchFault (Outcome α)} {committer : Committer (StateM σ)}

/-- What a ledger says of a launch that breaks off. -/
theorem lifeCycle_of_error (ledger : Ledger c g group s log) {fault : LaunchFault}
    (failed : result = .error fault) : LifeCycle g result log where
  supplied before wave answer after is := ledger.orderly before _ after is
  once := ledger.once
  stored_once := ledger.distinct
  stored before job answer after is := ledger.orderly before _ after is
  dropped job answer member := absurd member (ledger.not_dropped job answer)
  cleaned outcome is := by
    rw [failed] at is
    cases is
  last := ⟨log, [], (List.append_nil log).symm, ledger.kept, rfl⟩

theorem node_of_temporary (ledger : Ledger c g group s log) {job : Job} (member : job ∈ s.temporaries) :
    job.temporary = true ∧ ∃ n ∈ g.nodes, job.nodes = [n.id] ∧ n.output.isTemporary = true := by
  rw [ledger.remembered] at member
  obtain ⟨placed, temporary⟩ := List.mem_filter.mp member
  obtain ⟨e, there, is⟩ := List.mem_filterMap.mp placed
  rw [Event.eq_store_of_placed? is] at there
  obtain ⟨n, among, own⟩ := ledger.made job (ledger.succeeded_of_store there).submitted
  have output : job.temporary = n.output.isTemporary := congrArg Job.temporary own
  exact ⟨temporary, n, among, congrArg Job.nodes own, output.symm.trans temporary⟩

/-- What a ledger says of a launch that cleans up. -/
theorem lifeCycle_of_shuts (ledger : Ledger c g group s log)
    (shuts : Shuts committer s result rest) : LifeCycle g result (log ++ rest) := by
  have none : rest.filterMap Event.stored? = [] := by
    refine List.filterMap_eq_nil_iff.mpr fun e member => ?_
    rcases shuts.eq_of_mem member with ⟨_, _, _, rfl⟩ | ⟨_, _, rfl⟩ <;> rfl
  have unsubmitted : rest.filterMap Event.submitted? = [] := by
    refine List.filterMap_eq_nil_iff.mpr fun e member => ?_
    rcases shuts.eq_of_mem member with ⟨_, _, _, rfl⟩ | ⟨_, _, rfl⟩ <;> rfl
  have orderly : Throughout (Orderly g) (log ++ rest) := by
    refine ledger.orderly.append (.of_forall fun before e member => ?_)
    rcases shuts.eq_of_mem member with ⟨_, _, _, rfl⟩ | ⟨_, _, rfl⟩ <;> trivial
  refine ⟨fun before wave answer after is => orderly before _ after is, ?_, ?_,
    fun before job answer after is => orderly before _ after is, fun job answer member => ?_,
    fun outcome ended => ?_, ⟨log, rest, rfl, ledger.kept, none⟩⟩
  · rw [submittedJobs, List.filterMap_append, unsubmitted, List.append_nil]
    exact ledger.once
  · rw [List.filterMap_append, none, List.append_nil]
    exact ledger.distinct
  · rcases List.mem_append.mp member with before | now
    · exact absurd before (ledger.not_dropped job answer)
    · rcases shuts.eq_of_mem now with ⟨_, remembered, _, is⟩ | ⟨_, _, is⟩
      · cases is
        exact ledger.node_of_temporary remembered
      · cases is
  · rw [shuts.temporaries_append, List.filterMap_append, ledger.kept, List.nil_append,
      shuts.dropped (.inl ⟨outcome, ended⟩), ledger.remembered]
    exact ⟨rfl, ledger.toTally.distinct_temporaries⟩

end Ledger

/-- Whatever the cluster and the committer do, each output of a launch of a compiled graph has its life
cycle. -/
theorem Site.launch_lifeCycle [ProgressNumber α] (site : Site (StateM σ) α) {p : Plan}
    {config : RunConfig} {g : Graph} (compiled : p.compile config = .ok g) (c : RunConfig)
    (group : String) (world : σ) :
    LifeCycle g (site.result c g group world) (site.events c g group world) := by
  have built := Plan.built_of_compile compiled
  have linked := Plan.linked_of_compile compiled
  obtain ⟨s, log, ledger, ⟨⟨fault, failed⟩, is⟩ | ⟨rest, shuts, is⟩⟩ :=
    site.closes c g group (Ledger.kept_ledger built linked site.committer c group)
      (Ledger.start c g group) world
  · rw [is]
    exact ledger.lifeCycle_of_error failed
  · rw [is]
    exact ledger.lifeCycle_of_shuts shuts

/-- The visits that lasted are read by two nodes. -/
theorem Site.launch_lifeCycle_visitCounts : ∃ g, Plan.visitCounts.compile .standard = .ok g ∧
    LifeCycle g ((Site.admitting 2).result .standard g "run" 0)
      ((Site.admitting 2).events .standard g "run" 0) := by
  obtain ⟨g, compiled⟩ : ∃ g, Plan.visitCounts.compile .standard = .ok g := ⟨_, rfl⟩
  exact ⟨g, compiled, (Site.admitting 2).launch_lifeCycle compiled .standard "run" 0⟩

end Wavefront
