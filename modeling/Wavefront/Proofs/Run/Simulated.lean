import Wavefront.Proofs.Run.Levels
import Wavefront.Proofs.Run.Rounds
import Wavefront.Proofs.Run.Sourcing
import Wavefront.Proofs.Run.Ticking
set_option autoImplicit false

/-!
Waves on the simulated cluster. Nothing that such a launch asks for is refused, and it goes on looking
at a wave until the longest of its jobs has ended. Main statement: a wave that begins when all others
have ended is submitted, looked at and committed, and its jobs are recorded as their scripts say.
-/
namespace Wavefront

/-- The record of a job that has gone by its script. -/
def JobScript.verdict (script : JobScript) (job : Job) : JobRecord :=
  match script.failure with
  | some message => .ofJob job .failed (some message)
  | none => .ofJob job .succeeded none

namespace Simulation

def done (s : Simulation) (jobs : List Job) : List JobRecord :=
  (jobs.filter fun job => (s.scriptOf job).failure.isNone).map fun job => .ofJob job .succeeded none

/-- The records of the jobs that fail by their scripts, with what their scripts say. -/
def lost (s : Simulation) (jobs : List Job) : List JobRecord :=
  jobs.filterMap fun job => (s.scriptOf job).failure.map fun message => .ofJob job .failed (some message)

variable (s : Simulation)

theorem done_cons (job : Job) (rest : List Job) : s.done (job :: rest) =
    match (s.scriptOf job).failure with
    | some _ => s.done rest
    | none => .ofJob job .succeeded none :: s.done rest := by
  cases failure : (s.scriptOf job).failure <;> simp [done, failure]

theorem lost_cons (job : Job) (rest : List Job) : s.lost (job :: rest) =
    match (s.scriptOf job).failure with
    | some message => .ofJob job .failed (some message) :: s.lost rest
    | none => s.lost rest := by
  cases failure : (s.scriptOf job).failure <;> simp [lost, failure]

@[simp] theorem done_append (first second : List Job) :
    s.done (first ++ second) = s.done first ++ s.done second := by
  rw [done, List.filter_append, List.map_append, done, done]

@[simp] theorem lost_append (first second : List Job) :
    s.lost (first ++ second) = s.lost first ++ s.lost second :=
  List.filterMap_append

theorem lost_eq_nil {jobs : List Job} :
    s.lost jobs = [] ↔ ∀ job ∈ jobs, (s.scriptOf job).failure = none := by
  simp [lost]

theorem filter_done_eq_self {jobs : List Job} (whole : s.lost jobs = []) :
    (jobs.filter fun job => ((s.done jobs).map JobRecord.job).contains job.id) = jobs := by
  refine List.filter_eq_self.mpr fun job member => ?_
  have succeeds := s.lost_eq_nil.mp whole job member
  have among : JobRecord.ofJob job .succeeded none ∈ s.done jobs :=
    List.mem_map_of_mem (List.mem_filter.mpr ⟨member, by rw [succeeds]; rfl⟩)
  simpa using ⟨_, among, rfl⟩

/-- Of jobs with different numbers those are done that do not fail by their scripts. -/
theorem contains_done {jobs : List Job} (distinct : (jobs.map Job.id).Nodup) {job : Job}
    (member : job ∈ jobs) : ((s.done jobs).map JobRecord.job).contains job.id = true ↔
      (s.scriptOf job).failure = none := by
  rw [done, List.map_map, List.contains_iff_mem, List.mem_map]
  constructor
  · rintro ⟨other, among, same⟩
    obtain ⟨there, succeeds⟩ := List.mem_filter.mp among
    obtain rfl : other = job := List.inj_on_of_nodup_map distinct there member same
    exact Option.isNone_iff_eq_none.mp succeeds
  · intro succeeds
    exact ⟨job, List.mem_filter.mpr ⟨member, by rw [succeeds]; rfl⟩, rfl⟩

theorem exists_job_of_mem_done {jobs : List Job} {r : JobRecord} (member : r ∈ s.done jobs) :
    ∃ job ∈ jobs, r.job = job.id := by
  obtain ⟨job, among, rfl⟩ := List.mem_map.mp member
  exact ⟨job, (List.mem_filter.mp among).1, rfl⟩

theorem exists_job_of_mem_lost {jobs : List Job} {r : JobRecord} (member : r ∈ s.lost jobs) :
    ∃ job ∈ jobs, r.job = job.id := by
  obtain ⟨job, among, made⟩ := List.mem_filterMap.mp member
  obtain ⟨message, _, rfl⟩ := Option.map_eq_some_iff.mp made
  exact ⟨job, among, rfl⟩

/-- The jobs that succeed, of all that have gone by their scripts. -/
theorem filter_verdicts (jobs : List Job) :
    ((jobs.map fun job => (s.scriptOf job).verdict job).filter fun r => r.status == .succeeded) =
      s.done jobs := by
  induction jobs with
  | nil => rfl
  | cons job rest ih =>
    rw [List.map_cons, done_cons, JobScript.verdict]
    cases (s.scriptOf job).failure with
    | some message => exact (List.filter_cons_of_neg (by simp [JobRecord.ofJob])).trans ih
    | none => exact (List.filter_cons_of_pos (by simp [JobRecord.ofJob])).trans (congrArg _ ih)

/-- The jobs that fail. -/
theorem filter_not_verdicts (jobs : List Job) :
    ((jobs.map fun job => (s.scriptOf job).verdict job).filter fun r => !(r.status == .succeeded)) =
      s.lost jobs := by
  induction jobs with
  | nil => rfl
  | cons job rest ih =>
    rw [List.map_cons, lost_cons, JobScript.verdict]
    cases (s.scriptOf job).failure with
    | some message => exact (List.filter_cons_of_pos (by simp [JobRecord.ofJob])).trans (congrArg _ ih)
    | none => exact (List.filter_cons_of_neg (by simp [JobRecord.ofJob])).trans ih

end Simulation

theorem Committer.widen_idle {S : Type} {m : Type → Type} [Monad m] [LawfulMonad m] :
    ((idle : Committer m).widen : Committer (StateT S m)) = idle := by
  have kept : ((pure () : Step m CommitFault Unit).widen : Step (StateT S m) CommitFault Unit) =
      pure () :=
    ExceptT.ext (StateT.ext fun _ => pure_bind _ _)
  simp only [widen, idle, kept]

namespace Schedule

variable {m : Type → Type} [Monad m] {W : Type} [Stateful m W] {s : Schedule} (w : W)

theorem commit_act_of_fresh (committer : Committer m) {wave : Wave}
    (fresh : s.committed.contains wave.seq = false) (succeeded : List Nat) :
    (commit committer wave succeeded).act (s, w) =
      ((wave.jobs.filter fun job => succeeded.contains job.id).forM (commitJob committer)).act
        ({ s with committed := s.committed.insert wave.seq }, w) := by
  rw [commit, Step.act_bind_ok (Step.act_get s w)]
  simp only [fresh, Bool.false_eq_true, if_false]
  exact Step.act_bind_ok (Step.act_set _ _ w)

theorem cleanup_act_eq (committer : Committer m) (s : Schedule) :
    (cleanup committer).act (s, w) =
      (s.temporaries.forM (discardJob committer)).act ({ s with temporaries := [] }, w) := by
  rw [cleanup, Step.act_bind_ok (Step.act_get s w)]
  exact Step.act_bind_ok (Step.act_set _ _ w)

variable [LawfulMonad m]

theorem commitJob_ok {committer : Committer m} {job : Job} {w w' : W}
    (stored : (committer.commit job).act w = (.ok (), w')) (s : Schedule) :
    (commitJob committer job).act (s, w) = (.ok ⟨⟩, (s.complete job, w')) := by
  have worded : Step.act (ExceptT.adapt (Error.commit job.name) (committer.commit job).widen :
      Step (StateT Schedule m) Error Unit) (s, w) = (.ok (), (s, w')) := by
    rw [Step.act_adapt, Step.act_widen, stored]
    rfl
  rw [commitJob, Step.act_bind_ok worded, Step.act_modify]

theorem discardJob_ok {committer : Committer m} {job : Job} {w w' : W}
    (dropped : (committer.discard job).act w = (.ok (), w')) (s : Schedule) :
    (discardJob committer job).act (s, w) = (.ok ⟨⟩, (s, w')) := by
  rw [discardJob, Step.act_adapt, Step.act_widen, dropped]
  rfl

theorem forM_commitJob_idle (s : Schedule) (jobs : List Job) :
    (jobs.forM (commitJob (Committer.idle : Committer m))).act (s, w) =
      (.ok ⟨⟩, (jobs.foldl complete s, w)) := by
  induction jobs generalizing s with
  | nil => exact Step.act_forM_nil _ _
  | cons job rest ih =>
    rw [Step.act_forM_cons, commitJob_ok (Step.act_pure () w), List.foldl_cons, ← ih]

theorem commit_idle {wave : Wave} (fresh : s.committed.contains wave.seq = false)
    (succeeded : List Nat) :
    (commit (Committer.idle : Committer m) wave succeeded).act (s, w) =
      (.ok ⟨⟩, ((wave.jobs.filter fun job => succeeded.contains job.id).foldl complete
        { s with committed := s.committed.insert wave.seq }, w)) := by
  rw [commit_act_of_fresh w _ fresh, forM_commitJob_idle]

theorem cleanup_idle (s : Schedule) :
    (cleanup (Committer.idle : Committer m)).act (s, w) =
      (.ok ⟨⟩, ({ s with temporaries := [] }, w)) := by
  rw [cleanup_act_eq]
  induction s.temporaries with
  | nil => exact Step.act_forM_nil _ _
  | cons job rest ih =>
    rw [Step.act_forM_cons, discardJob_ok (Step.act_pure () w)]
    exact ih

end Schedule

namespace Launch

variable {M : Type → Type} [Monad M] {W : Type} [Stateful M (Schedule × (Simulation × W))] {α : Type}
  [ProgressNumber α]

/-- What the world beside a schedule and a simulated cluster is like: between two waves, and while a wave
runs. -/
structure Backdrop (W : Type) where
  /-- Whether jobs leave markers. -/
  marks : Bool
  /-- The jobs whose outputs can be put in place. -/
  admits : List Job → Prop
  rests : Schedule → W → Prop
  runs : Schedule → Wave → Simulation → W → Prop

/-- Where outputs stay in place the world may be as it likes. -/
def Backdrop.idle {W : Type} : Backdrop W :=
  ⟨false, fun _ => True, fun _ _ => True, fun _ _ sim _ => sim.marks = false⟩

/-- The calls of a launch do what a schedule and the simulated cluster do. Waves run without a fault, they
are committed without one if the backdrop admits it, and the world stays as the backdrop says; a pause may
change the rest of it. -/
structure Simulates (l : Launch M α) (c : RunConfig) (b : Backdrop W) : Prop where
  next : ∀ g group s w, (l.source.next g group).act (s, w) =
    match s.next c g group with
    | .error e => (.error e, (s, w))
    | .ok none => (.ok none, (s, w))
    | .ok (some (wave, s')) => (.ok (some wave), (s', w))
  commit : ∀ wave succeeded s sim w, b.admits wave.jobs → s.committed.contains wave.seq = false →
    b.runs s wave sim w → sim.running? = none →
    (∀ job ∈ wave.jobs, succeeded.contains job.id = true ↔ sim.status job.id = .succeeded) →
    ∃ w', (l.source.commit wave succeeded).act (s, (sim, w)) =
        (.ok ⟨⟩, ((wave.jobs.filter fun job => succeeded.contains job.id).foldl Schedule.complete
          { s with committed := s.committed.insert wave.seq }, (sim, w'))) ∧
      b.rests ((wave.jobs.filter fun job => succeeded.contains job.id).foldl Schedule.complete
        { s with committed := s.committed.insert wave.seq }) w'
  cleanup : ∀ s sim w, b.rests s w → ∃ w', l.source.cleanup.act (s, (sim, w)) =
    (.ok ⟨⟩, ({ s with temporaries := [] }, (sim, w'))) ∧ b.rests { s with temporaries := [] } w'
  submit : ∀ wave s sim sim' w, sim.submit wave = .ok sim' →
    (l.cluster.submit wave).act (s, (sim, w)) = (.ok ⟨⟩, (s, (sim', w)))
  begins : ∀ levels s s' wave sim sim' w, s.Reaches l.graph levels →
    s.next c l.graph l.group = .ok (some (wave, s')) → sim.marks = b.marks →
    Simulation.Running sim wave 0 sim' → b.rests s w → b.runs s' wave sim' w
  look : ∀ s wave sim w, b.runs s wave sim w → ∃ w', l.cluster.allFinished.act (s, (sim, w)) =
    (.ok sim.ticked.running?.isNone, (s, (sim.ticked, w'))) ∧ b.runs s wave sim.ticked w'
  progress : ∀ id s sim w, Stateful.act (l.cluster.progress id) (s, (sim, w)) =
    (sim.progress id, (s, (sim, w)))
  status : ∀ id s sim w, Stateful.act (l.cluster.status id) (s, (sim, w)) =
    (sim.status id, (s, (sim, w)))
  message : ∀ id s sim w, Stateful.act (l.cluster.message id) (s, (sim, w)) =
    ((sim.job? id).bind SimulatedJob.message, (s, (sim, w)))
  stop : ∀ s sim w, l.cluster.stop.act (s, (sim, w)) = (.ok ⟨⟩, (s, (sim.stop, w)))
  stats : ∀ id job s sim w, sim.job? id = some job →
    (l.cluster.stats id).act (s, (sim, w)) = (.ok job.stats, (s, (sim, w)))
  pause : ∀ s sim w, ∃ w', Stateful.act l.pause (s, (sim, w)) = ((), (s, (sim, w'))) ∧
    ∀ wave, b.runs s wave sim w → b.runs s wave sim w'

variable {l : Launch M α} {c : RunConfig} {b : Backdrop W} {base sim : Simulation} {wave : Wave} {ticks : Nat}

/-- A job that has ended is recorded as its script says. -/
theorem Simulates.record (simulates : l.Simulates c b) {job : Job} {script : JobScript}
    (ended : sim.job? job.id = some (.ended job script)) (s : Schedule) (w : W) :
    Stateful.act (l.record job) (s, (sim, w)) = (script.verdict job, (s, (sim, w))) := by
  have status : sim.status job.id = if script.failure.isSome then .failed else .succeeded := by
    rw [Simulation.status, ended]
    exact SimulatedJob.ended_status job script
  have message : (sim.job? job.id).bind SimulatedJob.message = script.failure := by
    rw [ended]
    exact SimulatedJob.ended_message job script
  rw [Launch.record, Stateful.act_bind, simulates.status, status, JobScript.verdict]
  cases failure : script.failure with
  | none => exact Stateful.act_pure _ _
  | some text =>
    show Stateful.act (l.cluster.message job.id >>= _) _ = _
    rw [Stateful.act_bind, simulates.message, message, failure, Stateful.act_pure]
    rfl

variable [LawfulMonad M]

/-- Looking goes on until the longest job of a wave has ended. -/
theorem Simulates.poll (simulates : l.Simulates c b) (distinct : wave.jobIds.Nodup) (looks : Nat)
    (running : Simulation.Running base wave ticks sim)
    (pending : ∃ job ∈ wave.jobs, ticks < (base.scriptOf job).duration)
    (enough : ∀ job ∈ wave.jobs, (base.scriptOf job).duration ≤ ticks + looks)
    (journal : Journal α) {s : Schedule} {w : W} (runs : b.runs s wave sim w) :
    ∃ journal' ticks' sim' w', (l.poll wave looks journal).act (s, (sim, w)) =
        (.ok journal', (s, (sim', w'))) ∧
      Simulation.Running base wave ticks' sim' ∧ b.runs s wave sim' w' ∧
      (∀ job ∈ wave.jobs, (base.scriptOf job).duration ≤ ticks') ∧
      journal'.waves = journal.waves ∧ journal'.successful = journal.successful := by
  -- Each look is a tick for all jobs of the wave, so the looks left make up for the ticks missing.
  induction looks generalizing ticks sim journal w runs with
  | zero =>
    obtain ⟨job, member, short⟩ := pending
    exact absurd (enough job member) (Nat.not_le.mpr short)
  | succ looks ih =>
    have later := running.ticked distinct
    obtain ⟨w₁, found, runs⟩ := simulates.look s wave sim w runs
    have looked : (ofCluster l.cluster.allFinished).act (s, (sim, w)) =
        (.ok sim.ticked.running?.isNone, (s, (sim.ticked, w₁))) := by
      rw [ofCluster_act, found]
      rfl
    have read : (wave.jobs.mapM fun job => (liftM (l.cluster.progress job.id) :
        Step M LaunchFault α)).act (s, (sim.ticked, w₁)) =
          (.ok (wave.jobs.map fun job => sim.ticked.progress job.id), (s, (sim.ticked, w₁))) :=
      Step.act_mapM_of_forall fun job _ => by rw [Step.act_liftM, simulates.progress]
    rw [Launch.poll, Step.act_bind_ok looked, Step.act_bind_ok read]
    cases past : sim.ticked.running? with
    | none =>
      exact ⟨_, ticks + 1, sim.ticked, w₁, Step.act_pure _ _, later, runs,
        later.running?_eq_none.mp past, rfl, rfl⟩
    | some id =>
      have unfinished : ¬ ∀ job ∈ wave.jobs, (base.scriptOf job).duration ≤ ticks + 1 := by
        rw [← later.running?_eq_none, past]
        exact Option.some_ne_none id
      simp only [not_forall, Nat.not_le, exists_prop] at unfinished
      obtain ⟨w₂, paused, kept⟩ := simulates.pause s sim.ticked w₁
      have waited : (liftM l.pause : Step M LaunchFault Unit).act (s, (sim.ticked, w₁)) =
          (.ok (), (s, (sim.ticked, w₂))) := by
        rw [Step.act_liftM, paused]
      have left : ∀ job ∈ wave.jobs, (base.scriptOf job).duration ≤ ticks + 1 + looks :=
        fun job member => Nat.add_right_comm ticks looks 1 ▸ enough job member
      obtain ⟨journal', ticks', sim', w', ran, rest⟩ := ih later unfinished left
        (journal.observe (wave.jobs.map fun job => sim.ticked.progress job.id)) (kept wave runs)
      exact ⟨journal', ticks', sim', w', (Step.act_bind_ok waited).trans ran, rest⟩

/-- The records of jobs that the cluster knows are filled with what the jobs report. -/
theorem Simulates.withStats (simulates : l.Simulates c b) {records : List JobRecord}
    (known : ∀ r ∈ records, ∃ job, sim.job? r.job = some job) (s : Schedule) (w : W) :
    (records.mapM l.withStats).act (s, (sim, w)) =
      (.ok (records.map fun r => { r with stats := (sim.job? r.job).map SimulatedJob.stats }),
        (s, (sim, w))) := by
  refine Step.act_mapM_of_forall fun r member => ?_
  obtain ⟨job, there⟩ := known r member
  have reported : (ofCluster (l.cluster.stats r.job)).act (s, (sim, w)) =
      (.ok job.stats, (s, (sim, w))) := by
    rw [ofCluster_act, simulates.stats r.job job s sim w there]
    rfl
  rw [Launch.withStats, Step.act_bind_ok reported, Step.act_pure, there]
  rfl

/-- A wave that begins when all others have ended is submitted and looked at until it has ended; then it
is to be committed, with the jobs that succeed by their scripts. -/
theorem Simulates.runWave_ends (simulates : l.Simulates c b) (settled : base.running? = none)
    (distinct : wave.jobIds.Nodup) (some : wave.jobs ≠ [])
    (enough : ∀ job ∈ wave.jobs, (base.scriptOf job).duration ≤ l.limits.polls) {s : Schedule}
    (journal : Journal α) {w : W}
    (begun : ∀ sim, Simulation.Running base wave 0 sim → b.runs s wave sim w) :
    ∃ journal' ticks sim' w', (l.runWave wave journal).act (s, (base, w)) =
        (do
          ofSource (l.source.commit wave ((base.done wave.jobs).map JobRecord.job))
          return (journal', base.lost wave.jobs)).act (s, (sim', w')) ∧
      b.runs s wave sim' w' ∧ Simulation.Running base wave ticks sim' ∧
      (∀ job ∈ wave.jobs, (base.scriptOf job).duration ≤ ticks) ∧
      (∀ job ∈ wave.jobs, ((base.done wave.jobs).map JobRecord.job).contains job.id = true ↔
        sim'.status job.id = .succeeded) ∧
      journal'.waves = journal.waves ++ [wave.jobIds] ∧
      journal'.successful = journal.successful ++ base.done wave.jobs := by
  obtain ⟨sim₁, accepted, running⟩ := Simulation.exists_submitted settled distinct
  have submitted : (ofCluster (l.cluster.submit wave)).act (s, (base, w)) =
      (.ok ⟨⟩, (s, (sim₁, w))) := by
    rw [ofCluster_act, simulates.submit wave s base sim₁ w accepted]
    rfl
  obtain ⟨job, first⟩ := List.exists_mem_of_ne_nil _ some
  have pending : 0 < (base.scriptOf job).duration :=
    Nat.lt_of_lt_of_le Nat.one_pos (Nat.le_max_left _ _)
  obtain ⟨journal', ticks, sim', w', polled, running', runs, past, waves, successful⟩ :=
    simulates.poll distinct l.limits.polls running ⟨job, first, pending⟩
      (fun job member => (Nat.zero_add _).symm ▸ enough job member) (journal.submitted wave)
      (begun sim₁ running)
  have ended : ∀ job ∈ wave.jobs, sim'.job? job.id = .some (.ended job (base.scriptOf job)) := by
    intro job member
    rw [running'.jobs job member, SimulatedJob.after_of_le job _ (past job member)]
  have recorded : (wave.jobs.mapM fun job => (liftM (l.record job) : Step M LaunchFault JobRecord)).act
      (s, (sim', w')) =
        (.ok (wave.jobs.map fun job => (base.scriptOf job).verdict job), (s, (sim', w'))) :=
    Step.act_mapM_of_forall fun job member => by
      rw [Step.act_liftM, simulates.record (ended job member)]
  refine ⟨journal'.finished wave (base.done wave.jobs), ticks, sim', w', ?_, runs, running', past,
    fun job member => ?_, waves, ?_⟩
  · rw [Launch.runWave, Step.act_bind_ok submitted, Step.act_bind_ok polled, Step.act_bind_ok recorded,
      List.partition_eq_filter_filter, base.filter_verdicts, ← base.filter_not_verdicts wave.jobs]
    rfl
  · rw [base.contains_done distinct member, Simulation.status, ended job member]
    simp [SimulatedJob.ended_status]
  · show journal'.successful ++ base.done wave.jobs = _
    rw [successful]
    rfl

end Launch

namespace Site

variable {m : Type → Type} [Monad m] {α : Type} [ProgressNumber α]

/-- A site where jobs go by their scripts and outputs stay where they are. -/
def simulated (fs : FileSystem m) (limits : Limits) (pause : m Unit) :
    Site (StateT Simulation m) α where
  committer := .idle
  cluster := Simulation.cluster fs
  limits := limits
  pause := MonadLift.monadLift pause

theorem simulated_simulates [LawfulMonad m] {W : Type} [Stateful m W] (fs : FileSystem m)
    (limits : Limits) (pause : m Unit) (c : RunConfig) (g : Graph) (group : String) :
    ((simulated fs limits pause : Site (StateT Simulation m) α).launch c g group).Simulates c
      (Launch.Backdrop.idle : Launch.Backdrop W) where
  next _ _ s w := Schedule.next_act .idle s w
  commit _ succeeded s sim w _ fresh _ _ _ := ⟨w, Schedule.commit_idle (sim, w) fresh succeeded, trivial⟩
  cleanup s sim w _ := ⟨w, Schedule.cleanup_idle (sim, w) s, trivial⟩
  submit wave s sim sim' w submitted :=
    (Step.act_widen _ s _).trans (by rw [simulated, Simulation.submit_act fs submitted])
  begins _ _ _ _ _ _ _ _ _ unmarked running _ := running.marks.trans unmarked
  look s wave sim w unmarked :=
    ⟨w, (Step.act_widen _ s _).trans (by rw [simulated, Simulation.allFinished_act_unmarked fs unmarked]),
      sim.ticked_marks.trans unmarked⟩
  progress id s sim w :=
    (act_monadLift _ s _).trans (by rw [simulated, Simulation.progress_act])
  status id s sim w :=
    (act_monadLift _ s _).trans (by rw [simulated, Simulation.status_act])
  message id s sim w :=
    (act_monadLift _ s _).trans (by rw [simulated, Simulation.message_act])
  stop s sim w := (Step.act_widen _ s _).trans (by rw [simulated, Simulation.stop_act])
  stats id job s sim w there :=
    (Step.act_widen _ s _).trans (by rw [simulated, Simulation.stats_act fs there])
  pause s sim w := by
    refine ⟨(Stateful.act pause w).2, ?_, fun _ => id⟩
    exact (act_monadLift _ s _).trans (by rw [simulated, act_monadLift])

end Site

end Wavefront
