import Wavefront.Proofs.Lookup
import Wavefront.Proofs.Step
import Wavefront.Run.Simulation
set_option autoImplicit false

/-!
Ticks of the simulated cluster. A job runs for as many ticks as its script says, at least one, and is
then as the script says; a tick touches the jobs of the last wave and no other. Main statement: after so
many looks at a wave each of its jobs has come as far as its script, and the wave has ended exactly if
that was enough for the longest of them.
-/
namespace Wavefront

/-- The ticks that a job takes. -/
def JobScript.duration (s : JobScript) : Nat := max 1 s.ticks.toNat

namespace SimulatedJob

def tick (s : SimulatedJob) : SimulatedJob :=
  if s.status.isTerminal then s else if s.advance.isDue then s.advance.conclude else s.advance

/-- A job of a script that has run for some ticks and goes on. -/
def underWay (job : Job) (script : JobScript) (ticks : Nat) : SimulatedJob :=
  { start job script with ticksDone := ticks }

def ended (job : Job) (script : JobScript) : SimulatedJob :=
  (underWay job script script.duration).conclude

def after (job : Job) (script : JobScript) (ticks : Nat) : SimulatedJob :=
  if ticks < script.duration then underWay job script ticks else ended job script

variable (job : Job) (script : JobScript)

@[simp] theorem after_zero : after job script 0 = start job script :=
  if_pos (Nat.lt_of_lt_of_le Nat.one_pos (Nat.le_max_left _ _))

theorem after_of_le {ticks : Nat} (past : script.duration ≤ ticks) :
    after job script ticks = ended job script :=
  if_neg (Nat.not_lt.mpr past)

theorem ended_status :
    (ended job script).status = if script.failure.isSome then .failed else .succeeded := by
  cases failure : script.failure <;> simp [ended, conclude, underWay, start, failure]

@[simp] theorem ended_message : (ended job script).message = script.failure := by
  cases failure : script.failure <;> simp [ended, conclude, underWay, start, failure]

@[simp] theorem ended_isTerminal : (ended job script).status.isTerminal = true := by
  rw [ended_status]
  cases script.failure <;> rfl

@[simp] theorem after_isTerminal (ticks : Nat) :
    (after job script ticks).status.isTerminal = decide (script.duration ≤ ticks) := by
  by_cases past : script.duration ≤ ticks
  · simp [after_of_le job script past, past]
  · rw [after, if_pos (Nat.not_le.mp past)]
    simp [underWay, start, JobStatus.isTerminal, past]

@[simp] theorem after_job (ticks : Nat) : (after job script ticks).job = job := by
  unfold after
  split
  · rfl
  · cases failure : script.failure <;> simp [ended, conclude, underWay, start, failure]

/-- A tick more is a tick later. -/
theorem tick_after (ticks : Nat) : (after job script ticks).tick = after job script (ticks + 1) := by
  by_cases past : script.duration ≤ ticks
  · rw [after_of_le job script past, after_of_le job script (Nat.le_succ_of_le past), tick,
      if_pos (ended_isTerminal job script)]
  · rw [tick, after_isTerminal, if_neg (by simpa using past)]
    have next : (after job script ticks).advance = underWay job script (ticks + 1) := by
      rw [after, if_pos (Nat.not_le.mp past)]
      rfl
    have due : (underWay job script (ticks + 1)).isDue = true ↔ script.duration ≤ ticks + 1 := by
      rw [JobScript.duration, Nat.max_le, isDue, decide_eq_true_iff]
      exact ⟨fun past => ⟨Nat.le_add_left 1 ticks, past⟩, And.right⟩
    rw [next]
    by_cases last : script.duration ≤ ticks + 1
    · have exactly : script.duration = ticks + 1 := by omega
      rw [if_pos (due.mpr last), after_of_le job script last, ended, exactly]
    · rw [if_neg (mt due.mp last), after, if_pos (Nat.not_le.mp last)]

@[simp] theorem tick_job (s : SimulatedJob) : s.tick.job = s.job := by
  unfold tick conclude
  split
  · rfl
  · split
    · split <;> rfl
    · rfl

/-- A tick brings success where it ends a job that does not fail by its script. -/
theorem tick_succeeded_iff (s : SimulatedJob) : s.tick.status = .succeeded ↔
    s.status = .succeeded ∨
      ¬ s.status.isTerminal ∧ s.advance.isDue ∧ s.script.failure.isNone := by
  have same : s.advance.status = s.status ∧ s.advance.script = s.script := ⟨rfl, rfl⟩
  unfold tick
  by_cases past : s.status.isTerminal = true
  · rw [if_pos past]
    exact ⟨.inl, fun either => either.resolve_right fun all => all.1 past⟩
  · have running : s.status ≠ .succeeded := fun is => past (by rw [is]; rfl)
    rw [if_neg past]
    by_cases due : s.advance.isDue = true
    · rw [if_pos due, conclude, same.2]
      cases failure : s.script.failure <;> simp [running, past, due]
    · rw [if_neg due, same.1]
      simp [running, due]

end SimulatedJob

namespace Simulation

theorem lookup_putJob (id other : Nat) (job : SimulatedJob) (jobs : List (Nat × SimulatedJob)) :
    (putJob id job jobs).lookup other = if other = id then some job else jobs.lookup other := by
  induction jobs with
  | nil => exact lookup_cons_ite id other job []
  | cons first rest ih =>
    obtain ⟨number, old⟩ := first
    rw [putJob]
    by_cases same : number = id
    · subst same
      rw [if_pos rfl, lookup_cons_ite, lookup_cons_ite]
      by_cases own : other = number <;> simp [own]
    · rw [if_neg same, lookup_cons_ite, lookup_cons_ite, ih]
      by_cases own : other = number
      · simp [own, same]
      · simp [own]

theorem putJob_eq_self {id : Nat} {job : SimulatedJob} {jobs : List (Nat × SimulatedJob)}
    (there : jobs.lookup id = some job) : putJob id job jobs = jobs := by
  induction jobs with
  | nil => cases there
  | cons first rest ih =>
    obtain ⟨number, old⟩ := first
    rw [lookup_cons_ite] at there
    rw [putJob]
    by_cases same : number = id
    · rw [if_pos same.symm] at there
      rw [if_pos same, same, Option.some.inj there]
    · rw [if_neg (Ne.symm same)] at there
      rw [if_neg same, ih there]

theorem putJob_putJob (id : Nat) (first second : SimulatedJob) (jobs : List (Nat × SimulatedJob)) :
    putJob id second (putJob id first jobs) = putJob id second jobs := by
  induction jobs with
  | nil => simp [putJob]
  | cons head rest ih =>
    obtain ⟨number, old⟩ := head
    by_cases same : number = id <;> simp [putJob, same, ih]

variable {s : Simulation}

@[simp] theorem job?_put (s : Simulation) (id other : Nat) (job : SimulatedJob) :
    (s.put id job).job? other = if other = id then some job else s.job? other :=
  lookup_putJob id other job s.jobs

theorem put_eq_self {id : Nat} {job : SimulatedJob} (there : s.job? id = some job) :
    s.put id job = s := by
  rw [put, putJob_eq_self there]

@[simp] theorem put_put (s : Simulation) (id : Nat) (first second : SimulatedJob) :
    (s.put id first).put id second = s.put id second := by
  rw [put, put, putJob_putJob, put]

def updated (change : SimulatedJob → SimulatedJob) (s : Simulation) (id : Nat) : Simulation :=
  match s.job? id with
  | some job => s.put id (change job)
  | none => s

theorem job?_updated (change : SimulatedJob → SimulatedJob) (s : Simulation) (id other : Nat) :
    (s.updated change id).job? other =
      if other = id then (s.job? id).map change else s.job? other := by
  unfold updated
  cases there : s.job? id with
  | none => by_cases own : other = id <;> simp [own, there]
  | some job => rw [job?_put, Option.map_some]

/-- Changes to different jobs change nothing but these jobs. -/
theorem foldl_updated (change : SimulatedJob → SimulatedJob) (s : Simulation) {ids : List Nat}
    (distinct : ids.Nodup) :
    ∃ jobs, ids.foldl (updated change) s = { s with jobs := jobs } ∧
      ∀ id, jobs.lookup id = if id ∈ ids then (s.job? id).map change else s.job? id := by
  induction ids generalizing s with
  | nil => exact ⟨s.jobs, rfl, fun id => by simp [job?]⟩
  | cons first rest ih =>
    obtain ⟨fresh, others⟩ := List.nodup_cons.mp distinct
    obtain ⟨jobs, same, looks⟩ := ih (s.updated change first) others
    obtain ⟨earlier, shape⟩ : ∃ earlier, s.updated change first = { s with jobs := earlier } := by
      unfold updated
      split
      · exact ⟨_, rfl⟩
      · exact ⟨s.jobs, rfl⟩
    refine ⟨jobs, by rw [List.foldl_cons, same, shape], fun id => ?_⟩
    rw [looks, job?_updated]
    by_cases own : id = first
    · simp [own, fresh]
    · simp [own]

def tickedJob (s : Simulation) (id : Nat) : Simulation :=
  match s.job? id with
  | some job => s.put id job.tick
  | none => s

theorem job?_tickedJob (s : Simulation) (id other : Nat) : (s.tickedJob id).job? other =
    if other = id then (s.job? id).map SimulatedJob.tick else s.job? other :=
  job?_updated SimulatedJob.tick s id other

theorem tickedJob_current (s : Simulation) (id : Nat) : (s.tickedJob id).current = s.current := by
  unfold tickedJob
  split <;> rfl

theorem tickedJob_marks (s : Simulation) (id : Nat) : (s.tickedJob id).marks = s.marks := by
  unfold tickedJob
  split <;> rfl

def ticked (s : Simulation) : Simulation := s.current.foldl tickedJob s

theorem ticked_marks (s : Simulation) : s.ticked.marks = s.marks := by
  rw [ticked]
  generalize s.current = ids
  induction ids generalizing s with
  | nil => rfl
  | cons id rest ih => rw [List.foldl_cons, ih, tickedJob_marks]

theorem exists_ticked (s : Simulation) (distinct : s.current.Nodup) :
    ∃ jobs, s.ticked = { s with jobs := jobs } ∧ ∀ id, jobs.lookup id =
      if id ∈ s.current then (s.job? id).map SimulatedJob.tick else s.job? id :=
  foldl_updated SimulatedJob.tick s distinct

theorem exists_stopped (s : Simulation) (distinct : s.current.Nodup) :
    ∃ jobs, s.stop = { s with jobs := jobs } ∧ ∀ id, jobs.lookup id =
      if id ∈ s.current then (s.job? id).map SimulatedJob.stop else s.job? id :=
  foldl_updated SimulatedJob.stop s distinct

/-- Jobs of different numbers are put in place of nothing else. -/
theorem foldl_start (s : Simulation) {jobs : List Job} (distinct : (jobs.map Job.id).Nodup) :
    ∃ table, jobs.foldl (fun s job => s.put job.id (.start job (s.scriptOf job))) s =
        { s with jobs := table } ∧
      (∀ job ∈ jobs, table.lookup job.id = some (.start job (s.scriptOf job))) ∧
      ∀ id ∉ jobs.map Job.id, table.lookup id = s.job? id := by
  induction jobs generalizing s with
  | nil => exact ⟨s.jobs, rfl, by simp, fun _ _ => rfl⟩
  | cons first rest ih =>
    obtain ⟨fresh, others⟩ := List.nodup_cons.mp distinct
    obtain ⟨table, same, started, kept⟩ :=
      ih (s.put first.id (.start first (s.scriptOf first))) others
    refine ⟨table, by rw [List.foldl_cons, same]; rfl, fun job member => ?_, fun id absent => ?_⟩
    · rcases List.mem_cons.mp member with rfl | later
      · rw [kept _ fresh, job?_put, if_pos rfl]
      · exact started job later
    · obtain ⟨different, other⟩ := not_or.mp (mt List.mem_cons.mpr absent)
      rw [kept id other, job?_put, if_neg different]

/-- A wave after some ticks, on a cluster that was as `base` before the wave. -/
structure Running (base : Simulation) (wave : Wave) (ticks : Nat) (s : Simulation) : Prop where
  scripts : s.scripts = base.scripts
  standard : s.defaultScript = base.defaultScript
  marks : s.marks = base.marks
  current : s.current = wave.jobIds
  submissions : s.submissions = base.submissions ++ [wave.jobIds]
  jobs : ∀ job ∈ wave.jobs, s.job? job.id = some (.after job (base.scriptOf job) ticks)
  /-- The jobs of earlier waves are as they were. -/
  others : ∀ id ∉ wave.jobIds, s.job? id = base.job? id

variable {base : Simulation} {wave : Wave} {ticks : Nat}

theorem exists_submitted (settled : base.running? = none) (distinct : wave.jobIds.Nodup) :
    ∃ s, base.submit wave = .ok s ∧ Running base wave 0 s := by
  obtain ⟨table, same, started, kept⟩ := foldl_start
    { base with current := wave.jobIds, submissions := base.submissions ++ [wave.jobIds] } distinct
  refine ⟨_, by rw [submit, settled], ?_⟩
  simp only [same]
  exact ⟨rfl, rfl, rfl, rfl, rfl, fun job member => by
    rw [SimulatedJob.after_zero]; exact started job member, kept⟩

namespace Running

theorem ticked (running : Running base wave ticks s) (distinct : wave.jobIds.Nodup) :
    Running base wave (ticks + 1) s.ticked := by
  obtain ⟨table, same, looks⟩ := s.exists_ticked (running.current ▸ distinct)
  rw [same]
  refine ⟨running.scripts, running.standard, running.marks, running.current, running.submissions,
    fun job member => ?_, fun id absent => ?_⟩
  · have among : job.id ∈ s.current := running.current ▸ List.mem_map_of_mem member
    exact (looks job.id).trans (by
      rw [if_pos among, running.jobs job member, Option.map_some, SimulatedJob.tick_after])
  · exact (looks id).trans (by rw [if_neg (running.current ▸ absent), running.others id absent])

theorem running?_eq_none (running : Running base wave ticks s) :
    s.running? = none ↔ ∀ job ∈ wave.jobs, (base.scriptOf job).duration ≤ ticks := by
  rw [running?, List.find?_eq_none, running.current, Wave.jobIds, List.forall_mem_map]
  refine forall₂_congr fun job member => ?_
  simp [isRunning, running.jobs job member]

end Running

/-- Where all jobs of the last wave have ended nothing is stopped. -/
theorem stop_eq_self (settled : s.running? = none) : s.stop = s := by
  have past : ∀ id ∈ s.current, s.isRunning id = false := by
    simpa [running?] using settled
  rw [stop]
  generalize s.current = ids at past
  induction ids with
  | nil => rfl
  | cons id rest ih =>
    have own := past id List.mem_cons_self
    rw [List.foldl_cons]
    cases there : s.job? id with
    | none => exact ih fun other member => past other (List.mem_cons_of_mem _ member)
    | some job =>
      have terminal : job.status.isTerminal = true := by simpa [isRunning, there] using own
      have same : s.put id job.stop = s := by
        rw [SimulatedJob.stop, if_pos terminal, put_eq_self there]
      dsimp only
      rw [same]
      exact ih fun other member => past other (List.mem_cons_of_mem _ member)

section Acts

variable {m : Type → Type} [Monad m] {W : Type} [Stateful m W] (fs : FileSystem m)

/-- Where the next tick of a job leaves its marker. -/
def finishing? (s : Simulation) (id : Nat) : Option String :=
  (s.job? id).bind fun job =>
    if s.marks ∧ ¬ job.status.isTerminal ∧ job.advance.isDue ∧ job.script.failure.isNone then
      some job.job.staging
    else none

/-- The tick of a job is a matter of the job alone, but for the marker that it may leave. -/
theorem tickJob_act {id : Nat} {w w' : W}
    (written : match s.finishing? id with
      | some staging => (writeMarker fs staging).act w = (.ok (), w')
      | none => w' = w) :
    (tickJob fs id).act (s, w) = (.ok ⟨⟩, (s.tickedJob id, w')) := by
  rw [tickJob, Step.act_bind_ok (Step.act_get s w), tickedJob]
  rw [finishing?] at written
  cases there : s.job? id with
  | none =>
    rw [there] at written
    obtain rfl : w' = w := written
    exact Step.act_pure _ _
  | some job =>
    rw [there, Option.bind_some] at written
    dsimp only
    by_cases past : job.status.isTerminal = true
    · rw [if_neg fun all => all.2.1 past] at written
      obtain rfl : w' = w := written
      rw [if_pos past, Step.act_pure, SimulatedJob.tick, if_pos past, put_eq_self there]
    · rw [if_neg past, SimulatedJob.tick, if_neg past,
        Step.act_bind_ok (Step.act_modify (·.put id job.advance) s w)]
      by_cases due : job.advance.isDue = true
      · rw [if_pos due, if_pos due, Step.act_bind_ok (Step.act_get _ w)]
        have same : (s.put id job.advance).marks = s.marks ∧ job.advance.script = job.script ∧
            job.advance.job = job.job := ⟨rfl, rfl, rfl⟩
        rw [same.1, same.2.1, same.2.2]
        by_cases leaves : s.marks = true ∧ job.script.failure.isNone = true
        · rw [if_pos ⟨leaves.1, past, due, leaves.2⟩] at written
          have left : ((writeMarker fs job.job.staging).widen : Step (StateT Simulation m) _ _).act
              (s.put id job.advance, w) = (.ok (), (s.put id job.advance, w')) := by
            rw [Step.act_widen, written]
          rw [if_pos leaves, Step.act_bind_ok left, Step.act_modify, put_put]
        · rw [if_neg fun all => leaves ⟨all.1, all.2.2.2⟩] at written
          obtain rfl : w' = w := written
          rw [if_neg leaves, Step.act_modify, put_put]
      · rw [if_neg fun all => due all.2.2.1] at written
        obtain rfl : w' = w := written
        rw [if_neg due, if_neg due, Step.act_pure]

/-- What the tick of each job keeps is kept by the ticks of some jobs. -/
theorem forM_tickJob_act (keeps : Simulation → W → Prop) {ids : List Nat}
    (each : ∀ id ∈ ids, ∀ s w, keeps s w → ∃ w',
      (tickJob fs id).act (s, w) = (.ok ⟨⟩, (s.tickedJob id, w')) ∧ keeps (s.tickedJob id) w')
    {w : W} (kept : keeps s w) :
    ∃ w', (ids.forM (tickJob fs)).act (s, w) = (.ok ⟨⟩, (ids.foldl tickedJob s, w')) ∧
      keeps (ids.foldl tickedJob s) w' := by
  induction ids generalizing s w with
  | nil => exact ⟨w, Step.act_forM_nil _ _, kept⟩
  | cons id rest ih =>
    obtain ⟨w₁, ticked, kept⟩ := each id List.mem_cons_self s w kept
    obtain ⟨w', ran, kept⟩ := ih (fun id member => each id (List.mem_cons_of_mem _ member)) kept
    refine ⟨w', ?_, kept⟩
    rw [Step.act_forM_cons, ticked]
    exact ran

variable {α : Type} [ProgressNumber α]

/-- A look at the cluster is a tick of the last wave. -/
theorem allFinished_act (keeps : Simulation → W → Prop)
    (each : ∀ id ∈ s.current, ∀ s w, keeps s w → ∃ w',
      (tickJob fs id).act (s, w) = (.ok ⟨⟩, (s.tickedJob id, w')) ∧ keeps (s.tickedJob id) w')
    {w : W} (kept : keeps s w) :
    ∃ w', (cluster fs : Cluster (StateT Simulation m) α).allFinished.act (s, w) =
      (.ok s.ticked.running?.isNone, (s.ticked, w')) ∧ keeps s.ticked w' := by
  obtain ⟨w', ran, kept⟩ := forM_tickJob_act fs keeps each kept
  have ticks : (tick fs).act (s, w) = (.ok ⟨⟩, (s.ticked, w')) :=
    (Step.act_bind_ok (Step.act_get s w)).trans ran
  exact ⟨w', (Step.act_bind_ok ticks).trans
    ((Step.act_bind_ok (Step.act_get _ w')).trans (Step.act_pure _ _)), kept⟩

/-- Where no markers are left a look leaves the world alone. -/
theorem allFinished_act_unmarked (unmarked : s.marks = false) (w : W) :
    (cluster fs : Cluster (StateT Simulation m) α).allFinished.act (s, w) =
      (.ok s.ticked.running?.isNone, (s.ticked, w)) := by
  have alone : ∀ id ∈ s.current, ∀ s w', (s.marks = false ∧ w' = w) → ∃ w'',
      (tickJob fs id).act (s, w') = (.ok ⟨⟩, (s.tickedJob id, w'')) ∧
        (s.tickedJob id).marks = false ∧ w'' = w := by
    rintro id - s w' ⟨unmarked, same⟩
    refine ⟨w', tickJob_act fs ?_, (tickedJob_marks s id).trans unmarked, same⟩
    have silent : s.finishing? id = none := by simp [finishing?, unmarked]
    rw [silent]
  have looked : ∃ w', (cluster fs : Cluster (StateT Simulation m) α).allFinished.act (s, w) =
      (.ok s.ticked.running?.isNone, (s.ticked, w')) ∧ s.ticked.marks = false ∧ w' = w :=
    allFinished_act fs (fun s w' => s.marks = false ∧ w' = w) alone ⟨unmarked, rfl⟩
  obtain ⟨w', ran, -, rfl⟩ := looked
  exact ran

theorem submit_act {wave : Wave} {s' : Simulation} (submitted : s.submit wave = .ok s') (w : W) :
    ((cluster fs : Cluster (StateT Simulation m) α).submit wave).act (s, w) = (.ok ⟨⟩, (s', w)) := by
  rw [cluster]
  exact (Step.act_bind_ok (Step.act_get s w)).trans ((Step.act_bind_ok
    ((Step.act_ofExcept _ _).trans (by rw [submitted]))).trans (Step.act_set s s' w))

theorem submit_act_error {wave : Wave} {fault : ClusterFault} (refused : s.submit wave = .error fault)
    (w : W) :
    ((cluster fs : Cluster (StateT Simulation m) α).submit wave).act (s, w) =
      (.error fault, (s, w)) := by
  rw [cluster]
  exact (Step.act_bind_ok (Step.act_get s w)).trans
    (Step.act_bind_error ((Step.act_ofExcept _ _).trans (by rw [refused])))

theorem progress_act (id : Nat) (s : Simulation) (w : W) :
    Stateful.act ((cluster fs : Cluster (StateT Simulation m) α).progress id) (s, w) =
      (s.progress id, (s, w)) :=
  act_reads (fun s : Simulation => s.progress id) s w

theorem status_act (id : Nat) (s : Simulation) (w : W) :
    Stateful.act ((cluster fs : Cluster (StateT Simulation m) α).status id) (s, w) =
      (s.status id, (s, w)) :=
  act_reads (fun s : Simulation => s.status id) s w

theorem message_act (id : Nat) (s : Simulation) (w : W) :
    Stateful.act ((cluster fs : Cluster (StateT Simulation m) α).message id) (s, w) =
      ((s.job? id).bind SimulatedJob.message, (s, w)) :=
  act_reads (fun s : Simulation => (s.job? id).bind SimulatedJob.message) s w

theorem stop_act (s : Simulation) (w : W) :
    (cluster fs : Cluster (StateT Simulation m) α).stop.act (s, w) = (.ok ⟨⟩, (s.stop, w)) :=
  Step.act_modify Simulation.stop s w

theorem stats_act {id : Nat} {job : SimulatedJob} (there : s.job? id = some job) (w : W) :
    ((cluster fs : Cluster (StateT Simulation m) α).stats id).act (s, w) =
      (.ok job.stats, (s, w)) := by
  rw [cluster]
  refine (Step.act_bind_ok (Step.act_get s w)).trans ((Step.act_ofExcept _ _).trans ?_)
  rw [stats, there]

end Acts

end Simulation

end Wavefront
