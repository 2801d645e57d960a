import Mathlib.Algebra.Order.Field.Basic
import Mathlib.Algebra.Order.Field.Rat
import Wavefront.Proofs.Run.Foresight
set_option autoImplicit false

/-!
The simulated cluster under any requests. Waves are submitted, the cluster is looked at and stopped, in
any order, and the number of a job may come back in a later wave. What is said of every state that such
requests lead to follows from one invariant (`Simulation.Consistent`): the jobs outside the last wave have
ended, so a look and a stop are to every job of the cluster what they are to the jobs of the last wave,
and a job sees of the requests only the looks, the stops and the waves with its own number.
-/
namespace Wavefront

/-- What can be asked of a cluster. -/
inductive Request where
  /-- To start the jobs of a wave. -/
  | submit (wave : Wave)
  /-- Whether all jobs of the last wave have ended. -/
  | look
  /-- To end the jobs that are still running. -/
  | stop
deriving DecidableEq

namespace Request

/-- The jobs of a wave that is to be started have different numbers. -/
def Proper : Request → Prop
  | .submit wave => wave.jobIds.Nodup
  | .look | .stop => True

instance : DecidablePred Proper
  | .submit wave => inferInstanceAs (Decidable wave.jobIds.Nodup)
  | .look | .stop => inferInstanceAs (Decidable True)

variable {m : Type → Type} [Monad m] {α : Type}

/-- Asks a cluster. Only a look is answered by more than that there is no refusal. -/
def ask (c : Cluster m α) : Request → Step m ClusterFault (Option Bool)
  | .submit wave => do
    c.submit wave
    return none
  | .look => return some (← c.allFinished)
  | .stop => do
    c.stop
    return none

/-- Asks a cluster one thing after another, whatever the answers. -/
def askAll (c : Cluster m α) (requests : List Request) : m (List (Except ClusterFault (Option Bool))) :=
  requests.mapM fun r => (r.ask c).run

end Request

namespace SimulatedJob

variable {j : SimulatedJob}

/-- A job as its script allows: it has been started, it runs only while ticks are left, and has had no
tick more than its script has. -/
structure Sound (j : SimulatedJob) : Prop where
  begun : j.status ≠ .waiting
  early : j.status.isTerminal = false → j.ticksDone < j.script.duration
  bounded : j.ticksDone ≤ j.script.duration

theorem tick_of_isTerminal (past : j.status.isTerminal = true) : j.tick = j := if_pos past

theorem stop_of_isTerminal (past : j.status.isTerminal = true) : j.stop = j := if_pos past

theorem conclude_isTerminal (j : SimulatedJob) : j.conclude.status.isTerminal = true := by
  unfold conclude
  split <;> rfl

theorem stop_isTerminal (j : SimulatedJob) : j.stop.status.isTerminal = true := by
  unfold stop
  split
  · assumption
  · rfl

theorem isDue_iff (j : SimulatedJob) : j.isDue = true ↔ j.script.ticks.toNat ≤ j.ticksDone :=
  decide_eq_true_iff

theorem tick_cases (running : j.status.isTerminal = false) :
    (j.tick = j.advance.conclude ∧ j.script.ticks.toNat ≤ j.ticksDone + 1) ∨
      (j.tick = j.advance ∧ j.ticksDone + 1 < j.script.ticks.toNat) := by
  rw [tick, if_neg (by simp [running])]
  by_cases due : j.advance.isDue = true
  · exact .inl ⟨if_pos due, (isDue_iff _).mp due⟩
  · exact .inr ⟨if_neg due, Nat.not_le.mp (mt (isDue_iff j.advance).mpr due)⟩

theorem duration_lt (script : JobScript) : script.duration < 2 ^ 32 := by
  have bound := script.ticks.toNat_lt
  rw [JobScript.duration]
  omega

namespace Sound

theorem start (job : Job) (script : JobScript) : (SimulatedJob.start job script).Sound where
  begun := nofun
  early _ := Nat.lt_of_lt_of_le Nat.one_pos (Nat.le_max_left _ _)
  bounded := Nat.zero_le _

theorem of_isTerminal (past : j.status.isTerminal = true) (bounded : j.ticksDone ≤ j.script.duration) :
    j.Sound := by
  refine ⟨fun waits => ?_, fun runs => ?_, bounded⟩
  · rw [waits] at past
    cases past
  · rw [past] at runs
    cases runs

theorem conclude (bounded : j.ticksDone ≤ j.script.duration) : j.conclude.Sound := by
  have same : j.conclude.ticksDone = j.ticksDone ∧ j.conclude.script = j.script := by
    unfold SimulatedJob.conclude
    split <;> exact ⟨rfl, rfl⟩
  refine of_isTerminal j.conclude_isTerminal ?_
  rw [same.1, same.2]
  exact bounded

theorem tick (sound : j.Sound) : j.tick.Sound := by
  by_cases past : j.status.isTerminal = true
  · rwa [tick_of_isTerminal past]
  · have early := sound.early (by simpa using past)
    rcases tick_cases (by simpa using past) with ⟨last, -⟩ | ⟨goes, left⟩
    · rw [last]
      exact conclude early
    · have room : j.ticksDone + 1 < j.script.duration :=
        Nat.lt_of_lt_of_le left (Nat.le_max_right _ _)
      rw [goes]
      exact ⟨sound.begun, fun _ => room, Nat.le_of_lt room⟩

theorem stop (sound : j.Sound) : j.stop.Sound := by
  rw [SimulatedJob.stop]
  split
  · exact sound
  · exact of_isTerminal rfl sound.bounded

end Sound

section Progress

theorem progress_of_isTerminal (past : j.status.isTerminal = true) : (j.progress : Rat) = 1 := by
  rw [progress, if_pos past]
  rfl

theorem progress_of_running (running : j.status.isTerminal = false) :
    (j.progress : Rat) = (j.ticksDone : Rat) / (j.script.ticks.toNat : Rat) := by
  rw [progress, if_neg (by simp [running])]
  by_cases empty : j.script.ticks = 0
  · rw [if_pos empty, empty]
    exact (div_zero _).symm
  · rw [if_neg empty]

/-- The share of a job that is done is a share. -/
theorem Sound.progress_mem (sound : j.Sound) :
    0 ≤ (j.progress : Rat) ∧ (j.progress : Rat) ≤ 1 := by
  by_cases past : j.status.isTerminal = true
  · rw [progress_of_isTerminal past]
    exact ⟨zero_le_one, le_refl 1⟩
  · have running : j.status.isTerminal = false := by simpa using past
    rw [progress_of_running running]
    refine ⟨div_nonneg (Nat.cast_nonneg _) (Nat.cast_nonneg _),
      div_le_one_of_le₀ (Nat.cast_le.mpr ?_) (Nat.cast_nonneg _)⟩
    have early := sound.early running
    rw [JobScript.duration] at early
    omega

theorem Sound.progress_le_of_isTerminal {after : SimulatedJob} (sound : j.Sound)
    (past : after.status.isTerminal = true) : (j.progress : Rat) ≤ after.progress := by
  rw [progress_of_isTerminal past]
  exact sound.progress_mem.2

theorem Sound.progress_le_tick (sound : j.Sound) : (j.progress : Rat) ≤ j.tick.progress := by
  by_cases past : j.status.isTerminal = true
  · rw [tick_of_isTerminal past]
  · have running : j.status.isTerminal = false := by simpa using past
    rcases tick_cases running with ⟨last, -⟩ | ⟨goes, -⟩
    · exact sound.progress_le_of_isTerminal (by rw [last, conclude_isTerminal])
    · have goesOn : j.advance.status.isTerminal = false := running
      rw [goes, progress_of_running running, progress_of_running goesOn]
      exact div_le_div_of_nonneg_right (Nat.cast_le.mpr (Nat.le_succ _)) (Nat.cast_nonneg _)

end Progress

end SimulatedJob

/-- What a request does to a job that is on the cluster. -/
def Request.touch : Request → SimulatedJob → SimulatedJob
  | .submit _ => id
  | .look => SimulatedJob.tick
  | .stop => SimulatedJob.stop

namespace SimulatedJob

variable {j : SimulatedJob} (r : Request)

theorem touch_of_isTerminal (past : j.status.isTerminal = true) : r.touch j = j := by
  cases r with
  | submit wave => rfl
  | look => exact tick_of_isTerminal past
  | stop => exact stop_of_isTerminal past

theorem Sound.progress_le_touch (sound : j.Sound) : (j.progress : Rat) ≤ (r.touch j).progress := by
  cases r with
  | submit wave => exact le_refl _
  | look => exact sound.progress_le_tick
  | stop => exact sound.progress_le_of_isTerminal j.stop_isTerminal

end SimulatedJob

namespace Simulation

variable {s s' : Simulation} {r : Request} {requests : List Request} {id : Nat}

/-- The answer to a request, and the cluster after it. -/
def asked (s : Simulation) : Request → Except ClusterFault (Option Bool) × Simulation
  | .submit wave =>
    match s.submit wave with
    | .ok s' => (.ok none, s')
    | .error fault => (.error fault, s)
  | .look => (.ok (some s.ticked.running?.isNone), s.ticked)
  | .stop => (.ok none, s.stop)

def answers (s : Simulation) : List Request → List (Except ClusterFault (Option Bool))
  | [] => []
  | r :: rest => (s.asked r).1 :: (s.asked r).2.answers rest

def afterAll (s : Simulation) (requests : List Request) : Simulation :=
  requests.foldl (fun s r => (s.asked r).2) s

@[simp] theorem afterAll_cons (s : Simulation) (r : Request) (rest : List Request) :
    s.afterAll (r :: rest) = (s.asked r).2.afterAll rest := rfl

def Starts (s : Simulation) (id : Nat) (r : Request) : Prop :=
  ∃ wave s', r = .submit wave ∧ s.submit wave = .ok s' ∧ id ∈ wave.jobIds

/-- Whether a request ends a job of a number that has not come to its end. -/
def Kills (s : Simulation) (id : Nat) (r : Request) : Prop := r = .stop ∧ s.isRunning id = true

/-- Whether something holds of each of some requests and the cluster that it finds. -/
def Throughout (p : Simulation → Request → Prop) : Simulation → List Request → Prop
  | _, [] => True
  | s, r :: rest => p s r ∧ Throughout p (s.asked r).2 rest

/-- A cluster whose record of the last wave and whose jobs fit each other. -/
structure Consistent (s : Simulation) : Prop where
  current : s.current = s.submissions.getLast?.getD []
  distinct : s.current.Nodup
  submitted : ∀ id, (s.job? id).isSome = true ↔ id ∈ s.submissions.flatten
  /-- Outside the last wave all jobs have ended. -/
  settled : ∀ id job, s.job? id = some job → id ∉ s.current → job.status.isTerminal = true
  sound : ∀ id job, s.job? id = some job → job.Sound

theorem Consistent.scripted (standard : JobScript) (scripts : List (Nat × JobScript)) :
    (scripted standard scripts).Consistent := by
  rw [scripted_eq]
  exact ⟨rfl, List.nodup_nil, fun id => by simp [job?, start], nofun, nofun⟩

namespace Consistent

theorem exists_job (consistent : s.Consistent) (inside : id ∈ s.current) :
    ∃ job, s.job? id = some job := by
  rw [consistent.current] at inside
  refine Option.isSome_iff_exists.mp ((consistent.submitted id).mpr ?_)
  cases last : s.submissions.getLast? with
  | none => simp [last] at inside
  | some ids =>
    rw [last] at inside
    exact List.mem_flatten.mpr ⟨ids, List.mem_of_getLast? last, inside⟩

/-- The next wave can begin where all jobs have ended. -/
theorem running?_eq_none (consistent : s.Consistent) :
    s.running? = none ↔ ∀ id job, s.job? id = some job → job.status.isTerminal = true := by
  rw [running?, List.find?_eq_none]
  refine ⟨fun idle id job there => ?_, fun past id _ => ?_⟩
  · by_cases inside : id ∈ s.current
    · simpa [isRunning, there] using idle id inside
    · exact consistent.settled id job there inside
  · cases there : s.job? id with
    | none => simp [isRunning, there]
    | some job => simp [isRunning, there, past id job there]

theorem map_job? (consistent : s.Consistent) {change : SimulatedJob → SimulatedJob}
    (rests : ∀ j : SimulatedJob, j.status.isTerminal = true → change j = j) (id : Nat) :
    (if id ∈ s.current then (s.job? id).map change else s.job? id) = (s.job? id).map change := by
  by_cases inside : id ∈ s.current
  · rw [if_pos inside]
  · rw [if_neg inside]
    cases there : s.job? id with
    | none => rfl
    | some job => rw [Option.map_some, rests job (consistent.settled id job there inside)]

/-- A change to the jobs of the last wave keeps the cluster consistent. -/
theorem changed (consistent : s.Consistent) {change : SimulatedJob → SimulatedJob}
    {jobs : List (Nat × SimulatedJob)} (looks : ∀ id, jobs.lookup id = (s.job? id).map change)
    (rests : ∀ j : SimulatedJob, j.status.isTerminal = true → change j = j)
    (sound : ∀ j : SimulatedJob, j.Sound → (change j).Sound) :
    Consistent { s with jobs := jobs } where
  current := consistent.current
  distinct := consistent.distinct
  submitted id := by
    rw [← consistent.submitted id, job?, looks id, Option.isSome_map]
  settled id job there outside := by
    obtain ⟨before, was, rfl⟩ := Option.map_eq_some_iff.mp ((looks id).symm.trans there)
    have past := consistent.settled id before was outside
    rwa [rests before past]
  sound id job there := by
    obtain ⟨before, was, rfl⟩ := Option.map_eq_some_iff.mp ((looks id).symm.trans there)
    exact sound before (consistent.sound id before was)

/-- A wave that is let through finds all jobs ended, and only its own are put anew. -/
theorem submitted_running {wave : Wave} (ok : s.submit wave = .ok s') (distinct : wave.jobIds.Nodup) :
    s.running? = none ∧ Running s wave 0 s' := by
  have settled : s.running? = none := by
    rw [submit] at ok
    cases first : s.running? with
    | none => rfl
    | some id => simp [first] at ok
  obtain ⟨begun, same, running⟩ := exists_submitted settled distinct
  obtain rfl : begun = s' := Except.ok.inj (same.symm.trans ok)
  exact ⟨settled, running⟩

end Consistent

theorem Running.job?_eq {wave : Wave} (running : Running s wave 0 s') (id : Nat) :
    (id ∈ wave.jobIds ∧ ∃ job ∈ wave.jobs, job.id = id ∧
        s'.job? id = some (.start job (s.scriptOf job))) ∨
      (id ∉ wave.jobIds ∧ s'.job? id = s.job? id) := by
  by_cases inside : id ∈ wave.jobIds
  · obtain ⟨job, member, rfl⟩ := List.mem_map.mp inside
    refine .inl ⟨inside, job, member, rfl, ?_⟩
    rw [running.jobs job member, SimulatedJob.after_zero]
  · exact .inr ⟨inside, running.others id inside⟩

namespace Consistent

/-- A wave that begins keeps the cluster consistent. -/
theorem submit {wave : Wave} (consistent : s.Consistent) (distinct : wave.jobIds.Nodup)
    (ok : s.submit wave = .ok s') : s'.Consistent := by
  obtain ⟨idle, running⟩ := submitted_running ok distinct
  have past := consistent.running?_eq_none.mp idle
  refine ⟨?_, running.current ▸ distinct, fun id => ?_, fun id job there outside => ?_,
    fun id job there => ?_⟩
  · rw [running.current, running.submissions, List.getLast?_concat, Option.getD_some]
  · rw [running.submissions, List.flatten_append, List.flatten_singleton, List.mem_append]
    rcases running.job?_eq id with ⟨inside, job, -, -, anew⟩ | ⟨outside, as⟩
    · simp [anew, inside]
    · rw [as, consistent.submitted id]
      simp [outside]
  · rw [running.others id (running.current ▸ outside)] at there
    exact past id job there
  · rcases running.job?_eq id with ⟨-, first, -, -, anew⟩ | ⟨-, as⟩
    · rw [anew] at there
      rw [← Option.some.inj there]
      exact .start first _
    · exact consistent.sound id job (as ▸ there)

theorem job?_ticked (consistent : s.Consistent) (id : Nat) :
    s.ticked.job? id = (s.job? id).map SimulatedJob.tick := by
  obtain ⟨jobs, same, looks⟩ := s.exists_ticked consistent.distinct
  rw [same, ← consistent.map_job? (fun _ => SimulatedJob.tick_of_isTerminal), ← looks id, job?]

theorem job?_stop (consistent : s.Consistent) (id : Nat) :
    s.stop.job? id = (s.job? id).map SimulatedJob.stop := by
  obtain ⟨jobs, same, looks⟩ := s.exists_stopped consistent.distinct
  rw [same, ← consistent.map_job? (fun _ => SimulatedJob.stop_of_isTerminal), ← looks id, job?]

/-- What a request keeps. -/
theorem asked (consistent : s.Consistent) (proper : r.Proper) : (s.asked r).2.Consistent := by
  cases r with
  | submit wave =>
    rw [Simulation.asked]
    cases answer : s.submit wave with
    | error fault => exact consistent
    | ok s' => exact consistent.submit proper answer
  | look =>
    obtain ⟨jobs, same, looks⟩ := s.exists_ticked consistent.distinct
    rw [Simulation.asked, same]
    exact consistent.changed
      (fun id => (looks id).trans (consistent.map_job? (fun _ => SimulatedJob.tick_of_isTerminal) id))
      (fun _ => SimulatedJob.tick_of_isTerminal) (fun _ => SimulatedJob.Sound.tick)
  | stop =>
    obtain ⟨jobs, same, looks⟩ := s.exists_stopped consistent.distinct
    rw [Simulation.asked, same]
    exact consistent.changed
      (fun id => (looks id).trans (consistent.map_job? (fun _ => SimulatedJob.stop_of_isTerminal) id))
      (fun _ => SimulatedJob.stop_of_isTerminal) (fun _ => SimulatedJob.Sound.stop)

theorem afterAll (consistent : s.Consistent) (proper : ∀ r ∈ requests, r.Proper) :
    (s.afterAll requests).Consistent := by
  induction requests generalizing s with
  | nil => exact consistent
  | cons r rest ih =>
    exact ih (consistent.asked (proper r List.mem_cons_self))
      fun other member => proper other (List.mem_cons_of_mem r member)

/-- A request that does not start a job anew touches it as it would touch any other. -/
theorem job?_asked (consistent : s.Consistent) (proper : r.Proper) (spared : ¬ s.Starts id r) :
    (s.asked r).2.job? id = (s.job? id).map r.touch := by
  cases r with
  | submit wave =>
    rw [Request.touch, Option.map_id, id_eq, Simulation.asked]
    cases answer : s.submit wave with
    | error fault => rfl
    | ok s' =>
      obtain ⟨-, running⟩ := submitted_running answer proper
      exact running.others id fun inside => spared ⟨wave, s', rfl, answer, inside⟩
  | look => exact consistent.job?_ticked id
  | stop => exact consistent.job?_stop id

/-- What a request leaves alone of a cluster. -/
theorem asked_settings (consistent : s.Consistent) (proper : r.Proper) :
    (s.asked r).2.marks = s.marks ∧ ∀ job, (s.asked r).2.scriptOf job = s.scriptOf job := by
  cases r with
  | submit wave =>
    rw [Simulation.asked]
    cases answer : s.submit wave with
    | error fault => exact ⟨rfl, fun _ => rfl⟩
    | ok s' =>
      obtain ⟨-, running⟩ := submitted_running answer proper
      exact ⟨running.marks, fun job => by rw [scriptOf, running.scripts, running.standard, scriptOf]⟩
  | look =>
    obtain ⟨jobs, same, -⟩ := s.exists_ticked consistent.distinct
    rw [Simulation.asked, same]
    exact ⟨rfl, fun _ => rfl⟩
  | stop =>
    obtain ⟨jobs, same, -⟩ := s.exists_stopped consistent.distinct
    rw [Simulation.asked, same]
    exact ⟨rfl, fun _ => rfl⟩

/-- What requests leave alone of a cluster. -/
theorem afterAll_settings (consistent : s.Consistent) (proper : ∀ r ∈ requests, r.Proper) :
    (s.afterAll requests).marks = s.marks ∧
      ∀ job, (s.afterAll requests).scriptOf job = s.scriptOf job := by
  induction requests generalizing s with
  | nil => exact ⟨rfl, fun _ => rfl⟩
  | cons r rest ih =>
    have own := proper r List.mem_cons_self
    obtain ⟨marks, scripts⟩ := consistent.asked_settings own
    obtain ⟨later, others⟩ := ih (consistent.asked own)
      fun other member => proper other (List.mem_cons_of_mem r member)
    exact ⟨later.trans marks, fun job => (others job).trans (scripts job)⟩

/-- A property of jobs that no request breaks stays with a job until its number is started anew. -/
theorem exists_job_afterAll (consistent : s.Consistent) (proper : ∀ r ∈ requests, r.Proper)
    (spared : s.Throughout (fun s r => ¬ s.Starts id r) requests) {p : SimulatedJob → Prop}
    (kept : ∀ r : Request, ∀ j : SimulatedJob, j.Sound → p j → p (r.touch j)) {job : SimulatedJob}
    (there : s.job? id = some job) (holds : p job) :
    ∃ later, (s.afterAll requests).job? id = some later ∧ p later := by
  induction requests generalizing s job with
  | nil => exact ⟨job, there, holds⟩
  | cons r rest ih =>
    have own := proper r List.mem_cons_self
    have touched : (s.asked r).2.job? id = some (r.touch job) := by
      rw [consistent.job?_asked own spared.1, there, Option.map_some]
    exact ih (consistent.asked own) (fun other member => proper other (List.mem_cons_of_mem r member))
      spared.2 touched (kept r job (consistent.sound id job there) holds)

theorem job?_afterAll_of_isTerminal (consistent : s.Consistent) (proper : ∀ r ∈ requests, r.Proper)
    (spared : s.Throughout (fun s r => ¬ s.Starts id r) requests) {job : SimulatedJob}
    (there : s.job? id = some job) (past : job.status.isTerminal = true) :
    (s.afterAll requests).job? id = some job := by
  have kept (r : Request) (j : SimulatedJob) (_ : j.Sound) (same : j = job) : r.touch j = job := by
    rw [same, job.touch_of_isTerminal r past]
  obtain ⟨later, found, rfl⟩ := consistent.exists_job_afterAll proper spared kept there rfl
  exact found

/-- What is reported of the progress of a job does not fall until its number is started anew. -/
theorem progress_le_afterAll (consistent : s.Consistent) (proper : ∀ r ∈ requests, r.Proper)
    (spared : s.Throughout (fun s r => ¬ s.Starts id r) requests) :
    (s.progress id : Rat) ≤ (s.afterAll requests).progress id := by
  have later := consistent.afterAll proper
  rw [progress]
  cases there : s.job? id with
  | none =>
    rw [progress]
    cases found : (s.afterAll requests).job? id with
    | none => exact le_refl _
    | some job => exact (later.sound id job found).progress_mem.1
  | some job =>
    have kept (r : Request) (j : SimulatedJob) (sound : j.Sound)
        (above : (job.progress : Rat) ≤ j.progress) : (job.progress : Rat) ≤ (r.touch j).progress :=
      above.trans (sound.progress_le_touch r)
    obtain ⟨after, found, above⟩ := consistent.exists_job_afterAll proper spared kept there (le_refl _)
    rw [progress, found]
    exact above

/-- A job that is neither stopped nor started anew is as its script says after so many looks. -/
theorem job?_afterAll (consistent : s.Consistent) (proper : ∀ r ∈ requests, r.Proper) {job : Job}
    {script : JobScript} {ticks : Nat}
    (spared : s.Throughout (fun s r => ¬ s.Starts job.id r ∧ ¬ s.Kills job.id r) requests)
    (there : s.job? job.id = some (.after job script ticks)) :
    (s.afterAll requests).job? job.id =
      some (.after job script (ticks + requests.count .look)) := by
  induction requests generalizing s ticks with
  | nil => exact there
  | cons r rest ih =>
    have own := proper r List.mem_cons_self
    have touched : (s.asked r).2.job? job.id =
        some (.after job script (ticks + [r].count .look)) := by
      rw [consistent.job?_asked own spared.1.1, there, Option.map_some]
      cases r with
      | submit wave => rfl
      | look => exact congrArg some (SimulatedJob.tick_after job script ticks)
      | stop =>
        have past : (SimulatedJob.after job script ticks).status.isTerminal = true := by
          have quiet : ¬ s.isRunning job.id = true := fun runs => spared.1.2 ⟨rfl, runs⟩
          simpa [isRunning, there] using quiet
        exact congrArg some (SimulatedJob.stop_of_isTerminal past)
    have count : (r :: rest).count .look = [r].count .look + rest.count .look := by
      rw [← List.singleton_append, List.count_append]
    rw [afterAll_cons, count, ← Nat.add_assoc]
    exact ih (consistent.asked own) (fun other member => proper other (List.mem_cons_of_mem r member))
      spared.2 touched

/-- The last wave has ended where each of its jobs has. -/
theorem isNone_running? (consistent : s.Consistent) :
    s.running?.isNone = true ↔ ∀ id ∈ s.current, (s.status id).isTerminal = true := by
  rw [Option.isNone_iff_eq_none, running?, List.find?_eq_none]
  refine forall₂_congr fun id inside => ?_
  obtain ⟨job, there⟩ := consistent.exists_job inside
  simp [isRunning, status, there]

end Consistent

section Acts

variable {m : Type → Type} [Monad m] {W : Type} [Stateful m W] (fs : FileSystem m) {α : Type}
  [ProgressNumber α]

/-- The cluster answers a request, and is left, as `asked` says; it writes nothing. -/
theorem ask_act (unmarked : s.marks = false) (r : Request) (w : W) :
    (r.ask (cluster fs : Cluster (StateT Simulation m) α)).act (s, w) =
      ((s.asked r).1, ((s.asked r).2, w)) := by
  cases r with
  | submit wave =>
    rw [Request.ask, asked]
    cases answer : s.submit wave with
    | error fault => exact Step.act_bind_error (submit_act_error fs answer w)
    | ok s' => exact (Step.act_bind_ok (submit_act fs answer w)).trans (Step.act_pure _ _)
  | look => exact (Step.act_bind_ok (allFinished_act_unmarked fs unmarked w)).trans (Step.act_pure _ _)
  | stop => exact (Step.act_bind_ok (stop_act fs s w)).trans (Step.act_pure _ _)

/-- So it does one request after another. -/
theorem askAll_act [LawfulMonad m] (unmarked : s.marks = false) (consistent : s.Consistent)
    (proper : ∀ r ∈ requests, r.Proper) (w : W) :
    Stateful.act (Request.askAll (cluster fs : Cluster (StateT Simulation m) α) requests) (s, w) =
      (s.answers requests, (s.afterAll requests, w)) := by
  induction requests generalizing s with
  | nil => exact Stateful.act_pure _ _
  | cons r rest ih =>
    have own := proper r List.mem_cons_self
    have first := ask_act (α := α) fs unmarked r w
    have others := ih ((consistent.asked_settings own).1.trans unmarked) (consistent.asked own)
      fun other member => proper other (List.mem_cons_of_mem r member)
    rw [Step.act] at first
    rw [Request.askAll] at others
    rw [Request.askAll, List.mapM_cons, Stateful.act_bind, first, Stateful.act_bind]
    dsimp only
    rw [others, Stateful.act_pure, answers, afterAll_cons]

end Acts

/-- How a job stands of which nothing but its script and the looks at the cluster has to be known: it runs
until it has been looked at as often as its script has ticks, and at least once, and has then failed with
the message of its script or, if there is none, succeeded. -/
structure AsScripted (s : Simulation) (id : Nat) (script : JobScript) (looks : Nat) : Prop where
  running : looks < script.duration →
    s.status id = .running ∧ (s.job? id).bind SimulatedJob.message = none
  failed : script.duration ≤ looks → ∀ message, script.failure = some message →
    s.status id = .failed ∧ (s.job? id).bind SimulatedJob.message = some message
  succeeded : script.duration ≤ looks → script.failure = none →
    s.status id = .succeeded ∧ (s.job? id).bind SimulatedJob.message = none

theorem asScripted_of_job? {job : Job} {script : JobScript} {looks : Nat}
    (there : s.job? id = some (.after job script looks)) : s.AsScripted id script looks := by
  refine ⟨fun left => ?_, fun past message failure => ?_, fun past failure => ?_⟩
  · rw [SimulatedJob.after, if_pos left] at there
    rw [status, there]
    exact ⟨rfl, rfl⟩
  · rw [SimulatedJob.after_of_le job script past] at there
    simp [status, there, SimulatedJob.ended_status, failure]
  · rw [SimulatedJob.after_of_le job script past] at there
    simp [status, there, SimulatedJob.ended_status, failure]

/-- What can be relied on at a cluster, whatever it has been asked, and whatever it is asked next. -/
structure Orderly (s : Simulation) : Prop where
  /-- The last wave is that of the last submission. -/
  current : s.current = s.submissions.getLast?.getD []
  /-- The jobs of all submissions are known, and no others. -/
  known : ∀ id, (s.job? id).isSome = true ↔ id ∈ s.submissions.flatten
  /-- Outside the last wave all jobs have ended. -/
  settled : ∀ id ∈ s.submissions.flatten, id ∉ s.current → (s.status id).isTerminal = true
  /-- A wave is let through exactly if no job is still running. -/
  admits : ∀ wave, (∃ s', s.submit wave = .ok s') ↔
    ∀ id ∈ s.submissions.flatten, s.isRunning id = false
  /-- A wave that is refused changes nothing. -/
  refuses : ∀ wave fault, s.submit wave = .error fault → s.asked (.submit wave) = (.error fault, s)
  /-- A running job has ticks left. -/
  early : ∀ id job, s.job? id = some job → s.isRunning id = true → job.ticksDone < job.script.duration
  /-- The ticks of a job are counted within a machine word. -/
  bounded : ∀ id job, s.job? id = some job → job.ticksDone < 2 ^ 32
  /-- What is reported as the share of a job is one. -/
  share : ∀ id, 0 ≤ (s.progress id : Rat) ∧ (s.progress id : Rat) ≤ 1
  /-- The share does not fall until the number of the job is started anew. -/
  grows : ∀ id requests, (∀ r ∈ requests, r.Proper) →
    s.Throughout (fun s r => ¬ s.Starts id r) requests →
    (s.progress id : Rat) ≤ (s.afterAll requests).progress id
  /-- What a job that has ended says stays until its number is started anew. -/
  lasting : ∀ id requests, (∀ r ∈ requests, r.Proper) →
    s.Throughout (fun s r => ¬ s.Starts id r) requests → (s.status id).isTerminal = true →
    (s.afterAll requests).status id = s.status id ∧
      ((s.afterAll requests).job? id).bind SimulatedJob.message =
        (s.job? id).bind SimulatedJob.message ∧
      (s.afterAll requests).stats id = s.stats id
  /-- From its submission on a job is as its script says, until it is stopped or started anew. -/
  scripted : ∀ wave s', wave.jobIds.Nodup → s.submit wave = .ok s' → ∀ job ∈ wave.jobs,
    ∀ requests, (∀ r ∈ requests, r.Proper) →
    s'.Throughout (fun s r => ¬ s.Starts job.id r ∧ ¬ s.Kills job.id r) requests →
    (s'.afterAll requests).AsScripted job.id (s.scriptOf job) (requests.count .look)
  /-- A look is a tick of the last wave and says whether all its jobs have then ended. -/
  looked : ∃ done, s.asked .look = (.ok (some done), s.ticked) ∧ s.ticked.current = s.current ∧
    (done = true ↔ ∀ id ∈ s.current, (s.ticked.status id).isTerminal = true)

theorem Consistent.orderly (consistent : s.Consistent) : s.Orderly where
  current := consistent.current
  known := consistent.submitted
  settled id member outside := by
    obtain ⟨job, there⟩ := Option.isSome_iff_exists.mp ((consistent.submitted id).mpr member)
    rw [status, there]
    exact consistent.settled id job there outside
  admits wave := by
    have settled : (∃ s', s.submit wave = .ok s') ↔ s.running? = none := by
      rw [Simulation.submit]
      cases s.running? <;> simp
    rw [settled, consistent.running?_eq_none]
    refine ⟨fun past id member => ?_, fun quiet id job there => ?_⟩
    · obtain ⟨job, there⟩ := Option.isSome_iff_exists.mp ((consistent.submitted id).mpr member)
      simp [isRunning, there, past id job there]
    · have member := (consistent.submitted id).mp (by rw [there]; rfl)
      simpa [isRunning, there] using quiet id member
  refuses wave fault refused := by rw [Simulation.asked, refused]
  early id job there runs := by
    refine (consistent.sound id job there).early ?_
    simpa [isRunning, there] using runs
  bounded id job there :=
    Nat.lt_of_le_of_lt (consistent.sound id job there).bounded (SimulatedJob.duration_lt job.script)
  share id := by
    rw [progress]
    cases there : s.job? id with
    | none => exact ⟨le_refl 0, zero_le_one⟩
    | some job => exact (consistent.sound id job there).progress_mem
  grows id requests proper spared := consistent.progress_le_afterAll proper spared
  lasting id requests proper spared past := by
    cases there : s.job? id with
    | none => simp [status, there, JobStatus.isTerminal] at past
    | some job =>
      rw [status, there] at past
      have same := consistent.job?_afterAll_of_isTerminal proper spared there past
      rw [status, status, stats, stats, same, there]
      exact ⟨rfl, rfl, rfl⟩
  scripted wave s' distinct ok job member requests proper spared := by
    obtain ⟨-, running⟩ := submitted_running ok distinct
    have later := (consistent.submit distinct ok).job?_afterAll proper spared
      (running.jobs job member)
    rw [Nat.zero_add] at later
    exact asScripted_of_job? later
  looked := by
    have ticked := consistent.asked (r := .look) trivial
    obtain ⟨jobs, same, -⟩ := s.exists_ticked consistent.distinct
    have current : s.ticked.current = s.current := by rw [same]
    refine ⟨_, rfl, current, ?_⟩
    rw [← current]
    exact ticked.isNone_running?

/-- A cluster that leaves no markers can be asked anything in any order: it answers, writes nothing, runs
each job under the script that it began with, and is orderly. -/
theorem orderly_afterAll {m : Type → Type} [Monad m] [LawfulMonad m] {W : Type} [Stateful m W]
    (fs : FileSystem m) (standard : JobScript) (scripts : List (Nat × JobScript))
    (requests : List Request) (proper : ∀ r ∈ requests, r.Proper) (w : W) :
    let start : Simulation := scripted standard scripts
    Stateful.act (Request.askAll (cluster fs : Cluster (StateT Simulation m) Rat) requests) (start, w) =
        (start.answers requests, (start.afterAll requests, w)) ∧
      (∀ job, (start.afterAll requests).scriptOf job = start.scriptOf job) ∧
      (start.afterAll requests).Orderly := by
  intro start
  have consistent : start.Consistent := .scripted standard scripts
  exact ⟨askAll_act fs (scripted_unused standard scripts).2.2 consistent proper w,
    (consistent.afterAll_settings proper).2, (consistent.afterAll proper).orderly⟩

/-- Two waves that share a job: the second is asked for too early, and once more when the first has ended. -/
def repeated : List Request :=
  let first : Job := ⟨0, "run-node-0", "run", [0], ["in"], "stage/0", "out/0", false, 0, .empty⟩
  let second : Job := ⟨1, "run-node-1", "run", [1], ["in"], "stage/1", "out/1", false, 1, .empty⟩
  [.submit ⟨"run", 0, [first, second]⟩, .look, .submit ⟨"run", 1, [second]⟩, .look,
    .submit ⟨"run", 1, [second]⟩, .look, .stop, .look]

/-- The first job takes its one tick although its script has none, and the second is stopped in its second
run, where it has had one tick of two. -/
theorem orderly_afterAll_repeated :
    let start : Simulation := scripted ⟨2, none, 1000⟩ [(0, ⟨0, some "lost", 10⟩)]
    (∀ r ∈ repeated, r.Proper) ∧
      start.answers repeated = [.ok none, .ok (some false), .error (.stillRunning 1 1), .ok (some true),
        .ok none, .ok (some false), .ok none, .ok (some true)] ∧
      [0, 1].map (start.afterAll repeated).status = [.failed, .failed] ∧
      (start.afterAll repeated).Orderly := by
  have proper : ∀ r ∈ repeated, r.Proper := by decide
  obtain ⟨-, -, orderly⟩ := orderly_afterAll (FileTree.fileSystem (m := Id)) ⟨2, none, 1000⟩
    [(0, ⟨0, some "lost", 10⟩)] repeated proper FileTree.empty
  exact ⟨proper, rfl, rfl, orderly⟩

end Simulation

end Wavefront
