import Wavefront.Run.Schedule
set_option autoImplicit false

/-!
Histories of a schedule. A run asks a schedule for waves, commits waves it has got, in any order and
as often as it likes, and cleans up; the committer may refuse whatever it is asked, and the world it
works in may change meanwhile. A history remembers the waves, the commits and what the committer has
answered.
-/
namespace Wavefront

/-- A job that a committer was asked to commit. -/
structure Attempt where
  job : Job
  accepted : Bool
deriving DecidableEq

/-- What has happened to a schedule. -/
structure History (σ : Type) where
  schedule : Schedule
  /-- The world of the committer. -/
  world : σ
  /-- What the committer was asked to commit, in order. -/
  attempts : List Attempt
  /-- The waves that were returned, in order. -/
  waves : List Wave
  /-- The waves that were to be committed, with the jobs said to have succeeded, in order. -/
  commits : List (Wave × List Nat)

/-- A call in a run. -/
inductive Call (σ : Type) where
  | next (group : String)
  /-- Commits a wave by the position at which it was returned. -/
  | commit (position : Nat) (succeeded : List Nat)
  | cleanup
  /-- What others do to the world of the committer. -/
  | meanwhile (change : σ → σ)

/-- A committer that writes down what it was asked to commit. -/
def Committer.recording {σ : Type} (committer : Committer (StateM σ)) :
    Committer (StateM (σ × List Attempt)) where
  commit job := ExceptT.mk fun (world, attempts) =>
    let (answer, world) := (committer.commit job).run.run world
    (answer, (world, attempts ++ [⟨job, answer.isOk⟩]))
  discard job := ExceptT.mk fun (world, attempts) =>
    let (answer, world) := (committer.discard job).run.run world
    (answer, (world, attempts))

namespace History

variable {σ : Type}

def start (world : σ) : History σ := ⟨.start, world, [], [], []⟩

/-- Takes a step of the schedule in the world of the committer. -/
def execute {α : Type} (h : History σ)
    (step : Step (StateT Schedule (StateM (σ × List Attempt))) Error α) :
    Except Error α × History σ :=
  let ((answer, schedule), (world, attempts)) := (step.run.run h.schedule).run (h.world, h.attempts)
  (answer, { h with schedule, world, attempts })

def next (c : RunConfig) (g : Graph) (committer : Committer (StateM σ)) (h : History σ)
    (group : String) :
    Except Error (Option Wave) × History σ :=
  match h.execute ((Schedule.waves c committer.recording).next g group) with
  | (.ok (some wave), h) => (.ok (some wave), { h with waves := h.waves ++ [wave] })
  | (answer, h) => (answer, h)

def commit (c : RunConfig) (committer : Committer (StateM σ)) (h : History σ) (wave : Wave)
    (succeeded : List Nat) : Except Error Unit × History σ :=
  let (answer, h) := h.execute ((Schedule.waves c committer.recording).commit wave succeeded)
  (answer, { h with commits := h.commits ++ [(wave, succeeded)] })

def cleanup (c : RunConfig) (committer : Committer (StateM σ)) (h : History σ) :
    Except Error Unit × History σ :=
  h.execute (Schedule.waves c committer.recording).cleanup

def after (c : RunConfig) (g : Graph) (committer : Committer (StateM σ)) (h : History σ) :
    Call σ → History σ
  | .next group => (h.next c g committer group).2
  | .commit position succeeded =>
    match h.waves[position]? with
    | some wave => (h.commit c committer wave succeeded).2
    | none => h
  | .cleanup => (h.cleanup c committer).2
  | .meanwhile change => { h with world := change h.world }

def ofCalls (c : RunConfig) (g : Graph) (committer : Committer (StateM σ)) (world : σ)
    (calls : List (Call σ)) : History σ :=
  calls.foldl (after c g committer) (start world)

/-- The nodes that were put into waves, in order. -/
def placed (h : History σ) : List Nat := h.waves.flatMap fun wave => wave.jobs.flatMap Job.nodes

/-- The jobs said to have succeeded when a wave was committed first. -/
def firstCommit? (h : History σ) (seq : Nat) : Option (List Nat) :=
  (h.commits.find? fun commit => commit.1.seq == seq).map Prod.snd

variable {c : RunConfig} {g : Graph} {committer : Committer (StateM σ)} {h : History σ}

theorem next_run (committer : Committer (StateM (σ × List Attempt))) (group : String)
    (s : Schedule) :
    ((Schedule.waves c committer).next g group).run.run s =
      (do match ← Step.ofExcept (s.next c g group) with
          | none => return none
          | some (wave, s) =>
            set s
            return some wave :
        Step (StateT Schedule (StateM (σ × List Attempt))) Error (Option Wave)).run.run s := rfl

/-- A wave is asked for without the committer. -/
theorem next_eq (group : String) : h.next c g committer group =
    match h.schedule.next c g group with
    | .error e => (.error e, h)
    | .ok none => (.ok none, h)
    | .ok (some (wave, schedule)) =>
      (.ok (some wave), { h with schedule, waves := h.waves ++ [wave] }) := by
  rw [next, execute, next_run]
  cases h.schedule.next c g group with
  | error e => rfl
  | ok found => cases found <;> rfl

/-- The committer is asked once for a job, and the job is complete if it accepts. -/
theorem commitJob_run (job : Job) (s : Schedule) (world : σ) (attempts : List Attempt) :
    ((Schedule.commitJob committer.recording job).run.run s).run (world, attempts) =
      match (committer.commit job).run.run world with
      | (.ok _, world) => ((.ok (), s.complete job), (world, attempts ++ [⟨job, true⟩]))
      | (.error fault, world) =>
        ((.error (.commit job.name fault), s), (world, attempts ++ [⟨job, false⟩])) := by
  let told (v : Except CommitFault Unit × σ) : Step (StateM (σ × List Attempt)) CommitFault Unit :=
    ExceptT.mk fun _ => (v.1, (v.2, attempts ++ [⟨job, v.1.isOk⟩]))
  let rest (v : Except CommitFault Unit × σ) :
      Step (StateT Schedule (StateM (σ × List Attempt))) Error Unit := do
    ExceptT.adapt (Error.commit job.name) (told v).widen
    modify (·.complete job)
  have opened : ((Schedule.commitJob committer.recording job).run.run s).run (world, attempts) =
      ((rest ((committer.commit job).run.run world)).run.run s).run (world, attempts) := rfl
  rw [opened]
  obtain ⟨answer, world⟩ := (committer.commit job).run.run world
  cases answer <;> rfl

/-- A loop stops at the first job at which a step fails. -/
theorem forM_cons_run (job : Job) (jobs : List Job)
    (f : Job → Step (StateT Schedule (StateM (σ × List Attempt))) Error Unit) (s : Schedule)
    (w : σ × List Attempt) :
    (((job :: jobs).forM f).run.run s).run w =
      match ((f job).run.run s).run w with
      | ((.ok _, s), w) => ((jobs.forM f).run.run s).run w
      | ((.error e, s), w) => ((.error e, s), w) := by
  let rest (v : (Except Error Unit × Schedule) × (σ × List Attempt)) :
      Step (StateT Schedule (StateM (σ × List Attempt))) Error Unit := do
    ExceptT.mk fun _ => fun _ => v
    jobs.forM f
  have opened : (((job :: jobs).forM f).run.run s).run w =
      ((rest (((f job).run.run s).run w)).run.run s).run w := rfl
  rw [opened]
  obtain ⟨⟨answer, s⟩, w⟩ := ((f job).run.run s).run w
  cases answer <;> rfl

/-- What the committer was asked about some jobs in turn: it accepts the first ones and may refuse
another. -/
structure Tried (jobs accepted refused : List Job) : Prop where
  asked : accepted ++ refused <+: jobs
  stopped : refused.length ≤ 1

def record (accepted refused : List Job) : List Attempt :=
  accepted.map (⟨·, true⟩) ++ refused.map (⟨·, false⟩)

theorem commitJobs_run (committer : Committer (StateM σ)) (jobs : List Job) (s : Schedule)
    (world : σ) (attempts : List Attempt) :
    ∃ answer world' accepted refused, Tried jobs accepted refused ∧
      ((jobs.forM (Schedule.commitJob committer.recording)).run.run s).run (world, attempts) =
        ((answer, accepted.foldl Schedule.complete s),
          (world', attempts ++ record accepted refused)) := by
  induction jobs generalizing s world attempts with
  | nil => exact ⟨.ok (), world, [], [], ⟨List.nil_prefix, Nat.zero_le 1⟩, by simp [record]; rfl⟩
  | cons job rest ih =>
    rw [forM_cons_run, commitJob_run]
    obtain ⟨answer, world₁⟩ := (committer.commit job).run.run world
    cases answer with
    | ok _ =>
      obtain ⟨answer, world', accepted, refused, tried, ran⟩ :=
        ih (s.complete job) world₁ (attempts ++ [⟨job, true⟩])
      refine ⟨answer, world', job :: accepted, refused, ⟨?_, tried.stopped⟩, ?_⟩
      · exact (List.prefix_cons_inj job).mpr tried.asked
      · exact ran.trans (by simp [record])
    | error fault =>
      refine ⟨_, world₁, [], [job], ⟨?_, Nat.le_refl 1⟩, rfl⟩
      exact (List.prefix_cons_inj job).mpr List.nil_prefix

/-- Dropping outputs changes the world of the committer only. -/
theorem discardJobs_run (committer : Committer (StateM σ)) (jobs : List Job) (s : Schedule)
    (world : σ) (attempts : List Attempt) :
    ∃ answer world',
      ((jobs.forM (Schedule.discardJob committer.recording)).run.run s).run (world, attempts) =
        ((answer, s), (world', attempts)) := by
  induction jobs generalizing world with
  | nil => exact ⟨.ok (), world, rfl⟩
  | cons job rest ih =>
    have opened : ((Schedule.discardJob committer.recording job).run.run s).run (world, attempts) =
        match (committer.discard job).run.run world with
        | (answer, world) =>
          ((answer.mapError (Error.commit job.name), s), (world, attempts)) := rfl
    rw [forM_cons_run, opened]
    obtain ⟨answer, world₁⟩ := (committer.discard job).run.run world
    cases answer with
    | ok _ => exact ih world₁
    | error fault => exact ⟨_, world₁, rfl⟩

theorem commit_run (committer : Committer (StateM (σ × List Attempt))) (wave : Wave)
    (succeeded : List Nat) (s : Schedule) (w : σ × List Attempt) :
    ((Schedule.commit committer wave succeeded).run.run s).run w =
      ((do
        if s.committed.contains wave.seq then throw (.invariant (.waveCommitted wave.seq))
        set { s with committed := s.committed.insert wave.seq }
        (wave.jobs.filter fun job => succeeded.contains job.id).forM
          (Schedule.commitJob committer) :
          Step (StateT Schedule (StateM (σ × List Attempt))) Error Unit).run.run s).run w := rfl

/-- A wave that was committed before is refused, which changes nothing but the record of commits. -/
theorem commit_again {wave : Wave} (succeeded : List Nat)
    (before : h.schedule.committed.contains wave.seq = true) :
    h.commit c committer wave succeeded =
      (.error (.invariant (.waveCommitted wave.seq)),
        { h with commits := h.commits ++ [(wave, succeeded)] }) := by
  have ran : ((Schedule.commit committer.recording wave succeeded).run.run h.schedule).run
      (h.world, h.attempts) =
        ((.error (.invariant (.waveCommitted wave.seq)), h.schedule), (h.world, h.attempts)) := by
    rw [commit_run, if_pos before]
    rfl
  simp only [commit, execute, Schedule.waves, ran]

/-- A wave that is committed first has its jobs tried, those that are said to have succeeded. -/
theorem commit_first {wave : Wave} (succeeded : List Nat)
    (fresh : h.schedule.committed.contains wave.seq = false) :
    ∃ world accepted refused,
      Tried (wave.jobs.filter fun job => succeeded.contains job.id) accepted refused ∧
      (h.commit c committer wave succeeded).2 =
        { schedule := accepted.foldl Schedule.complete
            { h.schedule with committed := h.schedule.committed.insert wave.seq }
          world
          attempts := h.attempts ++ record accepted refused
          waves := h.waves
          commits := h.commits ++ [(wave, succeeded)] } := by
  let marked : Schedule := { h.schedule with committed := h.schedule.committed.insert wave.seq }
  obtain ⟨answer, world, accepted, refused, tried, looped⟩ := commitJobs_run committer
    (wave.jobs.filter fun job => succeeded.contains job.id) marked h.world h.attempts
  have ran : ((Schedule.commit committer.recording wave succeeded).run.run h.schedule).run
      (h.world, h.attempts) =
        ((answer, accepted.foldl Schedule.complete marked),
          (world, h.attempts ++ record accepted refused)) := by
    rw [commit_run, if_neg (by simp [fresh])]
    exact looped
  refine ⟨world, accepted, refused, tried, ?_⟩
  simp only [commit, execute, Schedule.waves, ran]
  rfl

theorem cleanup_eq (c : RunConfig) (committer : Committer (StateM σ)) (h : History σ) :
    ∃ world, (h.cleanup c committer).2 =
      { h with schedule := { h.schedule with temporaries := [] }, world } := by
  let forgotten : Schedule := { h.schedule with temporaries := [] }
  obtain ⟨answer, world, looped⟩ :=
    discardJobs_run committer h.schedule.temporaries forgotten h.world h.attempts
  have ran : ((Schedule.cleanup committer.recording).run.run h.schedule).run (h.world, h.attempts) =
      ((answer, forgotten), (world, h.attempts)) := looped
  refine ⟨world, ?_⟩
  simp only [cleanup, execute, Schedule.waves, ran]
  rfl

end History

end Wavefront
