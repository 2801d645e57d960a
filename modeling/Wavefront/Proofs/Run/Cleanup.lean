import Wavefront.Proofs.Run.Waves
set_option autoImplicit false

/-!
What becomes of temporary outputs. A cleanup asks the committer to drop what the schedule remembers, in
turn, and forgets all of it, also what stands behind an output that the committer refuses to drop. Main
statement: no temporary output is asked for twice, all of them are dropped or remembered exactly as long
as the committer has refused none, and what is lost once is lost for good.
-/
namespace Wavefront

/-- A job whose output a committer was asked to drop. -/
structure Drop where
  job : Job
  accepted : Bool
deriving DecidableEq

/-- A committer that writes down what it was asked to drop. -/
def Committer.noting {σ : Type} (committer : Committer (StateM σ)) :
    Committer (StateM (σ × List Drop)) where
  commit job := ExceptT.mk fun (world, drops) =>
    let (answer, world) := (committer.commit job).run.run world
    (answer, (world, drops))
  discard job := ExceptT.mk fun (world, drops) =>
    let (answer, world) := (committer.discard job).run.run world
    (answer, (world, drops ++ [⟨job, answer.isOk⟩]))

def Call.noted {σ : Type} : Call σ → Call (σ × List Drop)
  | .next group => .next group
  | .commit position succeeded => .commit position succeeded
  | .cleanup => .cleanup
  | .meanwhile change => .meanwhile (Prod.map change id)

namespace History

variable {σ : Type}

/-- The jobs with temporary outputs that were put in place, in order. -/
def temporaries (h : History σ) : List Job :=
  ((h.attempts.filter Attempt.accepted).map Attempt.job).filter Job.temporary

def drops (h : History (σ × List Drop)) : List Drop := h.world.2

/-- The history after some calls, with the drops written down. -/
def onward (c : RunConfig) (g : Graph) (committer : Committer (StateM σ))
    (h : History (σ × List Drop)) (calls : List (Call σ)) : History (σ × List Drop) :=
  (calls.map Call.noted).foldl (after c g committer.noting) h

def noted (c : RunConfig) (g : Graph) (committer : Committer (StateM σ)) (world : σ)
    (calls : List (Call σ)) : History (σ × List Drop) :=
  (start (world, [])).onward c g committer calls

def bare (h : History (σ × List Drop)) : History σ :=
  ⟨h.schedule, h.world.1, h.attempts, h.waves, h.commits⟩

/-- What a committer is asked to drop of some jobs, and what the cleanup answers: all of them, or those
up to the first that it refuses. -/
inductive Cleared (jobs : List Job) : List Drop → Except Error Unit → Prop where
  | all : Cleared jobs (jobs.map (⟨·, true⟩)) (.ok ())
  | refused (front : List Job) (job : Job) (rest : List Job) (fault : CommitFault)
      (tried : jobs = front ++ job :: rest) :
      Cleared jobs (front.map (⟨·, true⟩) ++ [⟨job, false⟩]) (.error (.commit job.name fault))

variable {c : RunConfig} {g : Graph} {committer : Committer (StateM σ)}
  {h h' : History (σ × List Drop)}

/-- The end of a step, with drops written down beside the world. -/
def beside {α : Type} (drops : List Drop) (run : α × (σ × List Attempt)) :
    α × ((σ × List Drop) × List Attempt) :=
  (run.1, ((run.2.1, drops), run.2.2))

/-- Putting outputs in place drops none. -/
theorem commitJobs_noted (jobs : List Job) (s : Schedule) (w : σ × List Drop)
    (attempts : List Attempt) :
    ((jobs.forM (Schedule.commitJob committer.noting.recording)).run.run s).run (w, attempts) =
      beside w.2
        (((jobs.forM (Schedule.commitJob committer.recording)).run.run s).run (w.1, attempts)) := by
  induction jobs generalizing s w attempts with
  | nil => rfl
  | cons job rest ih =>
    have told : (committer.noting.commit job).run.run w =
        match (committer.commit job).run.run w.1 with
        | (answer, world) => (answer, (world, w.2)) := rfl
    rw [forM_cons_run, forM_cons_run, commitJob_run, commitJob_run, told]
    obtain ⟨answer, world⟩ := (committer.commit job).run.run w.1
    cases answer with
    | ok _ => exact ih _ (world, w.2) _
    | error fault => rfl

theorem commit_noted (c : RunConfig) (committer : Committer (StateM σ))
    (h : History (σ × List Drop)) (wave : Wave) (succeeded : List Nat) :
    (h.commit c committer.noting wave succeeded).2.drops = h.drops ∧
      (h.commit c committer.noting wave succeeded).2.bare =
        (h.bare.commit c committer wave succeeded).2 := by
  have ran : ((Schedule.commit committer.noting.recording wave succeeded).run.run h.schedule).run
      (h.world, h.attempts) = beside h.drops
        (((Schedule.commit committer.recording wave succeeded).run.run h.schedule).run
          (h.world.1, h.attempts)) := by
    rw [commit_run, commit_run]
    by_cases before : h.schedule.committed.contains wave.seq = true
    · rw [if_pos before, if_pos before]
      rfl
    · rw [if_neg before, if_neg before]
      exact commitJobs_noted _ _ h.world h.attempts
  simp only [commit, execute, Schedule.waves, ran, bare]
  exact ⟨rfl, rfl⟩

theorem Cleared.cons {jobs : List Job} {asked : List Drop} {answer : Except Error Unit} (job : Job)
    (cleared : Cleared jobs asked answer) : Cleared (job :: jobs) (⟨job, true⟩ :: asked) answer := by
  cases cleared with
  | all => exact .all
  | refused front last rest fault tried =>
    exact .refused (job :: front) last rest fault (congrArg (job :: ·) tried)

/-- The committer is asked to drop some jobs in turn. -/
theorem discardJobs_noted (jobs : List Job) (s : Schedule) (w : σ × List Drop)
    (attempts : List Attempt) :
    ∃ asked, Cleared jobs asked
        (((jobs.forM (Schedule.discardJob committer.recording)).run.run s).run (w.1, attempts)).1.1 ∧
      ((jobs.forM (Schedule.discardJob committer.noting.recording)).run.run s).run (w, attempts) =
        beside (w.2 ++ asked)
          (((jobs.forM (Schedule.discardJob committer.recording)).run.run s).run (w.1, attempts)) := by
  induction jobs generalizing w with
  | nil => exact ⟨[], .all, by rw [List.append_nil]; rfl⟩
  | cons job rest ih =>
    have plain : ((Schedule.discardJob committer.recording job).run.run s).run (w.1, attempts) =
        match (committer.discard job).run.run w.1 with
        | (answer, world) => ((answer.mapError (Error.commit job.name), s), (world, attempts)) := rfl
    have noted :
        ((Schedule.discardJob committer.noting.recording job).run.run s).run (w, attempts) =
        match (committer.discard job).run.run w.1 with
        | (answer, world) => ((answer.mapError (Error.commit job.name), s),
            ((world, w.2 ++ [⟨job, answer.isOk⟩]), attempts)) := rfl
    rw [forM_cons_run, forM_cons_run, plain, noted]
    obtain ⟨answer, world⟩ := (committer.discard job).run.run w.1
    cases answer with
    | ok _ =>
      obtain ⟨asked, cleared, ran⟩ := ih (world, w.2 ++ [⟨job, true⟩])
      refine ⟨_, cleared.cons job, ran.trans ?_⟩
      rw [List.append_assoc, List.singleton_append]
      rfl
    | error fault => exact ⟨_, .refused [] job rest fault rfl, rfl⟩

/-- A cleanup asks for what is remembered, and forgets all of it. -/
theorem cleanup_noted (c : RunConfig) (committer : Committer (StateM σ))
    (h : History (σ × List Drop)) :
    ∃ asked, Cleared h.schedule.temporaries asked (h.cleanup c committer.noting).1 ∧
      (h.cleanup c committer.noting).2.drops = h.drops ++ asked ∧
      (h.cleanup c committer.noting).1 = (h.bare.cleanup c committer).1 ∧
      (h.cleanup c committer.noting).2.bare = (h.bare.cleanup c committer).2 := by
  let forgotten : Schedule := { h.schedule with temporaries := [] }
  obtain ⟨asked, cleared, looped⟩ := @discardJobs_noted σ committer
    h.schedule.temporaries forgotten h.world h.attempts
  have ran : ((Schedule.cleanup committer.noting.recording).run.run h.schedule).run
      (h.world, h.attempts) = beside (h.drops ++ asked)
        (((Schedule.cleanup committer.recording).run.run h.schedule).run
          (h.world.1, h.attempts)) := looped
  refine ⟨asked, ?_, ?_⟩
  · simp only [cleanup, execute, Schedule.waves, ran]
    exact cleared
  · simp only [cleanup, execute, Schedule.waves, ran, bare]
    exact ⟨rfl, rfl, rfl⟩

/-- What a call may do to temporary outputs: some are put in place and remembered, or some are dropped
and all forgotten. -/
inductive Moved (h h' : History (σ × List Drop)) : Prop where
  | placed (jobs : List Job) (temporaries : h'.temporaries = h.temporaries ++ jobs)
      (remembered : h'.schedule.temporaries = h.schedule.temporaries ++ jobs)
      (drops : h'.drops = h.drops)
  | cleared (asked : List Drop) (answer : Except Error Unit)
      (cleared : Cleared h.schedule.temporaries asked answer)
      (temporaries : h'.temporaries = h.temporaries) (remembered : h'.schedule.temporaries = [])
      (drops : h'.drops = h.drops ++ asked)

theorem Moved.still (temporaries : h'.temporaries = h.temporaries)
    (remembered : h'.schedule.temporaries = h.schedule.temporaries) (drops : h'.drops = h.drops) :
    Moved h h' :=
  .placed [] (by rw [temporaries, List.append_nil]) (by rw [remembered, List.append_nil]) drops

/-- Accepted outputs of a wave are remembered if they are temporary. -/
theorem moved_commit (wave : Wave) (succeeded : List Nat) :
    Moved h (h.commit c committer.noting wave succeeded).2 := by
  have drops := (commit_noted c committer h wave succeeded).1
  cases before : h.schedule.committed.contains wave.seq with
  | true =>
    rw [commit_again succeeded before]
    exact .still rfl rfl rfl
  | false =>
    obtain ⟨world, accepted, refused, _, committed⟩ :=
      @commit_first _ c committer.noting h wave succeeded before
    refine .placed (accepted.filter Job.temporary) ?_ ?_ drops
    · rw [committed]
      simp [temporaries, record, List.filter_map, Function.comp_def]
    · rw [committed]
      exact Schedule.temporaries_foldl_complete accepted _

/-- Every call moves temporary outputs in one of the two ways. -/
theorem moved_after (c : RunConfig) (g : Graph) (committer : Committer (StateM σ))
    (h : History (σ × List Drop)) (call : Call σ) :
    Moved h (h.after c g committer.noting call.noted) := by
  cases call with
  | next group =>
    show Moved h (h.next c g committer.noting group).2
    rw [next_eq]
    cases answer : h.schedule.next c g group with
    | error e => exact .still rfl rfl rfl
    | ok found =>
      cases found with
      | none => exact .still rfl rfl rfl
      | some pair =>
        obtain ⟨wave, schedule⟩ := pair
        obtain ⟨_, _, _, rfl⟩ := Schedule.next_made answer
        exact .still rfl rfl rfl
  | commit position succeeded =>
    cases there : h.waves[position]? with
    | none =>
      simp only [after, Call.noted, there]
      exact .still rfl rfl rfl
    | some wave =>
      simp only [after, Call.noted, there]
      exact moved_commit wave succeeded
  | cleanup =>
    obtain ⟨asked, cleared, drops, _⟩ := cleanup_noted c committer h
    obtain ⟨world, forgotten⟩ := cleanup_eq c committer.noting h
    have placed : (h.cleanup c committer.noting).2.temporaries = h.temporaries := by
      rw [forgotten]
      rfl
    have remembered : (h.cleanup c committer.noting).2.schedule.temporaries = [] := by
      rw [forgotten]
    exact .cleared asked _ cleared placed remembered drops
  | meanwhile change => exact .still rfl rfl rfl

@[simp] theorem map_job_accepted (jobs : List Job) :
    (jobs.map fun job => (⟨job, true⟩ : Drop)).map Drop.job = jobs := by
  simp [Function.comp_def]

theorem Cleared.jobs_prefix {jobs : List Job} {asked : List Drop} {answer : Except Error Unit}
    (cleared : Cleared jobs asked answer) : asked.map Drop.job <+: jobs := by
  cases cleared with
  | all => rw [map_job_accepted]
  | refused front job rest fault tried =>
    rw [List.map_append, map_job_accepted]
    exact ⟨rest, by simp [tried]⟩

theorem Cleared.jobs_eq {jobs : List Job} {asked : List Drop} {answer : Except Error Unit}
    (cleared : Cleared jobs asked answer) (willing : ∀ drop ∈ asked, drop.accepted = true) :
    asked.map Drop.job = jobs := by
  cases cleared with
  | all => exact map_job_accepted jobs
  | refused front job rest fault tried =>
    have accepted := willing ⟨job, false⟩ (by simp)
    cases accepted

/-- How temporary outputs stand: none is asked for twice, or while it is remembered, and all have been
asked for or are remembered unless one was refused. -/
structure Settled (h : History (σ × List Drop)) : Prop where
  once : (h.drops.map Drop.job ++ h.schedule.temporaries).Sublist h.temporaries
  whole : (∀ drop ∈ h.drops, drop.accepted = true) →
    h.drops.map Drop.job ++ h.schedule.temporaries = h.temporaries

theorem settled_start (world : σ) : Settled (start (world, [])) := ⟨.slnil, fun _ => rfl⟩

theorem Settled.moved (settled : Settled h) (moved : Moved h h') : Settled h' := by
  cases moved with
  | placed jobs temporaries remembered drops =>
    constructor
    · rw [temporaries, remembered, drops, ← List.append_assoc]
      exact settled.once.append_right jobs
    · rw [temporaries, remembered, drops, ← List.append_assoc]
      intro willing
      rw [settled.whole willing]
  | cleared asked answer cleared temporaries remembered drops =>
    constructor
    · rw [temporaries, remembered, drops, List.map_append, List.append_nil]
      exact (cleared.jobs_prefix.sublist.append_left _).trans settled.once
    · rw [temporaries, remembered, drops, List.map_append, List.append_nil]
      intro willing
      obtain ⟨before, now⟩ := List.forall_mem_append.mp willing
      rw [cleared.jobs_eq now, settled.whole before]

/-- What was neither asked for nor remembered does not come back. -/
theorem Moved.lost (moved : Moved h h') (distinct : h'.temporaries.Nodup) {job : Job}
    (member : job ∈ h.temporaries) (unasked : job ∉ h.drops.map Drop.job)
    (forgotten : job ∉ h.schedule.temporaries) :
    job ∈ h'.temporaries ∧ job ∉ h'.drops.map Drop.job ∧ job ∉ h'.schedule.temporaries := by
  cases moved with
  | placed jobs temporaries remembered drops =>
    -- What is put in place now was not in place before, so it is another job.
    rw [temporaries] at distinct
    have old : job ∉ jobs := fun new => (List.nodup_append.mp distinct).2.2 job member job new rfl
    rw [temporaries, remembered, drops, List.mem_append, List.mem_append]
    exact ⟨.inl member, unasked, not_or.mpr ⟨forgotten, old⟩⟩
  | cleared asked answer cleared temporaries remembered drops =>
    rw [temporaries, remembered, drops, List.map_append, List.mem_append]
    refine ⟨member, not_or.mpr ⟨unasked, fun now => ?_⟩, List.not_mem_nil⟩
    exact forgotten (cleared.jobs_prefix.subset now)

/-- None is lost exactly as long as none was refused. -/
theorem Settled.kept_iff (settled : Settled h) (distinct : h.temporaries.Nodup) :
    (∀ job ∈ h.temporaries, ⟨job, true⟩ ∈ h.drops ∨ job ∈ h.schedule.temporaries) ↔
      ∀ drop ∈ h.drops, drop.accepted = true := by
  obtain ⟨asked, _, apart⟩ := List.nodup_append.mp (settled.once.nodup distinct)
  constructor
  · intro kept drop member
    obtain ⟨job, accepted⟩ := drop
    have now : job ∈ h.drops.map Drop.job := List.mem_map_of_mem member
    have there : job ∈ h.temporaries := settled.once.subset (List.mem_append_left _ now)
    rcases kept job there with dropped | remembered
    · have same := List.inj_on_of_nodup_map asked member dropped rfl
      exact congrArg Drop.accepted same
    · exact absurd rfl (apart job now job remembered)
  · intro willing job member
    rw [← settled.whole willing, List.mem_append] at member
    apply member.imp_left
    intro now
    obtain ⟨⟨_, accepted⟩, there, rfl⟩ := List.mem_map.mp now
    obtain rfl : accepted = true := willing _ there
    exact there

theorem Consistent.distinct_temporaries (consistent : Consistent g h) : h.temporaries.Nodup := by
  have ids : ((h.attempts.map Attempt.job).map Job.id).Nodup := by
    rw [List.map_map]
    exact consistent.tried
  have asked := ids.of_map Job.id
  exact (List.filter_sublist.trans (List.filter_sublist.map Attempt.job)).nodup asked

/-- What a run can rely on about its temporary outputs. -/
structure Dropping (c : RunConfig) (g : Graph) (committer : Committer (StateM σ))
    (h : History (σ × List Drop)) : Prop where
  distinct : h.temporaries.Nodup
  /-- A temporary output is asked for once at most, and is not remembered then. -/
  once : (h.drops.map Drop.job ++ h.schedule.temporaries).Sublist h.temporaries
  /-- All are dropped or remembered exactly as long as none was refused. -/
  kept : (∀ job ∈ h.temporaries, ⟨job, true⟩ ∈ h.drops ∨ job ∈ h.schedule.temporaries) ↔
    ∀ drop ∈ h.drops, drop.accepted = true
  /-- A cleanup asks for what is remembered, up to the first that is refused, and forgets all of it. -/
  cleanup : ∃ asked, Cleared h.schedule.temporaries asked (h.cleanup c committer.noting).1 ∧
    (h.cleanup c committer.noting).2.drops = h.drops ++ asked ∧
    (h.cleanup c committer.noting).2.schedule = { h.schedule with temporaries := [] }
  /-- Where a cleanup has nothing to ask for it succeeds, as it does right after another one. -/
  cleanup_idle : h.schedule.temporaries = [] →
    (h.cleanup c committer.noting).1 = .ok () ∧ (h.cleanup c committer.noting).2.drops = h.drops
  /-- All are dropped by a cleanup that succeeds exactly if none was refused before. -/
  cleaned : (h.cleanup c committer.noting).1 = .ok () →
    ((∀ job ∈ h.temporaries, ⟨job, true⟩ ∈ (h.cleanup c committer.noting).2.drops) ↔
      ∀ drop ∈ h.drops, drop.accepted = true)
  /-- What is neither asked for nor remembered will never be again. -/
  lost : ∀ job ∈ h.temporaries, job ∉ h.drops.map Drop.job → job ∉ h.schedule.temporaries →
    ∀ calls, job ∉ (h.onward c g committer calls).drops.map Drop.job ∧
      job ∉ (h.onward c g committer calls).schedule.temporaries

theorem Cleared.of_nil {asked : List Drop} {answer : Except Error Unit}
    (cleared : Cleared [] asked answer) : asked = [] ∧ answer = .ok () := by
  cases cleared with
  | all => exact ⟨rfl, rfl⟩
  | refused front job rest fault tried => simp at tried

theorem Cleared.of_ok {jobs : List Job} {asked : List Drop} (cleared : Cleared jobs asked (.ok ())) :
    asked = jobs.map (⟨·, true⟩) := by
  cases cleared
  rfl

section Built

variable (built : g.Built)

include built

/-- What is lost stays lost whatever is called. -/
theorem lost_onward (consistent : Consistent g h) {job : Job} (member : job ∈ h.temporaries)
    (unasked : job ∉ h.drops.map Drop.job) (forgotten : job ∉ h.schedule.temporaries)
    (calls : List (Call σ)) :
    job ∉ (h.onward c g committer calls).drops.map Drop.job ∧
      job ∉ (h.onward c g committer calls).schedule.temporaries := by
  induction calls generalizing h with
  | nil => exact ⟨unasked, forgotten⟩
  | cons call rest ih =>
    have after : Consistent g (h.after c g committer.noting call.noted) :=
      consistent.after built call.noted
    have lost := (moved_after c g committer h call).lost after.distinct_temporaries member
      unasked forgotten
    exact ih after lost.1 lost.2.1 lost.2.2

theorem settled_onward (consistent : Consistent g h) (settled : Settled h) (calls : List (Call σ)) :
    Consistent g (h.onward c g committer calls) ∧ Settled (h.onward c g committer calls) := by
  induction calls generalizing h with
  | nil => exact ⟨consistent, settled⟩
  | cons call rest ih =>
    exact ih (consistent.after built call.noted) (settled.moved (moved_after c g committer h call))

theorem Settled.dropping (consistent : Consistent g h) (settled : Settled h) :
    Dropping c g committer h := by
  obtain ⟨asked, cleared, drops, _⟩ := cleanup_noted c committer h
  have distinct := consistent.distinct_temporaries
  have kept := settled.kept_iff distinct
  constructor
  case distinct => exact distinct
  case once => exact settled.once
  case kept => exact kept
  case cleanup =>
    obtain ⟨world, forgotten⟩ := cleanup_eq c committer.noting h
    exact ⟨asked, cleared, drops, congrArg schedule forgotten⟩
  case cleanup_idle =>
    intro nothing
    rw [nothing] at cleared
    obtain ⟨rfl, answer⟩ := cleared.of_nil
    exact ⟨answer, drops.trans (List.append_nil _)⟩
  case cleaned =>
    intro answer
    rw [answer] at cleared
    rw [← kept, drops, cleared.of_ok]
    simp only [List.mem_append, List.mem_map, Drop.mk.injEq, and_true, exists_eq_right]
  case lost =>
    intro job member unasked forgotten calls
    exact lost_onward built consistent member unasked forgotten calls

end Built

/-- Writing down what is dropped changes nothing else. -/
theorem bare_after (c : RunConfig) (g : Graph) (committer : Committer (StateM σ))
    (h : History (σ × List Drop)) (call : Call σ) :
    (h.after c g committer.noting call.noted).bare = h.bare.after c g committer call := by
  cases call with
  | next group =>
    show (h.next c g committer.noting group).2.bare = (h.bare.next c g committer group).2
    rw [next_eq, next_eq]
    have same : h.bare.schedule = h.schedule := rfl
    rw [same]
    cases h.schedule.next c g group with
    | error e => rfl
    | ok found => cases found <;> rfl
  | commit position succeeded =>
    have same : h.bare.waves = h.waves := rfl
    cases there : h.waves[position]? with
    | none => simp only [after, Call.noted, same, there]
    | some wave =>
      simp only [after, Call.noted, same, there]
      exact (commit_noted c committer h wave succeeded).2
  | cleanup =>
    obtain ⟨_, _, _, _, same⟩ := cleanup_noted c committer h
    exact same
  | meanwhile change => rfl

theorem bare_onward (c : RunConfig) (g : Graph) (committer : Committer (StateM σ))
    (h : History (σ × List Drop)) (calls : List (Call σ)) :
    (h.onward c g committer calls).bare = calls.foldl (after c g committer) h.bare := by
  induction calls generalizing h with
  | nil => rfl
  | cons call rest ih =>
    rw [List.foldl_cons, ← bare_after]
    exact ih _

/-- Every run on a graph that was built from nodes drops its temporary outputs in turn, whatever it
calls and however the committer answers. -/
theorem noted_dropping {scope : String} {nodes : List Node}
    (made : Graph.ofNodes scope nodes = .ok g) (c : RunConfig) (committer : Committer (StateM σ))
    (world : σ) (calls : List (Call σ)) :
    (noted c g committer world calls).bare = ofCalls c g committer world calls ∧
      Dropping c g committer (noted c g committer world calls) := by
  have built := (Graph.built_of_ofNodes made).1
  obtain ⟨consistent, settled⟩ := @settled_onward _ c g committer _ built
    (start_consistent g (world, [])) (settled_start world) calls
  exact ⟨bare_onward c g committer _ calls, settled.dropping built consistent⟩

end History

/-- Two nodes with temporary outputs, and one that reads both. -/
def forkNodes : List Node := [
  ⟨0, [⟨.file "left" none, []⟩], none, [], .temporary "tmp/0", none, .none⟩,
  ⟨1, [⟨.file "right" none, []⟩], none, [], .temporary "tmp/1", none, .none⟩,
  ⟨2, [⟨.temp 0 "tmp/0", []⟩, ⟨.temp 1 "tmp/1", []⟩], none, [], .final "out" "json", none, .none⟩]

/-- A committer that does not drop the outputs of some jobs. -/
def Committer.refusing (jobs : List Nat) : Committer (StateM Unit) where
  commit _ := pure ()
  discard job := if jobs.contains job.id then throw (.other "in use") else pure ()

namespace History

/-- Where the output that comes last is refused, the one before it is dropped. -/
theorem noted_dropping_fork :
    ∃ g h, Graph.ofNodes "scope" forkNodes = .ok g ∧
      h = noted .standard g (.refusing [1]) () [.next "run", .commit 0 [0, 1], .cleanup] ∧
      h.drops.map (fun drop => (drop.job.id, drop.accepted)) = [(0, true), (1, false)] ∧
      h.bare = ofCalls .standard g (.refusing [1]) () [.next "run", .commit 0 [0, 1], .cleanup] ∧
      Dropping .standard g (.refusing [1]) h := by
  obtain ⟨g, made, asked⟩ : ∃ g, Graph.ofNodes "scope" forkNodes = .ok g ∧
      (noted .standard g (.refusing [1]) () [.next "run", .commit 0 [0, 1], .cleanup]).drops.map
        (fun drop => (drop.job.id, drop.accepted)) = [(0, true), (1, false)] := ⟨_, rfl, rfl⟩
  exact ⟨g, _, made, rfl, asked, noted_dropping made .standard (.refusing [1]) () _⟩

/-- Where the output that comes first is refused, both are lost: the cleanup fails without asking for the
second, none of them was dropped or is remembered, and the next cleanup succeeds without them. -/
theorem cleanup_loses :
    ∃ g h h', Graph.ofNodes "scope" forkNodes = .ok g ∧
      h = noted .standard g (.refusing [0]) () [.next "run", .commit 0 [0, 1]] ∧
      h.cleanup .standard (Committer.refusing [0]).noting =
        (.error (.commit "run-node-0" (.other "in use")), h') ∧
      h'.drops.map (fun drop => (drop.job.id, drop.accepted)) = [(0, false)] ∧
      h'.temporaries.map Job.id = [0, 1] ∧
      (∀ job ∈ h'.temporaries, ⟨job, true⟩ ∉ h'.drops ∧ job ∉ h'.schedule.temporaries) ∧
      (h'.cleanup .standard (Committer.refusing [0]).noting).1 = .ok () ∧
      (h'.cleanup .standard (Committer.refusing [0]).noting).2.drops = h'.drops := by
  refine ⟨_, _, _, rfl, rfl, rfl, rfl, rfl, fun job _ => ⟨fun dropped => ?_, List.not_mem_nil⟩, rfl, rfl⟩
  have accepted := List.mem_map_of_mem (f := Drop.accepted) dropped
  exact Bool.noConfusion (List.mem_singleton.mp accepted)

end History

end Wavefront
