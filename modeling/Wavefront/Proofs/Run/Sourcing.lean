import Wavefront.Proofs.Run.Projection
set_option autoImplicit false

/-!
Launches on a schedule. The waves of such a launch come from a schedule that begins with it, and the
schedule asks a committer to put outputs in place and to drop them. The lemmas say what the schedule
does when a wave is asked for, committed or cleaned up after, and what the committer is asked meanwhile.
-/
namespace Wavefront

/-- Where jobs run and their outputs are put. -/
structure Site (m : Type → Type) (α : Type) where
  committer : Committer m
  cluster : Cluster m α
  limits : Limits
  /-- What happens between two looks at a wave. -/
  pause : m Unit

section Launches

variable {m : Type → Type} [Monad m] {α : Type}

def Site.launch (site : Site m α) (c : RunConfig) (graph : Graph) (group : String) :
    Launch (StateT Schedule m) α where
  source := Schedule.waves c site.committer
  cluster := site.cluster.widen
  limits := site.limits
  pause := MonadLift.monadLift site.pause
  graph := graph
  group := group

def Site.recorded (site : Site m α) : Site (Recorded m) α where
  committer := site.committer.recorded
  cluster := site.cluster.recorded
  limits := site.limits
  pause := MonadLift.monadLift site.pause

end Launches

section Refusals

variable {m : Type → Type} [Monad m] {W : Type} [Stateful m W]

/-- A committer may fail to put the output of a job in place. -/
def Committer.RefusesCommit (committer : Committer m) (job : Job) (fault : CommitFault) : Prop :=
  ∃ w, ((committer.commit job).act w).1 = .error fault

/-- A committer may fail to drop the output of a job. -/
def Committer.RefusesDiscard (committer : Committer m) (job : Job) (fault : CommitFault) : Prop :=
  ∃ w, ((committer.discard job).act w).1 = .error fault

end Refusals

namespace Schedule

variable {m : Type → Type} [Monad m] {W : Type} [Stateful m W] {c : RunConfig} {g : Graph}
  {group : String}

/-- Asking for a wave touches nothing but the schedule. -/
theorem next_act (committer : Committer m) (s : Schedule) (w : W) :
    ((Schedule.waves c committer).next g group).act (s, w) =
      match s.next c g group with
      | .error e => (.error e, (s, w))
      | .ok none => (.ok none, (s, w))
      | .ok (some (wave, s')) => (.ok (some wave), (s', w)) := by
  rw [Schedule.waves, Step.act_bind_ok (Step.act_get s w), Step.act_bind, Step.act_ofExcept]
  rcases s.next c g group with e | _ | ⟨wave, s'⟩
  · rfl
  · exact Step.act_pure _ _
  · exact (Step.act_bind_ok (Step.act_set s s' w)).trans (Step.act_pure _ _)

/-- A committer is asked about some jobs in turn, until it refuses one. -/
inductive Asked (event : Job → Except CommitFault Unit → Event) (refuses : Job → CommitFault → Prop)
    (jobs : List Job) : Except Error Unit → List Job → List Event → Prop where
  | all : Asked event refuses jobs (.ok ()) jobs (jobs.map (event · (.ok ())))
  | refused (accepted : List Job) (job : Job) (rest : List Job) (fault : CommitFault)
      (tried : jobs = accepted ++ job :: rest) (refusal : refuses job fault) :
      Asked event refuses jobs (.error (.commit job.name fault)) accepted
        (accepted.map (event · (.ok ())) ++ [event job (.error fault)])

variable {event : Job → Except CommitFault Unit → Event} {refuses : Job → CommitFault → Prop}

theorem Asked.cons {jobs accepted : List Job} {result : Except Error Unit} {events : List Event}
    (job : Job) (asked : Asked event refuses jobs result accepted events) :
    Asked event refuses (job :: jobs) result (job :: accepted) (event job (.ok ()) :: events) := by
  cases asked with
  | all => exact .all
  | refused _ other rest fault tried refusal =>
    exact .refused (job :: accepted) other rest fault (congrArg (job :: ·) tried) refusal

/-- What holds of a question to the committer holds of a loop of such questions. -/
theorem forM_asked {W : Type} [Stateful m (List Event × W)] {note : Schedule → Job → Schedule}
    {ask : Job → Step (StateT Schedule m) Error Unit}
    (each : ∀ job s log w, ∃ answer w', (∀ fault, answer = .error fault → refuses job fault) ∧
      (ask job).act (s, (log, w)) = (Except.mapError (.commit job.name) answer,
        (if answer.isOk then note s job else s, (log ++ [event job answer], w'))))
    (jobs : List Job) (s : Schedule) (log : List Event) (w : W) :
    ∃ result accepted events w', (jobs.forM ask).act (s, (log, w)) =
      (result, (accepted.foldl note s, (log ++ events, w'))) ∧
        Asked event refuses jobs result accepted events := by
  induction jobs generalizing s log w with
  | nil => exact ⟨_, [], [], w, by rw [Step.act_forM_nil, List.append_nil]; rfl, .all⟩
  | cons job rest ih =>
    obtain ⟨answer, w₁, refusal, asked⟩ := each job s log w
    rw [Step.act_forM_cons, asked]
    cases answer with
    | ok _ =>
      obtain ⟨result, accepted, events, w', ran, others⟩ := ih (note s job) (log ++ [event job (.ok ())]) w₁
      refine ⟨result, job :: accepted, _, w', ran.trans ?_, others.cons job⟩
      rw [List.append_assoc]
      rfl
    | error fault => exact ⟨_, [], _, w₁, rfl, .refused [] job rest fault rfl (refusal fault rfl)⟩

section Recorded

variable [LawfulMonad m] (committer : Committer m)

theorem commitJob_act (job : Job) (s : Schedule) (log : List Event) (w : W) :
    ∃ answer w', (∀ fault, answer = .error fault → committer.RefusesCommit job fault) ∧
      (commitJob committer.recorded job).act (s, (log, w)) =
      (Except.mapError (.commit job.name) answer,
        (if answer.isOk then s.complete job else s, (log ++ [.store job answer], w'))) := by
  refine ⟨((committer.commit job).act w).1, ((committer.commit job).act w).2,
    fun _ refused => ⟨w, refused⟩, ?_⟩
  rw [commitJob, Step.act_bind, Step.act_adapt, Step.act_widen, Committer.recorded,
    Step.act_recording]
  rcases (committer.commit job).act w with ⟨fault | _, w'⟩
  · rfl
  · exact Step.act_modify _ _ _

theorem discardJob_act (job : Job) (s : Schedule) (log : List Event) (w : W) :
    ∃ answer w', (∀ fault, answer = .error fault → committer.RefusesDiscard job fault) ∧
      (discardJob committer.recorded job).act (s, (log, w)) =
      (Except.mapError (.commit job.name) answer,
        (if answer.isOk then s else s, (log ++ [.discard job answer], w'))) := by
  refine ⟨((committer.discard job).act w).1, ((committer.discard job).act w).2,
    fun _ refused => ⟨w, refused⟩, ?_⟩
  rw [discardJob, Step.act_adapt, Step.act_widen, Committer.recorded, Step.act_recording, ite_self]

/-- A wave is committed once: the committer is asked about its jobs that have succeeded. -/
theorem commit_act (wave : Wave) (succeeded : List Nat) (s : Schedule) (log : List Event) (w : W) :
    (s.committed.contains wave.seq = true ∧
      (commit committer.recorded wave succeeded).act (s, (log, w)) =
        (.error (.invariant (.waveCommitted wave.seq)), (s, (log, w)))) ∨
    ∃ result accepted events w', (commit committer.recorded wave succeeded).act (s, (log, w)) =
      (result, (accepted.foldl complete { s with committed := s.committed.insert wave.seq },
        (log ++ events, w'))) ∧
      Asked .store committer.RefusesCommit (wave.jobs.filter fun job => succeeded.contains job.id)
        result accepted events := by
  by_cases before : s.committed.contains wave.seq = true
  · refine .inl ⟨before, (Step.act_bind_ok (Step.act_get s (log, w))).trans ?_⟩
    rw [if_pos before]
    exact Step.act_bind_error (Step.act_throw _ _)
  · let marked : Schedule := { s with committed := s.committed.insert wave.seq }
    obtain ⟨result, accepted, events, w', ran, asked⟩ := forM_asked (commitJob_act committer)
      (wave.jobs.filter fun job => succeeded.contains job.id) marked log w
    refine .inr ⟨result, accepted, events, w',
      (Step.act_bind_ok (Step.act_get s (log, w))).trans ?_, asked⟩
    rw [if_neg before]
    exact (Step.act_bind_ok (Step.act_set s marked (log, w))).trans ran

/-- All temporary outputs are forgotten, and the committer is asked to drop them. -/
theorem cleanup_act (s : Schedule) (log : List Event) (w : W) :
    ∃ result dropped events w', (cleanup committer.recorded).act (s, (log, w)) =
      (result, ({ s with temporaries := [] }, (log ++ events, w'))) ∧
      Asked .discard committer.RefusesDiscard s.temporaries result dropped events := by
  let forgotten : Schedule := { s with temporaries := [] }
  obtain ⟨result, dropped, events, w', ran, asked⟩ :=
    forM_asked (discardJob_act committer) s.temporaries forgotten log w
  rw [List.foldl_fixed] at ran
  exact ⟨result, dropped, events, w', (Step.act_bind_ok (Step.act_get s (log, w))).trans
    ((Step.act_bind_ok (Step.act_set s forgotten (log, w))).trans ran), asked⟩

end Recorded

end Schedule

section Projection

variable {m : Type → Type} [Monad m] {W α : Type} [Stateful m W]

def unrecorded (w : Schedule × (List Event × W)) : Schedule × W := w.map id Prod.snd

theorem Schedule.next_projects (committer : Committer m) (c : RunConfig) (g : Graph) (group : String) :
    Step.Projects unrecorded ((Schedule.waves c committer).next g group)
      ((Schedule.waves c committer.recorded).next g group) := by
  refine Step.Projects.get.bind fun s => (Step.Projects.ofExcept _).bind fun found => ?_
  rcases found with _ | ⟨wave, s'⟩
  · exact .pure none
  · exact (Step.Projects.set s').bind fun _ => .pure (some wave)

variable [LawfulMonad m]

theorem Schedule.commitJob_projects (committer : Committer m) (job : Job) :
    Step.Projects unrecorded (commitJob committer job) (commitJob committer.recorded job) :=
  ((Step.Projects.recording _ _).widen.adapt _).bind fun _ => .modify _

theorem Schedule.commit_projects (committer : Committer m) (wave : Wave) (succeeded : List Nat) :
    Step.Projects unrecorded (commit committer wave succeeded)
      (commit committer.recorded wave succeeded) := by
  have commits := (Step.Projects.forM (commitJob_projects committer)
    (wave.jobs.filter fun job => succeeded.contains job.id))
  refine Step.Projects.get.bind fun s => ?_
  split
  · exact (Step.Projects.throw _).bind fun _ => (Step.Projects.set _).bind fun _ => commits
  · exact (Step.Projects.set _).bind fun _ => commits

theorem Schedule.cleanup_projects (committer : Committer m) :
    Step.Projects unrecorded (cleanup committer) (cleanup committer.recorded) :=
  Step.Projects.get.bind fun _ => (Step.Projects.set _).bind fun _ =>
    .forM (fun _ => (Step.Projects.recording _ _).widen.adapt _) _

/-- Writing events down leaves a launch on a schedule as it is. -/
theorem Site.launch_projects (site : Site m α) (c : RunConfig) (g : Graph) (group : String) :
    Launch.Projects unrecorded (site.launch c g group) (site.recorded.launch c g group) where
  next := Schedule.next_projects site.committer c
  commit := Schedule.commit_projects site.committer
  cleanup := Schedule.cleanup_projects site.committer
  submit _ := (Step.Projects.recording _ _).widen
  allFinished := (Step.Projects.recording _ _).widen
  progress _ := (Projects.monadLift _).beside
  status _ := (Projects.recording _ _).beside
  message _ := (Projects.recording _ _).beside
  stop := (Step.Projects.recording _ _).widen
  stats _ := (Step.Projects.recording _ _).widen
  pause := (Projects.monadLift _).beside
  limits := rfl
  graph := rfl
  group := rfl

end Projection

end Wavefront
