import Wavefront.Proofs.Lookup
import Wavefront.Proofs.Run.Projection
import Wavefront.Proofs.Run.Temporaries
import Wavefront.Proofs.Run.Tracking
set_option autoImplicit false

/-!
What a launch logs, however it ends. A launch that fails has no outcome, and its journal is lost with it;
the same launch with its journal beside the world leaves it there after every step. Main statement: the
samples of every launch rise below the ceiling of its tracker, and it says that all is complete exactly if
it ends with an outcome that has succeeded.
-/
namespace Wavefront

variable {m : Type → Type} [Monad m] {W : Type} [Stateful m W]

/-- A step of a launch that keeps its journal beside the world. -/
abbrev Noting (m : Type → Type) (α β : Type) : Type := Step (StateT (Journal α) m) LaunchFault β

def Journal.logged {α : Type} (j : Journal α) (lines : List String) : Journal α :=
  { j with lines := j.lines ++ lines }

namespace Launch

section Noting

variable {α : Type}

/-- Ends a run whose jobs have all succeeded; it says so once all jobs have been asked for what they
report. -/
def noteSucceed (l : Launch m α) (journal : Journal α) : Noting m α (Outcome α) := do
  (ofSource l.source.cleanup).widen
  let records ← (journal.successful.mapM l.withStats).widen
  set (journal.logged ["100% complete", "Success!"])
  return journal.success l.group records

/-- Ends a run of which some jobs have failed; it says so before these jobs are asked for what they
report, and says what they say after that. -/
def noteFail (l : Launch m α) (journal : Journal α) (failed : List JobRecord) :
    Noting m α (Outcome α) := do
  (ofCluster l.cluster.stop).widen
  (ofSource l.source.cleanup).widen
  set (journal.logged ["Map reduce job failed"])
  let records ← (failed.mapM l.withStats).widen
  set (journal.logged ("Map reduce job failed" :: records.map JobRecord.failureLine))
  return journal.failure l.group records

variable [ProgressNumber α]

def notePoll (l : Launch m α) (wave : Wave) : Nat → Journal α → Noting m α (Journal α)
  | 0, _ => throw .unfinished
  | looks + 1, journal => do
    let finished ← (ofCluster l.cluster.allFinished).widen
    let readings ← Step.widen
      (wave.jobs.mapM fun job => (l.cluster.progress job.id : m α) : Step m LaunchFault (List α))
    set (journal.observe readings)
    if finished then return journal.observe readings
    else do
      Step.widen (l.pause : Step m LaunchFault Unit)
      notePoll l wave looks (journal.observe readings)

/-- Takes a wave from submission to commit, and notes what the journal gets. -/
def noteWave (l : Launch m α) (wave : Wave) (journal : Journal α) :
    Noting m α (Journal α × List JobRecord) := do
  (ofCluster (l.cluster.submit wave)).widen
  set (journal.submitted wave)
  let journal ← l.notePoll wave l.limits.polls (journal.submitted wave)
  let records ← Step.widen
    (wave.jobs.mapM fun job => (l.record job : m JobRecord) : Step m LaunchFault (List JobRecord))
  let (successful, failed) := records.partition fun r => r.status == .succeeded
  (ofSource (l.source.commit wave (successful.map JobRecord.job))).widen
  set (journal.finished wave successful)
  return (journal.finished wave successful, failed)

/-- Takes wave after wave, at most so many. -/
def noteWaves (l : Launch m α) : Nat → Journal α → Noting m α (Outcome α)
  | 0, _ => throw .unfinished
  | waves + 1, journal => do
    match ← (ofSource (l.source.next l.graph l.group)).widen with
    | none => l.noteSucceed journal
    | some wave =>
      let (journal, failed) ← l.noteWave wave journal
      if failed.isEmpty then noteWaves l waves journal else l.noteFail journal failed

/-- Runs all waves of the graph with the journal beside the world. -/
def noteRun (l : Launch m α) : Noting m α (Outcome α) :=
  l.noteWaves l.limits.waves (.start l.graph.nodes.length)

end Noting

end Launch

/-- What a journal beside the world is like when a step ends: it fits what the step answers, or else the
step has failed. -/
def Step.Leaves {S ε α : Type} (x : Step (StateT S m) ε α) (s : S) (answered : α → S → Prop)
    (failed : S → Prop) : Prop :=
  ∀ w, match x.act (s, w) with
    | (.ok a, (s', _)) => answered a s'
    | (.error _, (s', _)) => failed s'

namespace Step.Leaves

variable {S ε α β : Type} {s : S} {answered : α → S → Prop} {next : β → S → Prop} {failed : S → Prop}

theorem pure {a : α} (fits : answered a s) :
    Step.Leaves (pure a : Step (StateT S m) ε α) s answered failed := by
  intro w
  simpa only [Step.act_pure] using fits

theorem throw {e : ε} (fails : failed s) :
    Step.Leaves (throw e : Step (StateT S m) ε α) s answered failed := by
  intro w
  simpa only [Step.act_throw] using fails

theorem bind {x : Step (StateT S m) ε α} {f : α → Step (StateT S m) ε β}
    (first : Step.Leaves x s answered failed)
    (later : ∀ a s', answered a s' → Step.Leaves (f a) s' next failed) :
    Step.Leaves (x >>= f) s next failed := by
  intro w
  have ended := first w
  rw [Step.act_bind]
  generalize x.act (s, w) = result at ended
  rcases result with ⟨_ | a, s', w'⟩
  · exact ended
  · exact later a s' ended w'

theorem widen {x : Step m ε α} {f : α → Step (StateT S m) ε β} (fails : failed s)
    (later : ∀ a, Step.Leaves (f a) s next failed) : Step.Leaves (x.widen >>= f) s next failed := by
  intro w
  rw [Step.act_bind, Step.act_widen]
  rcases x.act w with ⟨_ | a, w'⟩
  · exact fails
  · exact later a w'

theorem set {s' : S} {f : PUnit → Step (StateT S m) ε β} (later : Step.Leaves (f ⟨⟩) s' next failed) :
    Step.Leaves (set s' >>= f) s next failed := by
  intro w
  rw [Step.act_bind, Step.act_set]
  exact later w

end Step.Leaves

namespace Step

variable {S ε α : Type}

theorem projects_widen (x : Step m ε α) : Step.Projects Prod.snd x (x.widen : Step (StateT S m) ε α) :=
  Wavefront.Projects.monadLift (ExceptT.run x)

theorem projects_set_bind {x : Step m ε α} {y : PUnit → Step (StateT S m) ε α} (s' : S)
    (same : Step.Projects Prod.snd x (y ⟨⟩)) : Step.Projects Prod.snd x (set s' >>= y) := by
  rintro ⟨s, w⟩
  rw [Step.act_bind, Step.act_set]
  exact same (s', w)

end Step

namespace Launch

section Projecting

variable {α : Type} (l : Launch m α)

theorem noteSucceed_projects (journal : Journal α) :
    Step.Projects Prod.snd (l.succeed journal) (l.noteSucceed journal) := by
  refine (Step.projects_widen _).bind fun _ => ?_
  exact (Step.projects_widen _).bind fun _ => Step.projects_set_bind _ (.pure _)

theorem noteFail_projects (journal : Journal α) (failed : List JobRecord) :
    Step.Projects Prod.snd (l.fail journal failed) (l.noteFail journal failed) := by
  refine (Step.projects_widen _).bind fun _ => ?_
  refine (Step.projects_widen _).bind fun _ => Step.projects_set_bind _ ?_
  exact (Step.projects_widen _).bind fun _ => Step.projects_set_bind _ (.pure _)

variable [ProgressNumber α]

theorem notePoll_projects (wave : Wave) (looks : Nat) (journal : Journal α) :
    Step.Projects Prod.snd (l.poll wave looks journal) (l.notePoll wave looks journal) := by
  induction looks generalizing journal with
  | zero => exact .throw _
  | succ looks ih =>
    refine (Step.projects_widen _).bind fun finished => ?_
    refine (Step.projects_widen _).bind fun readings => Step.projects_set_bind _ ?_
    cases finished with
    | true => exact .pure _
    | false => exact (Step.projects_widen _).bind fun _ => ih _

theorem noteWave_projects (wave : Wave) (journal : Journal α) :
    Step.Projects Prod.snd (l.runWave wave journal) (l.noteWave wave journal) := by
  refine (Step.projects_widen _).bind fun _ => Step.projects_set_bind _ ?_
  refine (l.notePoll_projects wave _ _).bind fun journal => ?_
  refine (Step.projects_widen _).bind fun records => ?_
  exact (Step.projects_widen _).bind fun _ => Step.projects_set_bind _ (.pure _)

theorem noteWaves_projects (waves : Nat) (journal : Journal α) :
    Step.Projects Prod.snd (l.runWaves waves journal) (l.noteWaves waves journal) := by
  induction waves generalizing journal with
  | zero => exact .throw _
  | succ waves ih =>
    refine (Step.projects_widen _).bind fun found => ?_
    cases found with
    | none => exact l.noteSucceed_projects journal
    | some wave =>
      refine (l.noteWave_projects wave journal).bind fun ended => ?_
      obtain ⟨journal, failed⟩ := ended
      dsimp only
      split
      · exact ih journal
      · exact l.noteFail_projects journal failed

/-- A journal beside the world changes neither the outcome of a launch nor its world. -/
theorem noteRun_projects : Step.Projects Prod.snd l.run l.noteRun := l.noteWaves_projects _ _

end Projecting

end Launch

/-- The samples of a journal rise, and stay below what all nodes but one come to. -/
structure Journal.Climbs (j : Journal Rat) (nodes : Nat) : Prop where
  ordered : j.samples.Pairwise (· ≤ ·)
  capped : ∀ sample ∈ j.samples, sample ≤ ((nodes : Rat) - 1) / nodes

/-- The journal of a launch that has not come to an outcome. -/
structure Journal.Sound (j : Journal Rat) (nodes : Nat) : Prop where
  tracked : ∃ mark, j.tracker.Sound nodes mark
  ordered : j.samples.Pairwise (· ≤ ·)
  reached : ∀ sample ∈ j.samples, sample ≤ j.tracker.value
  incomplete : nodes < 10 ^ 11 → "100% complete" ∉ j.lines

/-- The journal of a launch that has come to an outcome. -/
structure Journal.Tells (j : Journal Rat) (nodes : Nat) (outcome : Outcome Rat) : Prop where
  climbs : j.Climbs nodes
  samples : outcome.progress = j.samples
  lines : outcome.lines = j.lines
  complete : nodes < 10 ^ 11 → ("100% complete" ∈ j.lines ↔ outcome.succeeded = true)

/-- The journal that a launch leaves beside the world, whether or not it comes to an outcome. -/
def Launch.journal (l : Launch m Rat) (w : W) : Journal Rat :=
  (l.noteRun.act (Journal.start l.graph.nodes.length, w)).2.1

/-- What there is in the journal of a launch. -/
structure Launch.Logs (l : Launch m Rat) (w : W) : Prop where
  /-- Keeping the journal beside the world changes nothing else. -/
  shown : l.run.act w = ((l.noteRun.act (Journal.start l.graph.nodes.length, w)).1,
    (l.noteRun.act (Journal.start l.graph.nodes.length, w)).2.2)
  climbs : (l.journal w).Climbs l.graph.nodes.length
  outcome : ∀ outcome, (l.run.act w).1 = .ok outcome →
    outcome.progress = (l.journal w).samples ∧ outcome.lines = (l.journal w).lines
  complete : l.graph.nodes.length < 10 ^ 11 → ("100% complete" ∈ (l.journal w).lines ↔
    ∃ outcome, (l.run.act w).1 = .ok outcome ∧ outcome.succeeded = true)

theorem points_line_ne {points : Nat} (few : points ≤ 99) :
    toString points ++ "% complete" ≠ "100% complete" := by
  intro same
  have digits : toString points = toString 100 := by
    have whole : "100% complete" = toString 100 ++ "% complete" := by decide
    rw [whole] at same
    exact (String.append_left_inj _).mp same
  have points_eq := Text.toString_injective digits
  omega

theorem JobRecord.failureLine_ne (r : JobRecord) : r.failureLine ≠ "100% complete" := by
  intro same
  have bracket : '(' ∈ r.failureLine.toList := by simp [failureLine]
  rw [same] at bracket
  exact absurd bracket (by decide)

namespace Journal.Sound

variable {j : Journal Rat} {nodes : Nat}

theorem climbs (sound : j.Sound nodes) : j.Climbs nodes := by
  obtain ⟨mark, tracked⟩ := sound.tracked
  exact ⟨sound.ordered, fun sample member => le_trans (sound.reached sample member) tracked.capped⟩

theorem start (nodes : Nat) : (Journal.start nodes : Journal Rat).Sound nodes :=
  ⟨⟨0, Tracker.start_sound nodes⟩, .nil, by simp [Journal.start], by simp [Journal.start]⟩

theorem submitted (sound : j.Sound nodes) (wave : Wave) : (j.submitted wave).Sound nodes :=
  ⟨sound.tracked, sound.ordered, sound.reached, sound.incomplete⟩

theorem finished (sound : j.Sound nodes) (wave : Wave) (successful : List JobRecord) :
    (j.finished wave successful).Sound nodes := by
  obtain ⟨mark, tracked⟩ := sound.tracked
  exact ⟨⟨mark, tracked.waveFinished _⟩, sound.ordered, sound.reached, sound.incomplete⟩

/-- A look at a wave adds a sample that is not below those before it. -/
theorem observe (sound : j.Sound nodes) (readings : List Rat) : (j.observe readings).Sound nodes := by
  obtain ⟨mark, tracked⟩ := sound.tracked
  have told := tracked.told_update (waveDone readings)
  rw [Journal.observe]
  generalize j.tracker.update (waveDone readings) = answer at told
  have samples {t' : Tracker Rat} (rises : j.tracker.value ≤ t'.value) :
      (j.samples ++ [t'.value]).Pairwise (· ≤ ·) ∧ ∀ sample ∈ j.samples ++ [t'.value], sample ≤ t'.value := by
    have below : ∀ sample ∈ j.samples, sample ≤ t'.value := fun sample member =>
      le_trans (sound.reached sample member) rises
    constructor
    · exact List.pairwise_append.mpr ⟨sound.ordered, List.pairwise_singleton _ _, by simpa using below⟩
    · simpa [or_imp, forall_and] using below
  cases told with
  | quiet rises tracked' =>
    have rising := samples rises
    exact ⟨⟨mark, tracked'⟩, rising.1, rising.2, fun few => by simpa using sound.incomplete few⟩
  | @line points t' whole rises further tracked' =>
    have rising := samples rises
    refine ⟨⟨_, tracked'⟩, rising.1, rising.2, fun few member => ?_⟩
    have positive : 0 < t'.value := by linarith [tracked.nonneg]
    have points_le := points_le few positive tracked'.capped
    rcases List.mem_append.mp member with before | last
    · exact sound.incomplete few before
    · exact points_line_ne (whole ▸ points_le) (List.mem_singleton.mp last).symm

theorem logged (sound : j.Sound nodes) {lines : List String} (other : "100% complete" ∉ lines) :
    (j.logged lines).Sound nodes := by
  refine ⟨sound.tracked, sound.ordered, sound.reached, fun few member => ?_⟩
  exact (List.mem_append.mp member).elim (sound.incomplete few) other

theorem success_tells (sound : j.Sound nodes) (group : String) (successful : List JobRecord) :
    (j.logged ["100% complete", "Success!"]).Tells nodes (j.success group successful) :=
  ⟨⟨sound.climbs.ordered, sound.climbs.capped⟩, rfl, rfl,
    fun _ => iff_of_true (by simp [Journal.logged]) rfl⟩

theorem failure_tells (sound : j.Sound nodes) (group : String) (failed : List JobRecord) :
    (j.logged ("Map reduce job failed" :: failed.map JobRecord.failureLine)).Tells nodes
      (j.failure group failed) := by
  have other : "100% complete" ∉ "Map reduce job failed" :: failed.map JobRecord.failureLine := by
    rw [List.mem_cons, not_or]
    refine ⟨by decide, fun member => ?_⟩
    obtain ⟨r, _, line⟩ := List.mem_map.mp member
    exact r.failureLine_ne line
  have sound' := sound.logged other
  exact ⟨sound'.climbs, rfl, rfl, fun few => iff_of_false (sound'.incomplete few) (by simp [Journal.failure])⟩

end Journal.Sound

namespace Launch

variable {nodes : Nat} {journal : Journal Rat} (l : Launch m Rat)

/-- What a step of a launch leaves beside the world is the journal it answers with. -/
theorem notePoll_leaves (wave : Wave) (looks : Nat) (sound : journal.Sound nodes) :
    Step.Leaves (l.notePoll wave looks journal) journal (fun journal' s => s = journal' ∧ s.Sound nodes)
      (·.Sound nodes) := by
  induction looks generalizing journal with
  | zero => exact .throw sound
  | succ looks ih =>
    refine .widen sound fun finished => .widen sound fun readings => .set ?_
    have sound' := sound.observe readings
    cases finished with
    | true => exact .pure ⟨rfl, sound'⟩
    | false => exact .widen sound' fun _ => ih sound'

theorem noteWave_leaves (wave : Wave) (sound : journal.Sound nodes) :
    Step.Leaves (l.noteWave wave journal) journal (fun ended s => s = ended.1 ∧ s.Sound nodes)
      (·.Sound nodes) := by
  refine .widen sound fun _ => .set ?_
  refine (l.notePoll_leaves wave _ (sound.submitted wave)).bind fun journal s both => ?_
  obtain ⟨rfl, sound'⟩ := both
  refine .widen sound' fun records => .widen sound' fun _ => .set ?_
  exact .pure ⟨rfl, sound'.finished wave _⟩

theorem noteSucceed_leaves (sound : journal.Sound nodes) :
    Step.Leaves (l.noteSucceed journal) journal (fun outcome s => s.Tells nodes outcome)
      (·.Sound nodes) := by
  refine .widen sound fun _ => .widen sound fun records => .set ?_
  exact .pure (sound.success_tells l.group records)

theorem noteFail_leaves (failed : List JobRecord) (sound : journal.Sound nodes) :
    Step.Leaves (l.noteFail journal failed) journal (fun outcome s => s.Tells nodes outcome)
      (·.Sound nodes) := by
  refine .widen sound fun _ => .widen sound fun _ => .set ?_
  -- The first line stays where the reports of the failed jobs cannot be had.
  have sound' : (journal.logged ["Map reduce job failed"]).Sound nodes := sound.logged (by decide)
  refine .widen sound' fun records => .set ?_
  exact .pure (sound.failure_tells l.group records)

theorem noteWaves_leaves (waves : Nat) (sound : journal.Sound nodes) :
    Step.Leaves (l.noteWaves waves journal) journal (fun outcome s => s.Tells nodes outcome)
      (·.Sound nodes) := by
  induction waves generalizing journal with
  | zero => exact .throw sound
  | succ waves ih =>
    refine .widen sound fun found => ?_
    cases found with
    | none => exact l.noteSucceed_leaves sound
    | some wave =>
      refine (l.noteWave_leaves wave sound).bind fun ended s both => ?_
      obtain ⟨journal, failed⟩ := ended
      obtain ⟨rfl, sound'⟩ := both
      dsimp only
      split
      · exact ih sound'
      · exact l.noteFail_leaves failed sound'

theorem logs (w : W) : l.Logs w := by
  have shown := l.noteRun_projects (.start l.graph.nodes.length, w)
  have left := l.noteWaves_leaves l.limits.waves (Journal.Sound.start l.graph.nodes.length) w
  rw [← noteRun] at left
  suffices ends : (l.journal w).Climbs l.graph.nodes.length ∧
      (∀ outcome, (l.run.act w).1 = .ok outcome → (l.journal w).Tells l.graph.nodes.length outcome) ∧
      ∀ fault, (l.run.act w).1 = .error fault → (l.journal w).Sound l.graph.nodes.length by
    obtain ⟨climbs, tells, sound⟩ := ends
    refine ⟨shown, climbs, fun outcome is => ⟨(tells outcome is).samples, (tells outcome is).lines⟩,
      fun few => ?_⟩
    cases ended : (l.run.act w).1 with
    | ok outcome => simpa using (tells outcome ended).complete few
    | error fault => simpa using (sound fault ended).incomplete few
  rw [journal, shown]
  generalize l.noteRun.act (Journal.start l.graph.nodes.length, w) = result at left
  obtain ⟨answer, journal, w'⟩ := result
  cases answer with
  | ok outcome =>
    refine ⟨left.climbs, ?_, nofun⟩
    rintro _ ⟨⟩
    exact left
  | error fault => exact ⟨left.climbs, nofun, fun _ _ => left⟩

/-- Progress is what a tracker answers, over any calls and over every launch, whatever the launch meets:
it rises in whole points, and it is complete exactly if the launch ends with an outcome that has
succeeded. -/
theorem progress_logged (l : Launch m Rat) (w : W) :
    (∀ total, 0 < total → total < 10 ^ 11 → Tracker.Tracks total) ∧ l.Logs w :=
  ⟨fun _ => Tracker.tracks, l.logs w⟩

/-- Two nodes in a row, on a cluster that refuses the wave of the second. -/
def halved : Launch (StateT Schedule (StateM Nat)) Rat := (Site.admitting 1).launch .standard .pair "run"

/-- The launch has no outcome, and that half of it is done has been logged. -/
theorem progress_logged_halved :
    ((halved.run.act (.start, 0)).1.map fun _ => ()) = .error (.cluster (.other "no wave 1")) ∧
    (halved.journal (.start, 0)).samples = [1 / 2] ∧
    (halved.journal (.start, 0)).lines = ["50% complete"] ∧
    (0 < 2 ∧ 2 < 10 ^ 11 ∧ Tracker.Tracks 2) ∧ halved.Logs (.start, 0) := by
  obtain ⟨tracks, logs⟩ := halved.progress_logged (.start, 0)
  have few : 2 < 10 ^ 11 := by decide
  exact ⟨by decide +kernel, by decide +kernel, by decide +kernel,
    ⟨Nat.two_pos, few, tracks 2 Nat.two_pos few⟩, logs⟩

end Launch

end Wavefront
