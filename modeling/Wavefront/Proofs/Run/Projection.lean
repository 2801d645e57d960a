import Wavefront.Proofs.Run.Events
set_option autoImplicit false

/-!
Launches in worlds of which another shows a part. If every call of one launch answers as the same call
of another does, and does to the part what the other does to the whole, then so do the launches. Main
statement: writing events down changes neither the outcome of a launch nor its world.
-/
namespace Wavefront

variable {m n : Type → Type} [Monad m] [Monad n] {V W : Type} [Stateful m V] [Stateful n W]
  {ε δ α β : Type}

/-- A step does to the part of the world that is seen what another does to the whole. -/
def Projects (part : W → V) (x : m α) (y : n α) : Prop :=
  ∀ w, Stateful.act x (part w) = ((Stateful.act y w).1, part (Stateful.act y w).2)

/-- The same for steps that may fail. -/
def Step.Projects (part : W → V) (x : Step m ε α) (y : Step n ε α) : Prop :=
  ∀ w, x.act (part w) = ((y.act w).1, part (y.act w).2)

variable {part : W → V}

theorem Projects.pure (a : α) : Projects part (pure a : m α) (pure a : n α) := by
  intro w
  simp only [Stateful.act_pure]

theorem Projects.bind {x : m α} {y : n α} {f : α → m β} {g : α → n β} (first : Projects part x y)
    (next : ∀ a, Projects part (f a) (g a)) : Projects part (x >>= f) (y >>= g) := by
  intro w
  simp only [Stateful.act_bind, first w, next _ _]

theorem Projects.monadLift {S : Type} (x : m α) :
    Projects Prod.snd x (MonadLift.monadLift x : StateT S m α) := by
  rintro ⟨s, w⟩
  simp only [act_monadLift]

theorem Projects.recording (event : α → Event) (x : m α) :
    Projects Prod.snd x (Wavefront.recording event x) := by
  rintro ⟨log, w⟩
  simp only [act_recording]

theorem Projects.beside {S : Type} {x : m α} {y : n α} (same : Projects part x y) :
    Projects (Prod.map id part) (MonadLift.monadLift x : StateT S m α)
      (MonadLift.monadLift y : StateT S n α) := by
  rintro ⟨s, w⟩
  simp only [Prod.map, id_eq, act_monadLift, same w]

namespace Step.Projects

theorem widen {S : Type} {x : Step m ε α} {y : Step n ε α} (same : Step.Projects part x y) :
    Step.Projects (Prod.map id part) (x.widen : Step (StateT S m) ε α)
      (y.widen : Step (StateT S n) ε α) :=
  Wavefront.Projects.beside same

theorem get {S : Type} : Step.Projects (Prod.map id part) (get : Step (StateT S m) ε S)
    (get : Step (StateT S n) ε S) := by
  rintro ⟨s, w⟩
  simp only [Prod.map, id_eq, Step.act_get]

theorem set {S : Type} (s' : S) : Step.Projects (Prod.map id part)
    (set s' : Step (StateT S m) ε PUnit) (set s' : Step (StateT S n) ε PUnit) := by
  rintro ⟨s, w⟩
  simp only [Prod.map, id_eq, Step.act_set]

theorem modify {S : Type} (f : S → S) : Step.Projects (Prod.map id part)
    (modify f : Step (StateT S m) ε PUnit) (modify f : Step (StateT S n) ε PUnit) := by
  rintro ⟨s, w⟩
  simp only [Prod.map, id_eq, Step.act_modify]

theorem ofExcept (r : Except ε α) :
    Step.Projects part (Step.ofExcept r : Step m ε α) (Step.ofExcept r : Step n ε α) := by
  intro w
  simp only [Step.act_ofExcept]

theorem recording (event : Except ε α → Event) (x : Step m ε α) :
    Step.Projects Prod.snd x (Step.recording event x) :=
  Wavefront.Projects.recording event (ExceptT.run x)

theorem pure (a : α) : Step.Projects part (pure a : Step m ε α) (pure a : Step n ε α) := by
  intro w
  simp only [Step.act_pure]

theorem throw (e : ε) : Step.Projects part (throw e : Step m ε α) (throw e : Step n ε α) := by
  intro w
  simp only [Step.act_throw]

theorem bind {x : Step m ε α} {y : Step n ε α} {f : α → Step m ε β} {g : α → Step n ε β}
    (first : Step.Projects part x y) (next : ∀ a, Step.Projects part (f a) (g a)) :
    Step.Projects part (x >>= f) (y >>= g) := by
  intro w
  rw [Step.act_bind, Step.act_bind, first w]
  rcases y.act w with ⟨_ | a, w'⟩
  · rfl
  · exact next a w'

theorem forM {f : α → Step m ε PUnit} {g : α → Step n ε PUnit}
    (each : ∀ a, Step.Projects part (f a) (g a)) (xs : List α) :
    Step.Projects part (xs.forM f) (xs.forM g) := by
  induction xs with
  | nil => exact pure PUnit.unit
  | cons x rest ih => exact (each x).bind fun _ => ih

variable [LawfulMonad m] [LawfulMonad n]

theorem liftM {x : m α} {y : n α} (same : Wavefront.Projects part x y) :
    Step.Projects part (liftM x : Step m ε α) (liftM y : Step n ε α) := by
  intro w
  simp only [Step.act_liftM, same w]

theorem adapt {x : Step m ε α} {y : Step n ε α} (rename : ε → δ) (same : Step.Projects part x y) :
    Step.Projects part (ExceptT.adapt rename x : Step m δ α) (ExceptT.adapt rename y) := by
  intro w
  simp only [Step.act_adapt, same w]

theorem mapM {f : α → Step m ε β} {g : α → Step n ε β}
    (each : ∀ a, Step.Projects part (f a) (g a)) (xs : List α) :
    Step.Projects part (xs.mapM f) (xs.mapM g) := by
  induction xs with
  | nil =>
    rw [List.mapM_nil, List.mapM_nil]
    exact pure []
  | cons x rest ih =>
    rw [List.mapM_cons, List.mapM_cons]
    exact (each x).bind fun y => ih.bind fun ys => pure (y :: ys)

end Step.Projects

namespace Launch

/-- The calls of a launch do to the part of the world that is seen what those of another do to the
whole. -/
structure Projects (part : W → V) (l : Launch m α) (k : Launch n α) : Prop where
  next : ∀ g group, Step.Projects part (l.source.next g group) (k.source.next g group)
  commit : ∀ wave succeeded,
    Step.Projects part (l.source.commit wave succeeded) (k.source.commit wave succeeded)
  cleanup : Step.Projects part l.source.cleanup k.source.cleanup
  submit : ∀ wave, Step.Projects part (l.cluster.submit wave) (k.cluster.submit wave)
  allFinished : Step.Projects part l.cluster.allFinished k.cluster.allFinished
  progress : ∀ job, Wavefront.Projects part (l.cluster.progress job) (k.cluster.progress job)
  status : ∀ job, Wavefront.Projects part (l.cluster.status job) (k.cluster.status job)
  message : ∀ job, Wavefront.Projects part (l.cluster.message job) (k.cluster.message job)
  stop : Step.Projects part l.cluster.stop k.cluster.stop
  stats : ∀ job, Step.Projects part (l.cluster.stats job) (k.cluster.stats job)
  pause : Wavefront.Projects part l.pause k.pause
  limits : l.limits = k.limits
  graph : l.graph = k.graph
  group : l.group = k.group

variable {l : Launch m α} {k : Launch n α}

/-- Writing events down leaves a launch as it is. -/
theorem recorded_projects (l : Launch m α) : Projects Prod.snd l l.recorded where
  next _ _ := .recording _ _
  commit _ _ := .recording _ _
  cleanup := .recording _ _
  submit _ := .recording _ _
  allFinished := .recording _ _
  progress _ := .monadLift _
  status _ := .recording _ _
  message _ := .recording _ _
  stop := .recording _ _
  stats _ := .recording _ _
  pause := .monadLift _
  limits := rfl
  graph := rfl
  group := rfl

theorem Projects.record (projects : Projects part l k) (job : Job) :
    Wavefront.Projects part (l.record job) (k.record job) := by
  refine (projects.status job.id).bind fun status => ?_
  cases status with
  | succeeded => exact .pure _
  | waiting | running | failed => exact (projects.message job.id).bind fun _ => .pure _

variable [LawfulMonad m] [LawfulMonad n]

theorem Projects.withStats (projects : Projects part l k) (r : JobRecord) :
    Step.Projects part (l.withStats r) (k.withStats r) :=
  ((projects.stats r.job).adapt _).bind fun _ => .pure _

theorem Projects.succeed (projects : Projects part l k) (journal : Journal α) :
    Step.Projects part (l.succeed journal) (k.succeed journal) := by
  rw [Launch.succeed, Launch.succeed, projects.group]
  refine (projects.cleanup.adapt _).bind fun _ => ?_
  exact (Step.Projects.mapM projects.withStats _).bind fun _ => .pure _

theorem Projects.fail (projects : Projects part l k) (journal : Journal α)
    (failed : List JobRecord) :
    Step.Projects part (l.fail journal failed) (k.fail journal failed) := by
  rw [Launch.fail, Launch.fail, projects.group]
  refine (projects.stop.adapt _).bind fun _ => ?_
  refine (projects.cleanup.adapt _).bind fun _ => ?_
  exact (Step.Projects.mapM projects.withStats _).bind fun _ => .pure _

variable [ProgressNumber α]

theorem Projects.poll (projects : Projects part l k) (wave : Wave) (looks : Nat)
    (journal : Journal α) :
    Step.Projects part (l.poll wave looks journal) (k.poll wave looks journal) := by
  induction looks generalizing journal with
  | zero => exact .throw _
  | succ looks ih =>
    refine (projects.allFinished.adapt _).bind fun finished => ?_
    refine (Step.Projects.mapM (fun job => .liftM (projects.progress job.id)) wave.jobs).bind
      fun readings => ?_
    cases finished with
    | true => exact .pure _
    | false => exact (Step.Projects.liftM projects.pause).bind fun _ => ih _

theorem Projects.runWave (projects : Projects part l k) (wave : Wave) (journal : Journal α) :
    Step.Projects part (l.runWave wave journal) (k.runWave wave journal) := by
  rw [Launch.runWave, Launch.runWave, projects.limits]
  refine ((projects.submit wave).adapt _).bind fun _ => ?_
  refine (projects.poll wave _ _).bind fun journal => ?_
  refine (Step.Projects.mapM (fun job => .liftM (projects.record job)) wave.jobs).bind
    fun records => ?_
  exact ((projects.commit wave _).adapt _).bind fun _ => .pure _

theorem Projects.runWaves (projects : Projects part l k) (waves : Nat) (journal : Journal α) :
    Step.Projects part (l.runWaves waves journal) (k.runWaves waves journal) := by
  induction waves generalizing journal with
  | zero => exact .throw _
  | succ waves ih =>
    rw [Launch.runWaves, Launch.runWaves, projects.graph, projects.group]
    refine ((projects.next _ _).adapt _).bind fun found => ?_
    cases found with
    | none => exact projects.succeed journal
    | some wave =>
      refine (projects.runWave wave journal).bind fun ended => ?_
      obtain ⟨journal, failed⟩ := ended
      dsimp only
      split
      · exact ih journal
      · exact projects.fail journal failed

theorem Projects.run (projects : Projects part l k) : Step.Projects part l.run k.run := by
  rw [Launch.run, Launch.run, projects.limits, projects.graph]
  exact projects.runWaves _ _

end Launch

end Wavefront
