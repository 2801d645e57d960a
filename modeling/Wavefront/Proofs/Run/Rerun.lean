import Wavefront.Proofs.Run.Foresight
import Wavefront.Proofs.Run.Layout
set_option autoImplicit false

/-!
Launching a plan again. A launch that stages its outputs leaves nothing in staging and nothing temporary,
and of its stores it leaves exactly those in place whose jobs have succeeded. Main statement: after a
launch that has put no store in place, a launch of the same plan on a cluster where nothing fails
delivers all of it; after a launch that has, it is refused, since final outputs are never replaced.
-/
namespace Wavefront

namespace Simulation

/-- A cluster that leaves markers, with the scripts of some nodes, on which nothing has run. -/
def marking (standard : JobScript) (scripts : List (Nat × JobScript)) : Simulation :=
  { scripted standard scripts with marks := true }

theorem marking_unused (standard : JobScript) (scripts : List (Nat × JobScript)) :
    (marking standard scripts).running? = none ∧ (marking standard scripts).submissions = [] ∧
      (marking standard scripts).marks = true := by
  obtain ⟨settled, unused, _⟩ := scripted_unused standard scripts
  exact ⟨settled, unused, rfl⟩

end Simulation

/-- Whether the job of a node is among those that have succeeded. -/
def Outcome.hasRun {α : Type} (o : Outcome α) (n : Node) : Bool :=
  (o.successful.map JobRecord.nodes).contains [n.id]

theorem Schedule.inPlace_start (old : Node → Bool) (n : Node) :
    Schedule.start.inPlace old n = n.isTaken old := by
  rw [inPlace, Node.isTaken]
  cases n.output.isTemporary <;> simp [start, SortedSet.contains, SortedSet.empty]

section Launches

variable {m : Type → Type} {W α : Type} {c : RunConfig} {g : Graph} {group : String} {t : FileTree}

/-- What is in place after a launch: the final outputs of the jobs that have succeeded. -/
theorem Launch.Concluded.stocked {l : Launch (StateT Schedule (StateT Simulation (StateT FileTree m))) α}
    {start final : Simulation} {outcome : Outcome α} {s : Schedule} {w : FileTree × W}
    (concluded : Concluded (.stocked c g group fun _ => false) c l start outcome s final w) :
    g.Stocked c group (fun _ => false) (·.isTaken outcome.hasRun) w.1 := by
  refine concluded.rests.stocked.congr (fun _ _ => rfl) fun n _ => ?_
  rw [Node.isTaken, Schedule.inPlace, concluded.forgotten]
  have completed : s.completed.contains n.id = outcome.hasRun n := by
    rw [Bool.eq_iff_iff, Outcome.hasRun, SortedSet.contains, List.contains_iff_mem, List.contains_iff_mem]
    exact concluded.agrees n.id
  cases n.output.isTemporary <;> simp [completed]

variable [Monad m] [LawfulMonad m] [Stateful m W] [ProgressNumber α]

variable (built : g.Built) (spread : g.Spread c group) (materializes : g.Materializes c)
  (limits : Limits) (pause : m Unit) (standard : JobScript) (scripts : List (Nat × JobScript))
  (waves : g.nodes.length < limits.waves)
  (polls : ∀ n ∈ g.nodes, ((Simulation.marking standard scripts).nodeScript n).duration ≤ limits.polls)
  (w : W)

include built spread materializes waves polls

/-- Where no output is in place yet a launch ends as foreseen, and the final outputs of the jobs that have
succeeded are in place. -/
theorem Site.staging_foreseen (stocked : g.Stocked c group (fun _ => false) (fun _ => false) t) :
    ∃ outcome s final t' w',
      ((Site.staging limits pause : Site (StateT Simulation (StateT FileTree m)) α).launch c g group).run.act
          (.start, (.marking standard scripts, (t, w))) = (.ok outcome, (s, (final, (t', w')))) ∧
        Foreseen c g group (.marking standard scripts) outcome final ∧
        g.Stocked c group (fun _ => false) (·.isTaken outcome.hasRun) t' := by
  obtain ⟨settled, unused, marks⟩ := Simulation.marking_unused standard scripts
  have idle : ∀ n : Node, n.isTaken (fun _ => false) = false := fun n => Bool.and_false _
  have rests : Rests c g group (fun _ => false) .start t :=
    ⟨stocked.congr (fun _ _ => rfl) fun n _ => (Schedule.inPlace_start _ n).trans (idle n), nofun⟩
  obtain ⟨outcome, s, final, w', ran, concluded⟩ :=
    (Site.staging_simulates (α := α) built spread limits pause fun _ => false).concluded built
      materializes polls marks settled unused (fun _ _ _ n _ _ => idle n) waves (w := (t, w)) rests
  exact ⟨outcome, s, final, w'.1, w'.2, ran, concluded.foreseen, concluded.stocked⟩

/-- Where nothing fails, but the output of some store is in place already, a launch is refused. -/
theorem Site.staging_refused {old : Node → Bool}
    (stocked : g.Stocked c group (fun _ => false) (·.isTaken old) t)
    (whole : ∀ n ∈ g.nodes, (Simulation.marking standard scripts).fails n = false)
    (taken : ∃ n ∈ g.nodes, n.isTaken old = true) :
    ∃ fault after, g.Blocks group old fault ∧
      ((Site.staging limits pause : Site (StateT Simulation (StateT FileTree m)) α).launch c g group).run.act
          (.start, (.marking standard scripts, (t, w))) = (.error (.error fault), after) := by
  obtain ⟨settled, unused, marks⟩ := Simulation.marking_unused standard scripts
  have rests : Rests c g group old .start t :=
    ⟨stocked.congr (fun _ _ => rfl) fun n _ => Schedule.inPlace_start _ n, nofun⟩
  -- The launch goes up to the lowest level with such a store.
  obtain ⟨level, lowest⟩ : ∃ level, g.lowest? (·.isTaken old) = some level := by
    refine Option.ne_none_iff_exists'.mp fun none => ?_
    obtain ⟨n, member, is⟩ := taken
    rw [Graph.lowest?_eq_none.mp none n member] at is
    cases is
  obtain ⟨⟨n, stage, is⟩, least⟩ := Graph.lowest?_eq_some.mp lowest
  obtain ⟨inside, height⟩ := Graph.mem_stage.mp stage
  have admitted : ∀ k < level, ∀ job ∈ (g.wave c group k).jobs, ∀ other ∈ g.nodes,
      job.nodes = [other.id] → other.isTaken old = false := by
    intro k lower job member other among nodes
    obtain ⟨node, there, made⟩ := Graph.exists_node_of_mem_jobs member
    obtain ⟨within, rfl⟩ := Graph.mem_stage.mp there
    obtain rfl : other = node := by
      rw [made] at nodes
      exact built.eq_of_id among within (List.singleton_inj.mp nodes).symm
    rw [Bool.eq_false_iff]
    exact fun is => Nat.not_le.mpr lower (least other among is)
  refine (Site.staging_simulates built spread limits pause old).refused built materializes polls marks
    settled unused (height ▸ Graph.level_lt_height inside) admitted (fun n member _ => whole n member)
    waves (w := (t, w)) rests ?_
  rintro wave succeeded s sim ⟨t, w⟩ jobs fresh ⟨stocked, kept, underway, pending⟩ succeeds
  have loaded := underway.loaded stocked kept pending
    (fun job member => iff_of_true (succeeds job member).1 (succeeds job member).2) wave.seq
  have here : [n.id] ∈ wave.jobs.map Job.nodes := by
    rw [jobs]
    show [n.id] ∈ (g.jobs c group _ _).map Job.nodes
    rw [Graph.map_nodes_jobs]
    exact List.mem_map_of_mem stage
  obtain ⟨job, member, nodes⟩ := List.mem_map.mp here
  obtain ⟨fault, after, blocks, ran⟩ := loaded.forM_commitJob_refused (m := m) built spread
    ⟨job, List.mem_filter.mpr ⟨member, (succeeds job member).1⟩, n, inside, nodes, is⟩ sim w
  exact ⟨fault, after, blocks, (Schedule.commit_act_of_fresh (sim, (t, w)) _ fresh succeeded).trans ran⟩

end Launches

/-- What a launch has left: of the stores those whose jobs have succeeded, and nothing else. -/
structure Graph.Left {α : Type} (g : Graph) (c : RunConfig) (group : String) (outcome : Outcome α)
    (t : FileTree) : Prop where
  stored : ∀ n ∈ g.nodes, n.output.isTemporary = false →
    (t.find n.output.location).isOk = outcome.hasRun n
  dropped : ∀ n ∈ g.nodes, n.output.isTemporary = true → t.Vacant n.outputPlace
  unstaged : ∀ n ∈ g.nodes, t.Vacant (n.stagingPlace c g group)

/-- All of a plan has been delivered: its jobs have succeeded, each store holds a marker, and nothing
temporary is left. -/
structure Plan.Delivered {α : Type} (p : Plan) (g : Graph) (outcome : Outcome α) (t : FileTree) :
    Prop where
  succeeded : outcome.succeeded = true
  marked : ∀ location ∈ p.storeLocations,
    t.get? (FileTree.place location ++ [Simulation.marker]) = some (.file "")
  dropped : ∀ n ∈ g.nodes, n.output.isTemporary = true → t.Vacant n.outputPlace

/-- How a plan is launched again in a tree that a launch of it has left, on a cluster where nothing
fails. -/
structure Plan.Relaunched {α : Type} (p : Plan) (g : Graph) (before : FileTree)
    (answer : Except LaunchFault (Outcome α)) (after : FileTree) : Prop where
  /-- If no store is in place, all is delivered. -/
  delivered : (∀ location ∈ p.storeLocations, (before.find location).isOk = false) →
    ∃ outcome, answer = .ok outcome ∧ p.Delivered g outcome after
  /-- If one is, the launch is refused. -/
  refused : (∃ location ∈ p.storeLocations, (before.find location).isOk = true) →
    ∃ location ∈ p.storeLocations, (before.find location).isOk = true ∧
      ∃ job, answer = .error (.error (.commit job (.destinationExists location)))

/-- The launch of a graph on a simulated cluster that stages what it runs, beside a tree of files and
nothing else. -/
def Graph.staged (g : Graph) (config : RunConfig) (group : String) :
    Step (StateT Schedule (StateT Simulation (StateT FileTree (StateM Unit)))) LaunchFault (Outcome Rat) :=
  ((Site.staging (CommandLine.simulationLimits g) (pure ())).launch config g group).run

section Compiled

variable {α : Type} {p : Plan} {config : RunConfig} {g : Graph} {group : String} {t : FileTree}
  {outcome : Outcome α}

theorem Graph.Stocked.left (spread : g.Spread config group)
    (stocked : g.Stocked config group (fun _ => false) (·.isTaken outcome.hasRun) t) :
    g.Left config group outcome t where
  stored n member final := (stocked.isOk_find spread member).trans (Node.isTaken_of_final final)
  dropped n member temporary := by
    have holds : t.Holds n.outputPlace (n.isTaken outcome.hasRun) := (stocked n member).2
    rw [Node.isTaken_of_temporary temporary] at holds
    exact holds.vacant
  unstaged n member := (stocked n member).1.vacant

/-- A store is there exactly if its node is among those whose output would have to be replaced. -/
theorem Plan.isOk_find_store (compiled : p.compile config = .ok g) (spread : g.Spread config group)
    {old : Node → Bool} (stocked : g.Stocked config group (fun _ => false) (·.isTaken old) t) :
    (∃ location ∈ p.storeLocations, (t.find location).isOk = true) ↔
      ∃ n ∈ g.nodes, n.isTaken old = true := by
  constructor
  · rintro ⟨location, store, there⟩
    obtain ⟨n, member, final, rfl⟩ := (mem_storeLocations compiled).mp store
    exact ⟨n, member, (stocked.isOk_find spread member).symm.trans there⟩
  · rintro ⟨n, member, taken⟩
    have final := (Node.final_of_isTaken taken).1
    exact ⟨n.output.location, (mem_storeLocations compiled).mpr ⟨n, member, final, rfl⟩,
      (stocked.isOk_find spread member).trans taken⟩

/-- A launch that succeeds delivers all of its plan. -/
theorem Plan.delivered_of_stocked {start final : Simulation} (compiled : p.compile config = .ok g)
    (spread : g.Spread config group) (foreseen : Foreseen config g group start outcome final)
    (whole : ∀ n ∈ g.nodes, start.fails n = false)
    (stocked : g.Stocked config group (fun _ => false) (·.isTaken outcome.hasRun) t) :
    p.Delivered g outcome t where
  succeeded := foreseen.succeeded.mpr whole
  marked location store := by
    obtain ⟨n, member, final, rfl⟩ := (mem_storeLocations compiled).mp store
    have run : outcome.hasRun n = true := by
      rw [Outcome.hasRun, List.contains_iff_mem, foreseen.successful_nodes, Graph.reach,
        Graph.lowest?_eq_none.mpr whole]
      refine List.mem_map.mpr ⟨n, List.mem_filter.mpr ⟨?_, by rw [whole n member]; rfl⟩, rfl⟩
      exact Graph.mem_below.mpr ⟨member, Graph.level_lt_height member⟩
    have holds : t.Holds n.outputPlace (n.isTaken outcome.hasRun) := (stocked n member).2
    rw [Node.isTaken_of_final final, run] at holds
    exact holds.marked
  dropped := (stocked.left spread).dropped

theorem Graph.Left.isOk_find_eq_false (left : g.Left config group outcome t)
    (compiled : p.compile config = .ok g) (idle : outcome.successful.map JobRecord.nodes = []) :
    ∀ location ∈ p.storeLocations, (t.find location).isOk = false := by
  intro location store
  obtain ⟨n, member, final, rfl⟩ := (Plan.mem_storeLocations compiled).mp store
  rw [left.stored n member final, Outcome.hasRun, idle]
  rfl

variable {m : Type → Type} [Monad m] [LawfulMonad m] {W : Type} [Stateful m W] [ProgressNumber α]

/-- On a cluster where nothing fails a launch delivers its plan or is refused, as what is in place has
it. -/
theorem Plan.relaunched_of_stocked (compiled : p.compile config = .ok g)
    (spread : g.Spread config group) (materializes : g.Materializes config) (limits : Limits)
    (pause : m Unit) (waves : g.nodes.length < limits.waves) (standard : JobScript)
    (scripts : List (Nat × JobScript))
    (polls : ∀ n ∈ g.nodes, ((Simulation.marking standard scripts).nodeScript n).duration ≤ limits.polls)
    (whole : ∀ n ∈ g.nodes, (Simulation.marking standard scripts).fails n = false)
    {old : Node → Bool} (stocked : g.Stocked config group (fun _ => false) (·.isTaken old) t) (w : W) :
    let again := ((Site.staging limits pause : Site (StateT Simulation (StateT FileTree m)) α).launch
      config g group).run.act (.start, (.marking standard scripts, (t, w)))
    p.Relaunched g t again.1 again.2.2.2.1 := by
  refine ⟨fun free => ?_, fun there => ?_⟩
  · have bare : g.Stocked config group (fun _ => false) (fun _ => false) t := by
      refine stocked.congr (fun _ _ => rfl) fun n member => ?_
      refine (Bool.eq_false_iff.mpr fun taken => ?_).symm
      obtain ⟨location, store, there⟩ := (isOk_find_store compiled spread stocked).mpr ⟨n, member, taken⟩
      rw [free location store] at there
      cases there
    obtain ⟨outcome, s, final, t', w', ran, foreseen, stocked'⟩ :=
      Site.staging_foreseen (α := α) (built_of_compile compiled) spread materializes limits pause standard
        scripts waves polls w bare
    refine ⟨outcome, congrArg Prod.fst ran, ?_⟩
    rw [ran]
    exact delivered_of_stocked compiled spread foreseen whole stocked'
  · obtain ⟨fault, after, ⟨n, member, taken, rfl⟩, ran⟩ :=
      Site.staging_refused (α := α) (built_of_compile compiled) spread materializes limits pause standard
        scripts waves polls w stocked whole ((isOk_find_store compiled spread stocked).mp there)
    have final := (Node.final_of_isTaken taken).1
    exact ⟨n.output.location, (mem_storeLocations compiled).mpr ⟨n, member, final, rfl⟩,
      (stocked.isOk_find spread member).trans taken, _, congrArg Prod.fst ran⟩

theorem Plan.LaidOut.materializes (laidOut : p.LaidOut config g group)
    (compiled : p.compile config = .ok g)
    (loads : ∀ op ∈ p.ops, ∀ schema, op.kind ≠ .load "" schema) : g.Materializes config :=
  materializes_of_compile compiled
    (fun n member empty => (laidOut.output n member).last (by rw [empty]; rfl)) loads

/-- A plan can be launched again on a cluster where nothing fails, unless the first launch has put a
store in place. -/
theorem Plan.relaunched (compiled : p.compile config = .ok g) (laidOut : p.LaidOut config g group)
    (loads : ∀ op ∈ p.ops, ∀ schema, op.kind ≠ .load "" schema) (clear : p.Clear config t)
    (limits : Limits) (pause : m Unit) (waves : g.nodes.length < limits.waves)
    (standard standard' : JobScript) (scripts scripts' : List (Nat × JobScript))
    (polls : ∀ n ∈ g.nodes, ((Simulation.marking standard scripts).nodeScript n).duration ≤ limits.polls)
    (polls' : ∀ n ∈ g.nodes,
      ((Simulation.marking standard' scripts').nodeScript n).duration ≤ limits.polls)
    (whole : ∀ n ∈ g.nodes, (Simulation.marking standard' scripts').fails n = false) (w : W) :
    let launch := ((Site.staging limits pause : Site (StateT Simulation (StateT FileTree m)) α).launch
      config g group).run
    ∃ outcome s final t' w',
      launch.act (.start, (.marking standard scripts, (t, w))) = (.ok outcome, (s, (final, (t', w')))) ∧
      Foreseen config g group (.marking standard scripts) outcome final ∧
      g.Left config group outcome t' ∧
      let again := launch.act (.start, (.marking standard' scripts', (t', w')))
      p.Relaunched g t' again.1 again.2.2.2.1 := by
  intro launch
  have built := built_of_compile compiled
  have spread := laidOut.spread compiled
  have materializes := laidOut.materializes compiled loads
  obtain ⟨outcome, s, final, t', w', ran, foreseen, stocked⟩ :=
    Site.staging_foreseen (α := α) built spread materializes limits pause standard scripts waves polls w
      (clear.stocked compiled laidOut)
  exact ⟨outcome, s, final, t', w', ran, foreseen, stocked.left spread,
    relaunched_of_stocked compiled spread materializes limits pause waves standard' scripts' polls' whole
      stocked w'⟩

end Compiled

/-- The node that both stores read fails, so there is nothing in the way of a second launch. -/
theorem Plan.relaunched_visitCounts : ∃ (g : Graph) (outcome : Outcome Rat) (s : Schedule)
    (final : Simulation) (t : FileTree), visitCounts.compile .standard = .ok g ∧
      (g.staged .standard "run").act (.start, (.marking .standard [(0, .failing "lost")], (.empty, ()))) =
        (.ok outcome, (s, (final, (t, ())))) ∧ outcome.succeeded = false ∧
      let again := (g.staged .standard "run").act (.start, (.marking .standard [], (t, ())))
      ∃ outcome', again.1 = .ok outcome' ∧ visitCounts.Delivered g outcome' again.2.2.2.1 := by
  let start := Simulation.marking .standard [(0, .failing "lost")]
  obtain ⟨g, compiled, three, lowest, saved⟩ : ∃ g, visitCounts.compile .standard = .ok g ∧
      g.nodes.length = 3 ∧ g.lowest? start.fails = some 0 ∧
      ((g.below (g.reach start.fails)).filter fun n => !start.fails n).map (fun n => [n.id]) = [] :=
    ⟨_, rfl, rfl, by decide +kernel, by decide +kernel⟩
  have laidOut : visitCounts.LaidOut .standard g "run" := by
    refine .of_names compiled (by decide +kernel) ?_ (by decide +kernel) (by decide +kernel)
      (by decide +kernel)
    rw [three]
    decide +kernel
  have loads : ∀ op ∈ visitCounts.ops, ∀ schema, op.kind ≠ .load "" schema := by simp [visitCounts]
  obtain ⟨outcome, s, final, t, w, ran, foreseen, left, again⟩ := relaunched (α := Rat) compiled laidOut
    loads (.empty _ _) (CommandLine.simulationLimits g) (pure () : StateM Unit Unit) (Nat.lt_succ_self _)
    .standard .standard [(0, .failing "lost")] [] (fun n _ => CommandLine.duration_le_polls g _)
    (fun n _ => CommandLine.duration_le_polls g _) (fun n _ => rfl) ()
  refine ⟨g, outcome, s, final, t, compiled, ran, ?_, again.delivered ?_⟩
  · obtain ⟨n, stage, fails⟩ := (Graph.lowest?_eq_some.mp lowest).1
    refine Bool.eq_false_iff.mpr fun succeeded => ?_
    rw [foreseen.succeeded.mp succeeded n (Graph.mem_stage.mp stage).1] at fails
    cases fails
  · exact left.isOk_find_eq_false compiled (foreseen.successful_nodes.trans saved)

/-- The run configuration whose temporary directory is beside the stores. -/
def RunConfig.inTmp : RunConfig := { RunConfig.standard with tempDir := "tmp" }

/-- Two files that are copied, each on its own. -/
def Plan.twoCopies : Plan := ⟨[
  ⟨0, .load "a" none, []⟩,
  ⟨1, .store "out/a" "csv", [0]⟩,
  ⟨2, .load "b" none, []⟩,
  ⟨3, .store "out/b" "csv", [2]⟩]⟩

/-- Where one copy fails the other one is in place, and a second launch is refused. -/
theorem Plan.twoCopies_refused : ∃ (g : Graph) (outcome : Outcome Rat) (s : Schedule)
    (final : Simulation) (t : FileTree), twoCopies.compile .inTmp = .ok g ∧
      twoCopies.LaidOut .inTmp g "g" ∧ twoCopies.Clear .inTmp .empty ∧
      (g.staged .inTmp "g").act (.start, (.marking .standard [(1, .failing "lost")], (.empty, ()))) =
        (.ok outcome, (s, (final, (t, ())))) ∧ outcome.succeeded = false ∧
      ∃ job location, ((g.staged .inTmp "g").act (.start, (.marking .standard [], (t, ())))).1 =
        .error (.error (.commit job (.destinationExists location))) := by
  let start := Simulation.marking .standard [(1, .failing "lost")]
  obtain ⟨g, compiled, two, lowest, saved, first⟩ : ∃ g, twoCopies.compile .inTmp = .ok g ∧
      g.nodes.length = 2 ∧ g.lowest? start.fails = some 0 ∧
      ((g.below (g.reach start.fails)).filter fun n => !start.fails n).map (fun n => [n.id]) = [[0]] ∧
      g.nodes.any (fun n => n.id == 0 && !n.output.isTemporary) = true :=
    ⟨_, rfl, rfl, by decide +kernel, by decide +kernel, by decide +kernel⟩
  have laidOut : twoCopies.LaidOut .inTmp g "g" := by
    refine .of_names compiled (by decide +kernel) ?_ (by decide +kernel) (by decide +kernel)
      (by decide +kernel)
    rw [two]
    decide +kernel
  have spread := laidOut.spread compiled
  have materializes := laidOut.materializes compiled (by simp [twoCopies])
  have clear := Plan.Clear.empty twoCopies .inTmp
  obtain ⟨outcome, s, final, t, w, ran, foreseen, stocked⟩ :=
    Site.staging_foreseen (α := Rat) (built_of_compile compiled) spread materializes
      (CommandLine.simulationLimits g) (pure () : StateM Unit Unit) .standard [(1, .failing "lost")]
      (Nat.lt_succ_self _) (fun n _ => CommandLine.duration_le_polls g _) ()
      (clear.stocked compiled laidOut)
  have again := relaunched_of_stocked (α := Rat) compiled spread materializes
    (CommandLine.simulationLimits g) (pure () : StateM Unit Unit) (Nat.lt_succ_self _) .standard []
    (fun n _ => CommandLine.duration_le_polls g _) (fun n _ => rfl) stocked ()
  obtain ⟨n, member, own⟩ := List.any_eq_true.mp first
  rw [Bool.and_eq_true, beq_iff_eq, Bool.not_eq_true'] at own
  have taken : n.isTaken outcome.hasRun = true := by
    rw [Node.isTaken_of_final own.2, Outcome.hasRun, foreseen.successful_nodes, saved, own.1]
    rfl
  obtain ⟨location, _, _, job, refused⟩ :=
    again.refused ((isOk_find_store compiled spread stocked).mpr ⟨n, member, taken⟩)
  refine ⟨g, outcome, s, final, t, compiled, laidOut, clear, ran, ?_, job, location, refused⟩
  obtain ⟨n, stage, fails⟩ := (Graph.lowest?_eq_some.mp lowest).1
  refine Bool.eq_false_iff.mpr fun succeeded => ?_
  rw [foreseen.succeeded.mp succeeded n (Graph.mem_stage.mp stage).1] at fails
  cases fails

end Wavefront
