import Wavefront.Proofs.Run.Simulated
import Wavefront.Proofs.Run.Stock
set_option autoImplicit false

/-!
Launches that stage outputs and commit them on a tree of files. Jobs that succeed on the simulated
cluster leave a marker in staging, committed outputs are moved where they belong, and temporary ones are
removed in the end. Main statement: where no output is in the way of another, only a final output that
was in place before the launch can keep a wave from being committed, and between two waves the tree holds
the outputs that the schedule knows of.
-/
namespace Wavefront

section Placing

variable {c : RunConfig} {g : Graph} {group : String} {old : Node → Bool} {s : Schedule}

/-- Whether the job of a node would have to replace a final output. -/
def Node.isTaken (n : Node) (old : Node → Bool) : Bool := !n.output.isTemporary && old n

theorem Node.isTaken_of_final {n : Node} (final : n.output.isTemporary = false) :
    n.isTaken old = old n := by
  rw [isTaken, final]
  rfl

theorem Node.isTaken_of_temporary {n : Node} (temporary : n.output.isTemporary = true) :
    n.isTaken old = false := by
  rw [isTaken, temporary]
  rfl

theorem Node.final_of_isTaken {n : Node} (taken : n.isTaken old = true) :
    n.output.isTemporary = false ∧ old n = true := by
  rwa [isTaken, Bool.and_eq_true, Bool.not_eq_true'] at taken

/-- Whether the output of a node is in place: a temporary one until it is dropped, a final one from the
commit of its job on, or since before the run. -/
def Schedule.inPlace (old : Node → Bool) (s : Schedule) (n : Node) : Bool :=
  if n.output.isTemporary then s.temporaries.any (·.nodes == [n.id])
  else old n || s.completed.contains n.id

/-- The temporary outputs that are kept are those of nodes that are complete. -/
def Schedule.Keeps (c : RunConfig) (g : Graph) (group : String) (s : Schedule) : Prop :=
  ∀ job ∈ s.temporaries, ∃ n ∈ g.nodes, job = n.job c g.scope group job.id ∧ n.id ∈ s.completed.toList

/-- Between two waves nothing is in staging. -/
structure Rests (c : RunConfig) (g : Graph) (group : String) (old : Node → Bool) (s : Schedule)
    (t : FileTree) : Prop where
  stocked : g.Stocked c group (fun _ => false) (s.inPlace old) t
  kept : s.Keeps c g group

namespace Schedule

/-- An output that is put in place is in place. -/
theorem inPlace_complete (built : g.Built) {n : Node} (member : n ∈ g.nodes) (id : Nat) {other : Node}
    (among : other ∈ g.nodes) : (s.complete (n.job c g.scope group id)).inPlace old other =
      Function.update (s.inPlace old) n true other := by
  have temporary : (n.job c g.scope group id).temporary = n.output.isTemporary := rfl
  have nodes : (n.job c g.scope group id).nodes = [n.id] := rfl
  by_cases same : other = n
  · subst same
    rw [Function.update_self, inPlace, complete, temporary, nodes]
    cases other.output.isTemporary <;> simp [nodes, SortedSet.contains, SortedSet.mem_insertAll]
  · have different : other.id ≠ n.id := fun ids => same (built.eq_of_id among member ids)
    have single : ([n.id] == [other.id]) = false := by simpa using different.symm
    rw [Function.update_of_ne same, inPlace, inPlace, complete, temporary, nodes]
    cases own : other.output.isTemporary with
    | true => cases n.output.isTemporary <;> simp [nodes, single]
    | false =>
      have unchanged : (s.completed.insertAll [n.id]).contains other.id = s.completed.contains other.id := by
        rw [Bool.eq_iff_iff]
        simp [SortedSet.contains, SortedSet.mem_insertAll, different]
      simp [unchanged]

/-- A node that is not complete has nothing in place, unless its output was there before. -/
theorem inPlace_of_pending (kept : s.Keeps c g group) {n : Node} (pending : n.id ∉ s.completed.toList) :
    s.inPlace old n = n.isTaken old := by
  rw [inPlace, Node.isTaken]
  cases n.output.isTemporary with
  | true =>
    have fresh : s.temporaries.any (·.nodes == [n.id]) = false := by
      refine List.any_eq_false.mpr fun job member own => ?_
      obtain ⟨other, _, is, complete⟩ := kept job member
      have ids : other.id = n.id := by
        rw [is] at own
        simpa [Node.job] using own
      exact pending (ids ▸ complete)
    simp [fresh]
  | false => simp [SortedSet.contains, pending]

theorem Keeps.complete (kept : s.Keeps c g group) {n : Node} (member : n ∈ g.nodes) (id : Nat) :
    (s.complete (n.job c g.scope group id)).Keeps c g group := by
  intro job there
  rw [Schedule.complete] at there
  have before (earlier : job ∈ s.temporaries) : ∃ other ∈ g.nodes,
      job = other.job c g.scope group job.id ∧
        other.id ∈ (s.complete (n.job c g.scope group id)).completed.toList := by
    obtain ⟨other, among, is, complete⟩ := kept job earlier
    exact ⟨other, among, is, SortedSet.mem_insertAll.mpr (.inr complete)⟩
  split at there
  · rcases List.mem_append.mp there with earlier | own
    · exact before earlier
    · obtain rfl := List.mem_singleton.mp own
      exact ⟨n, member, rfl, SortedSet.mem_insertAll.mpr (.inl List.mem_cons_self)⟩
  · exact before there

end Schedule

end Placing

section Ticks

variable {c : RunConfig} {g : Graph} {group : String} {wave : Wave} {sim : Simulation}
  {t : FileTree}

/-- Whether the output of a node is in staging while a wave runs: its job has succeeded. -/
def Simulation.staged (sim : Simulation) (wave : Wave) (n : Node) : Bool :=
  wave.jobs.any fun job => job.nodes == [n.id] && sim.status job.id == .succeeded

/-- The jobs of some nodes are on the cluster, as the last wave. -/
structure Underway (c : RunConfig) (g : Graph) (group : String) (wave : Wave) (sim : Simulation) :
    Prop where
  marks : sim.marks = true
  current : sim.current = wave.jobIds
  ids : wave.jobIds.Nodup
  nodes : (wave.jobs.map Job.nodes).Nodup
  made : ∀ job ∈ wave.jobs, ∃ n ∈ g.nodes, job = n.job c g.scope group job.id
  known : ∀ job ∈ wave.jobs, ∃ simulated, sim.job? job.id = some simulated ∧ simulated.job = job

namespace Underway

/-- The output of a node is in staging if its job has succeeded. -/
theorem staged_eq (underway : Underway c g group wave sim) {job : Job} (member : job ∈ wave.jobs)
    {n : Node} (nodes : job.nodes = [n.id]) :
    sim.staged wave n = (sim.status job.id == .succeeded) := by
  rw [Bool.eq_iff_iff, Simulation.staged, List.any_eq_true]
  constructor
  · rintro ⟨other, among, both⟩
    rw [Bool.and_eq_true, beq_iff_eq] at both
    obtain rfl : other = job :=
      List.inj_on_of_nodup_map underway.nodes among member (both.1.trans nodes.symm)
    exact both.2
  · intro succeeded
    exact ⟨job, member, by rw [nodes, beq_self_eq_true, succeeded]; rfl⟩

/-- After a tick the same jobs are on the cluster. -/
theorem tickedJob (underway : Underway c g group wave sim) (id : Nat) :
    Underway c g group wave (sim.tickedJob id) where
  marks := (sim.tickedJob_marks id).trans underway.marks
  current := (sim.tickedJob_current id).trans underway.current
  ids := underway.ids
  nodes := underway.nodes
  made := underway.made
  known job member := by
    obtain ⟨simulated, there, same⟩ := underway.known job member
    rw [Simulation.job?_tickedJob]
    by_cases own : job.id = id
    · rw [if_pos own, ← own, there]
      exact ⟨_, rfl, (SimulatedJob.tick_job simulated).trans same⟩
    · rw [if_neg own]
      exact ⟨simulated, there, same⟩

/-- The tick of a job stages no output but its own. -/
theorem staged_tickedJob (underway : Underway c g group wave sim) {job : Job} (member : job ∈ wave.jobs)
    {n : Node} (nodes : job.nodes = [n.id]) (other : Node) :
    (sim.tickedJob job.id).staged wave other = if other.id = n.id then
      (sim.tickedJob job.id).status job.id == .succeeded else sim.staged wave other := by
  by_cases same : other.id = n.id
  · rw [if_pos same]
    exact (underway.tickedJob job.id).staged_eq member (nodes.trans (by rw [same]))
  · rw [if_neg same, Bool.eq_iff_iff, Simulation.staged, Simulation.staged, List.any_eq_true, List.any_eq_true]
    refine exists_congr fun later => and_congr_right fun there => ?_
    by_cases own : later = job
    · have single : ([n.id] == [other.id]) = false := by simpa using Ne.symm same
      rw [own, nodes, single, Bool.false_and, Bool.false_and]
    · have number : later.id ≠ job.id := fun ids =>
        own (List.inj_on_of_nodup_map underway.ids there member ids)
      rw [Simulation.status, Simulation.status, Simulation.job?_tickedJob, if_neg number]

variable {m : Type → Type} [Monad m] [LawfulMonad m] {W : Type} [Stateful m W]

/-- The tick of a job stages its output if the job succeeds by it. -/
theorem tick (built : g.Built) (spread : g.Spread c group) (underway : Underway c g group wave sim)
    {placed : Node → Bool} (stocked : g.Stocked c group (sim.staged wave) placed t) {id : Nat}
    (member : id ∈ wave.jobIds) (w : W) :
    ∃ t', (Simulation.tickJob (FileTree.fileSystem : FileSystem (StateT FileTree m)) id).act
        (sim, (t, w)) = (.ok ⟨⟩, (sim.tickedJob id, (t', w))) ∧
      g.Stocked c group ((sim.tickedJob id).staged wave) placed t' := by
  obtain ⟨job, among, rfl⟩ := List.mem_map.mp member
  obtain ⟨simulated, there, same⟩ := underway.known job among
  obtain ⟨n, inside, is⟩ := underway.made job among
  have nodes : job.nodes = [n.id] := by
    rw [is]
    rfl
  have before : sim.staged wave n = (simulated.status == .succeeded) := by
    rw [underway.staged_eq among nodes, Simulation.status, there]
  have after : (sim.tickedJob job.id).status job.id = simulated.tick.status := by
    rw [Simulation.status, Simulation.job?_tickedJob, if_pos rfl, there]
    rfl
  have staged : ∀ other ∈ g.nodes, (sim.tickedJob job.id).staged wave other =
      Function.update (sim.staged wave) n (simulated.tick.status == .succeeded) other := by
    intro other outer
    rw [underway.staged_tickedJob among nodes, after]
    by_cases own : other = n
    · rw [own, if_pos rfl, Function.update_self]
    · rw [if_neg fun ids => own (built.eq_of_id outer inside ids), Function.update_of_ne own]
  by_cases succeeds : ¬ simulated.status.isTerminal ∧ simulated.advance.isDue ∧
      simulated.script.failure.isNone
  · have unstaged : sim.staged wave n = false := by
      rw [before, beq_eq_false_iff_ne]
      exact fun done => succeeds.1 (by rw [done]; rfl)
    obtain ⟨t', written, stocked'⟩ := stocked.stage (m := m) spread inside unstaged w
    have finishing : sim.finishing? job.id = some (n.stagingPath c g group) := by
      rw [Simulation.finishing?, there, Option.bind_some, if_pos ⟨underway.marks, succeeds⟩, same, is]
      rfl
    refine ⟨t', Simulation.tickJob_act _ ?_, stocked'.congr (fun other outer => ?_) fun _ _ => rfl⟩
    · rw [finishing]
      exact written
    · rw [staged other outer, simulated.tick_succeeded_iff.mpr (.inr succeeds)]
      rfl
  · have finishing : sim.finishing? job.id = none := by
      rw [Simulation.finishing?, there, Option.bind_some, if_neg fun all => succeeds all.2]
    have unchanged : (simulated.tick.status == .succeeded) = (simulated.status == .succeeded) := by
      rw [Bool.eq_iff_iff, beq_iff_eq, beq_iff_eq, simulated.tick_succeeded_iff, or_iff_left succeeds]
    refine ⟨t, Simulation.tickJob_act _ ?_, stocked.congr (fun other outer => ?_) fun _ _ => rfl⟩
    · rw [finishing]
    · rw [staged other outer, unchanged, ← before, Function.update_eq_self]

end Underway

end Ticks

section Commits

variable {m : Type → Type} [Monad m] [LawfulMonad m] {W : Type} [Stateful m W] {c : RunConfig}
  {g : Graph} {group : String} {old : Node → Bool}

/-- Moves outputs in a tree of files, beside a simulated cluster. -/
def Committer.onTree : Committer (StateT Simulation (StateT FileTree m)) :=
  (onFiles (FileTree.fileSystem (m := m))).widen

/-- Some jobs of nodes that are not complete are to be committed: their outputs are in staging. -/
structure Loaded (c : RunConfig) (g : Graph) (group : String) (old : Node → Bool) (jobs : List Job)
    (s : Schedule) (t : FileTree) : Prop where
  stocked : g.Stocked c group (fun n => jobs.any (·.nodes == [n.id])) (s.inPlace old) t
  kept : s.Keeps c g group
  made : ∀ job ∈ jobs, ∃ n ∈ g.nodes, job = n.job c g.scope group job.id ∧ n.id ∉ s.completed.toList
  distinct : (jobs.map Job.nodes).Nodup

/-- The fault says that a final output was in place already. -/
def Graph.Blocks (g : Graph) (group : String) (old : Node → Bool) (fault : Error) : Prop :=
  ∃ n ∈ g.nodes, n.isTaken old = true ∧
    fault = .commit (Location.jobName group n.id) (.destinationExists n.output.location)

namespace Loaded

variable {job : Job} {rest : List Job} {s : Schedule} {t : FileTree}

/-- The next job is committed if it need not replace anything. -/
theorem commitJob (built : g.Built) (spread : g.Spread c group)
    (loaded : Loaded c g group old (job :: rest) s t)
    (free : ∀ n ∈ g.nodes, job.nodes = [n.id] → n.isTaken old = false) (sim : Simulation) (w : W) :
    ∃ t', (Schedule.commitJob (Committer.onTree (m := m)) job).act (s, (sim, (t, w))) =
        (.ok ⟨⟩, (s.complete job, (sim, (t', w)))) ∧
      Loaded c g group old rest (s.complete job) t' := by
  obtain ⟨n, member, is, pending⟩ := loaded.made job List.mem_cons_self
  have nodes : job.nodes = [n.id] := by
    rw [is]
    rfl
  obtain ⟨fresh, distinct⟩ := List.nodup_cons.mp loaded.distinct
  have vacant : s.inPlace old n = false :=
    (Schedule.inPlace_of_pending loaded.kept pending).trans (free n member nodes)
  obtain ⟨t', committed, stocked⟩ := loaded.stocked.commit (m := m) spread member
    (by rw [List.any_cons, nodes, beq_self_eq_true, Bool.true_or]) vacant job.id w
  rw [← is] at committed
  have stored : ((Committer.onTree (m := m)).commit job).act (sim, (t, w)) =
      (.ok (), (sim, (t', w))) := by
    rw [Committer.onTree, Committer.widen, Step.act_widen, committed]
  have others : ∀ later ∈ rest, later.nodes ≠ [n.id] := fun later there same =>
    fresh (List.mem_map.mpr ⟨later, there, same.trans nodes.symm⟩)
  refine ⟨t', Schedule.commitJob_ok stored s, stocked.congr (fun other among => ?_) fun other among => ?_,
    ?_, fun later there => ?_, distinct⟩
  · by_cases own : other = n
    · rw [own, Function.update_self, List.any_eq_false]
      exact fun later there => by simpa using others later there
    · have single : (job.nodes == [other.id]) = false := by
        rw [nodes, beq_eq_false_iff_ne]
        exact fun ids => own (built.eq_of_id among member (List.singleton_inj.mp ids).symm)
      rw [Function.update_of_ne own, List.any_cons, single, Bool.false_or]
  · rw [is]
    exact Schedule.inPlace_complete built member job.id among
  · rw [is]
    exact loaded.kept.complete member job.id
  · obtain ⟨other, among, made, waits⟩ := loaded.made later (List.mem_cons_of_mem _ there)
    refine ⟨other, among, made, fun complete => ?_⟩
    rw [Schedule.complete, SortedSet.mem_insertAll, nodes, List.mem_singleton] at complete
    refine complete.elim (fun ids => others later there ?_) waits
    rw [made, ← ids]
    rfl

/-- The next job is refused if it would have to replace a final output. -/
theorem commitJob_refused (spread : g.Spread c group)
    (loaded : Loaded c g group old (job :: rest) s t) {n : Node} (member : n ∈ g.nodes)
    (is : job = n.job c g.scope group job.id) (taken : n.isTaken old = true) (sim : Simulation) (w : W) :
    (Schedule.commitJob (Committer.onTree (m := m)) job).act (s, (sim, (t, w))) =
      (.error (.commit job.name (.destinationExists n.output.location)), (s, (sim, (t, w)))) := by
  have both := Node.final_of_isTaken taken
  have nodes : job.nodes = [n.id] := by
    rw [is]
    rfl
  have there : s.inPlace old n = true := by
    rw [Schedule.inPlace, both.1, both.2]
    rfl
  have refused := loaded.stocked.commit_refused (m := m) spread member
    (by rw [List.any_cons, nodes, beq_self_eq_true, Bool.true_or]) there both.1 job.id w
  rw [← is] at refused
  refine Step.act_bind_error ?_
  rw [Step.act_adapt, Step.act_widen, Committer.onTree, Committer.widen, Step.act_widen, refused]
  rfl

/-- All jobs are committed if none of them need replace anything. -/
theorem forM_commitJob (built : g.Built) (spread : g.Spread c group) {jobs : List Job}
    (loaded : Loaded c g group old jobs s t)
    (free : ∀ job ∈ jobs, ∀ n ∈ g.nodes, job.nodes = [n.id] → n.isTaken old = false)
    (sim : Simulation) (w : W) :
    ∃ t', (jobs.forM (Schedule.commitJob (Committer.onTree (m := m)))).act (s, (sim, (t, w))) =
        (.ok ⟨⟩, (jobs.foldl Schedule.complete s, (sim, (t', w)))) ∧
      Rests c g group old (jobs.foldl Schedule.complete s) t' := by
  induction jobs generalizing s t with
  | nil => exact ⟨t, Step.act_forM_nil _ _, loaded.stocked, loaded.kept⟩
  | cons job rest ih =>
    obtain ⟨t₁, committed, loaded₁⟩ := loaded.commitJob (m := m) built spread
      (free job List.mem_cons_self) sim w
    obtain ⟨t', ran, rests⟩ := ih loaded₁ fun later there => free later (List.mem_cons_of_mem _ there)
    exact ⟨t', by rw [Step.act_forM_cons, committed]; exact ran, rests⟩

/-- If one of them would have to replace a final output, the first that would is refused. -/
theorem forM_commitJob_refused (built : g.Built) (spread : g.Spread c group) {jobs : List Job}
    (loaded : Loaded c g group old jobs s t)
    (taken : ∃ job ∈ jobs, ∃ n ∈ g.nodes, job.nodes = [n.id] ∧ n.isTaken old = true)
    (sim : Simulation) (w : W) :
    ∃ fault after, g.Blocks group old fault ∧
      (jobs.forM (Schedule.commitJob (Committer.onTree (m := m)))).act (s, (sim, (t, w))) =
        (.error fault, after) := by
  induction jobs generalizing s t with
  | nil =>
    obtain ⟨job, none, _⟩ := taken
    cases none
  | cons job rest ih =>
    obtain ⟨n, member, is, _⟩ := loaded.made job List.mem_cons_self
    have nodes : job.nodes = [n.id] := by
      rw [is]
      rfl
    cases own : n.isTaken old with
    | true =>
      have refused := loaded.commitJob_refused (m := m) spread member is own sim w
      have name : job.name = Location.jobName group n.id := by
        rw [is]
        rfl
      exact ⟨.commit job.name (.destinationExists n.output.location), _, ⟨n, member, own, by rw [name]⟩,
        by rw [Step.act_forM_cons, refused]⟩
    | false =>
      have free : ∀ other ∈ g.nodes, job.nodes = [other.id] → other.isTaken old = false := by
        intro other among same
        rw [built.eq_of_id among member (List.singleton_inj.mp (same.symm.trans nodes)), own]
      obtain ⟨t₁, committed, loaded₁⟩ := loaded.commitJob (m := m) built spread free sim w
      obtain ⟨later, there, other, among, same, blocked⟩ := taken
      rcases List.mem_cons.mp there with rfl | there
      · rw [free other among same] at blocked
        cases blocked
      · obtain ⟨fault, after, blocks, ran⟩ := ih loaded₁ ⟨later, there, other, among, same, blocked⟩
        exact ⟨fault, after, blocks, by rw [Step.act_forM_cons, committed]; exact ran⟩

end Loaded

/-- To discard some jobs drops those of their outputs that are temporary. -/
theorem forM_discardJob (built : g.Built) (spread : g.Spread c group) {jobs : List Job}
    {staged placed : Node → Bool} {t : FileTree} (stocked : g.Stocked c group staged placed t)
    (made : ∀ job ∈ jobs, ∃ n ∈ g.nodes, job = n.job c g.scope group job.id)
    (s : Schedule) (sim : Simulation) (w : W) :
    ∃ t', (jobs.forM (Schedule.discardJob (Committer.onTree (m := m)))).act (s, (sim, (t, w))) =
        (.ok ⟨⟩, (s, (sim, (t', w)))) ∧
      g.Stocked c group staged
        (fun n => !(n.output.isTemporary && jobs.any (·.nodes == [n.id])) && placed n) t' := by
  induction jobs generalizing placed t with
  | nil => exact ⟨t, Step.act_forM_nil _ _, stocked.congr (fun _ _ => rfl) fun n _ => by simp⟩
  | cons job rest ih =>
    obtain ⟨n, member, is⟩ := made job List.mem_cons_self
    obtain ⟨t₁, discarded, stocked₁⟩ := stocked.discard (m := m) spread member job.id w
    rw [← is] at discarded
    have dropped : ((Committer.onTree (m := m)).discard job).act (sim, (t, w)) =
        (.ok (), (sim, (t₁, w))) := by
      rw [Committer.onTree, Committer.widen, Step.act_widen, discarded]
    obtain ⟨t', ran, stocked'⟩ := ih stocked₁ fun later there => made later (List.mem_cons_of_mem _ there)
    refine ⟨t', by rw [Step.act_forM_cons, Schedule.discardJob_ok dropped]; exact ran,
      stocked'.congr (fun _ _ => rfl) fun other among => ?_⟩
    by_cases own : other = n
    · have single : (job.nodes == [other.id]) = true := by
        rw [own, is]
        exact beq_self_eq_true _
      rw [own, Function.update_self, List.any_cons, ← own, single]
      cases other.output.isTemporary <;> simp
    · have single : (job.nodes == [other.id]) = false := by
        rw [is, beq_eq_false_iff_ne]
        exact fun ids => own (built.eq_of_id among member (List.singleton_inj.mp ids).symm)
      rw [Function.update_of_ne own, List.any_cons, single, Bool.false_or]

end Commits

section Launches

variable {m : Type → Type} [Monad m] {W α : Type} [ProgressNumber α] {c : RunConfig} {g : Graph}
  {group : String} {old : Node → Bool}

/-- A site where jobs go by their scripts and their outputs are committed in a tree of files. -/
def Site.staging (limits : Limits) (pause : m Unit) :
    Site (StateT Simulation (StateT FileTree m)) α where
  committer := .onTree
  cluster := Simulation.cluster (FileTree.fileSystem (m := m))
  limits := limits
  pause := MonadLift.monadLift (MonadLift.monadLift pause : StateT FileTree m Unit)

/-- What the tree is like during such a launch, if some outputs were in place before it. -/
def Launch.Backdrop.stocked (c : RunConfig) (g : Graph) (group : String) (old : Node → Bool) :
    Backdrop (FileTree × W) where
  marks := true
  admits jobs := ∀ job ∈ jobs, ∀ n ∈ g.nodes, job.nodes = [n.id] → n.isTaken old = false
  rests s w := Rests c g group old s w.1
  runs s wave sim w := g.Stocked c group (sim.staged wave) (s.inPlace old) w.1 ∧ s.Keeps c g group ∧
    Underway c g group wave sim ∧ ∀ job ∈ wave.jobs, ∀ id ∈ job.nodes, id ∉ s.completed.toList

/-- When a wave begins none of its outputs are in staging. -/
theorem Underway.begin (built : g.Built) {s s' : Schedule} {level : Nat} {wave : Wave}
    {sim sim' : Simulation} (reaches : s.Reaches g level)
    (handed : s.next c g group = .ok (some (wave, s'))) (marks : sim.marks = true)
    (running : Simulation.Running sim wave 0 sim') :
    Underway c g group wave sim' ∧ (∀ n, sim'.staged wave n = false) ∧
      ∀ job ∈ wave.jobs, ∀ id ∈ job.nodes, id ∉ s.completed.toList := by
  obtain ⟨_, is, _, _⟩ := reaches.handed built handed
  have jobs : wave.jobs = g.jobs c group (g.below level).length (g.stage level) := by rw [is]
  have ids : wave.jobIds.Nodup := by
    rw [Wave.jobIds, jobs, Graph.map_id_jobs]
    exact List.nodup_range'
  refine ⟨⟨running.marks.trans marks, running.current, ids, ?_, fun job member => ?_,
    fun job member => ⟨_, running.jobs job member, SimulatedJob.after_job _ _ _⟩⟩, fun n => ?_,
    fun job member id own complete => ?_⟩
  · have distinct : ((g.stage level).map Node.id).Nodup := (built.stage_ascending level).imp Nat.ne_of_lt
    rw [jobs, Graph.map_nodes_jobs]
    have single : (g.stage level).map (fun n => [n.id]) =
        ((g.stage level).map Node.id).map fun id => [id] := by
      rw [List.map_map]
      rfl
    rw [single]
    exact distinct.map fun _ _ => List.singleton_inj.mp
  · obtain ⟨n, among, made⟩ := Graph.exists_node_of_mem_jobs (jobs ▸ member)
    exact ⟨n, (Graph.mem_stage.mp among).1, made⟩
  · refine List.any_eq_false.mpr fun job member both => ?_
    have going : sim'.status job.id = .running := by
      rw [Simulation.status, running.jobs job member, SimulatedJob.after_zero]
      rfl
    rw [going, Bool.and_eq_true] at both
    cases both.2
  · obtain ⟨n, among, made⟩ := Graph.exists_node_of_mem_jobs (jobs ▸ member)
    rw [made] at own
    obtain rfl := List.mem_singleton.mp own
    exact Nat.lt_irrefl _ ((Graph.mem_stage.mp among).2 ▸ ((reaches.completed n.id).mp complete).2)

/-- The jobs of a wave that have succeeded are to be committed. -/
theorem Underway.loaded {s : Schedule} {wave : Wave} {sim : Simulation} {t : FileTree}
    (underway : Underway c g group wave sim)
    (stocked : g.Stocked c group (sim.staged wave) (s.inPlace old) t) (kept : s.Keeps c g group)
    (pending : ∀ job ∈ wave.jobs, ∀ id ∈ job.nodes, id ∉ s.completed.toList) {succeeded : List Nat}
    (verdicts : ∀ job ∈ wave.jobs, succeeded.contains job.id = true ↔
      sim.status job.id = .succeeded) (seq : Nat) :
    Loaded c g group old (wave.jobs.filter fun job => succeeded.contains job.id)
      { s with committed := s.committed.insert seq } t where
  stocked := by
    refine stocked.congr (fun n _ => ?_) fun _ _ => rfl
    rw [List.any_filter, Simulation.staged, Bool.eq_iff_iff, List.any_eq_true, List.any_eq_true]
    refine exists_congr fun job => and_congr_right fun member => ?_
    rw [Bool.and_eq_true, Bool.and_eq_true, verdicts job member, beq_iff_eq, beq_iff_eq, and_comm]
  kept := kept
  made job member := by
    have there := (List.mem_filter.mp member).1
    obtain ⟨n, inside, made⟩ := underway.made job there
    exact ⟨n, inside, made, pending job there n.id (by rw [made]; exact List.mem_cons_self)⟩
  distinct := underway.nodes.sublist (List.filter_sublist.map _)

variable [LawfulMonad m] [Stateful m W]

/-- In a tree where no output is in the way of another such a launch meets no fault, as long as it need
not replace final outputs. -/
theorem Site.staging_simulates (built : g.Built) (spread : g.Spread c group) (limits : Limits)
    (pause : m Unit) (old : Node → Bool) :
    ((staging limits pause : Site (StateT Simulation (StateT FileTree m)) α).launch c g group).Simulates c
      (.stocked c g group old : Launch.Backdrop (FileTree × W)) where
  next _ _ s w := Schedule.next_act _ s w
  commit wave succeeded s sim w admitted fresh runs ended verdicts := by
    obtain ⟨stocked, kept, underway, pending⟩ := runs
    obtain ⟨t, w⟩ := w
    obtain ⟨t', ran, rests⟩ := (underway.loaded stocked kept pending verdicts wave.seq).forM_commitJob
      (m := m) built spread (fun job member => admitted job (List.mem_filter.mp member).1) sim w
    exact ⟨(t', w), (Schedule.commit_act_of_fresh (sim, (t, w)) _ fresh succeeded).trans ran, rests⟩
  cleanup s sim w rests := by
    obtain ⟨stocked, kept⟩ := rests
    obtain ⟨t, w⟩ := w
    obtain ⟨t', ran, stocked'⟩ := forM_discardJob (m := m) built spread stocked
      (fun job member => (kept job member).imp fun n known => ⟨known.1, known.2.1⟩)
      { s with temporaries := [] } sim w
    refine ⟨(t', w), (Schedule.cleanup_act_eq (sim, (t, w)) _ s).trans ran,
      stocked'.congr (fun _ _ => rfl) fun n member => ?_, nofun⟩
    rw [Schedule.inPlace, Schedule.inPlace]
    cases n.output.isTemporary <;> simp
  submit wave s sim sim' w submitted :=
    (Step.act_widen _ s _).trans (by rw [staging, Simulation.submit_act _ submitted])
  begins level s s' wave sim sim' w reaches handed marks running rests := by
    obtain ⟨underway, unstaged, pending⟩ := Underway.begin built reaches handed marks running
    obtain ⟨_, _, _, rfl⟩ := Schedule.next_made handed
    exact ⟨rests.stocked.congr (fun n _ => unstaged n) fun _ _ => rfl, rests.kept, underway, pending⟩
  look s wave sim w runs := by
    have current : sim.current = wave.jobIds := runs.2.2.1.current
    obtain ⟨w', looked, runs⟩ := Simulation.allFinished_act (α := α) (FileTree.fileSystem (m := m))
      ((Launch.Backdrop.stocked c g group old : Launch.Backdrop (FileTree × W)).runs s wave)
      (fun id member sim w runs => by
        obtain ⟨stocked, kept, underway, pending⟩ := runs
        obtain ⟨t', ticked, stocked'⟩ :=
          underway.tick (m := m) built spread stocked (current ▸ member) w.2
        exact ⟨(t', w.2), ticked, stocked', kept, underway.tickedJob id, pending⟩) runs
    exact ⟨w', (Step.act_widen _ s _).trans (by rw [staging, looked]), runs⟩
  progress id s sim w :=
    (act_monadLift _ s _).trans (by rw [staging, Simulation.progress_act])
  status id s sim w :=
    (act_monadLift _ s _).trans (by rw [staging, Simulation.status_act])
  message id s sim w :=
    (act_monadLift _ s _).trans (by rw [staging, Simulation.message_act])
  stop s sim w := (Step.act_widen _ s _).trans (by rw [staging, Simulation.stop_act])
  stats id job s sim w there :=
    (Step.act_widen _ s _).trans (by rw [staging, Simulation.stats_act _ there])
  pause s sim w := by
    refine ⟨(w.1, (Stateful.act pause w.2).2), ?_, fun _ => id⟩
    refine (act_monadLift _ s _).trans ?_
    rw [staging, act_monadLift]
    dsimp only
    rw [act_monadLift]

end Launches

end Wavefront
