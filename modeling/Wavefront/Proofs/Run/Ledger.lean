import Wavefront.Proofs.Optimization.Wiring
import Wavefront.Proofs.Run.Temporaries
set_option autoImplicit false

/-!
The ledger of a launch on a schedule. What a schedule knows agrees with what has happened: the nodes that
have had their wave are those of the jobs that were submitted, and the nodes that are complete are those
of jobs that were put in place. Main statement: at every stage of a launch, each job that is submitted
finds what it reads in place, and a job is put in place only after it was read to have succeeded.
-/
namespace Wavefront

/-- A rule holds of each event and those before it. -/
def Throughout (rule : List Event → Event → Prop) (events : List Event) : Prop :=
  ∀ before e after, events = before ++ e :: after → rule before e

def submittedJobs (events : List Event) : List Job :=
  (events.filterMap Event.submitted?).flatMap Wave.jobs

/-- A job was read to have succeeded, in a round of its wave that came to its end. -/
def HasSucceeded (events : List Event) (job : Job) : Prop :=
  ∃ round : Round, round.events <:+: events ∧
    ∃ reading ∈ round.readings, reading.job = job ∧ reading.status = .succeeded

/-- Each temporary output that a job reads is in place: the job that made it has succeeded in a wave
before, the committer has put its output there, and was not asked to drop it. -/
def Supplied (g : Graph) (before : List Event) (job : Job) : Prop :=
  ∃ n ∈ g.nodes, job.nodes = [n.id] ∧ ∀ (index : Nat) branch producer location,
    n.map[index]? = some branch → branch.source = .temp producer location →
      ∃ maker : Job, maker.nodes = [producer] ∧ job.inputs[index]? = some maker.destination ∧
        HasSucceeded before maker ∧ .store maker (.ok ()) ∈ before ∧
        ∀ answer, .discard maker answer ∉ before

/-- What can be relied on when something happens. -/
def Orderly (g : Graph) (before : List Event) : Event → Prop
  | .submit wave _ => ∀ job ∈ wave.jobs, Supplied g before job
  | .store job _ => HasSucceeded before job
  | _ => True

/-- A schedule agrees with what has happened. -/
structure Ledger (c : RunConfig) (g : Graph) (group : String) (s : Schedule) (log : List Event) : Prop
    extends Tally s log where
  orderly : Throughout (Orderly g) log
  made : ∀ job ∈ submittedJobs log, ∃ n ∈ g.nodes, job = n.job c g.scope group job.id
  scheduled : ∀ job ∈ submittedJobs log, ∀ id ∈ job.nodes, id ∈ s.scheduled.toList
  once : ((submittedJobs log).flatMap Job.nodes).Nodup
  completed : ∀ id ∈ s.completed.toList, ∃ maker, .store maker (.ok ()) ∈ log ∧ id ∈ maker.nodes

namespace Throughout

variable {rule : List Event → Event → Prop} {log events : List Event}

theorem nil : Throughout rule [] := by
  intro before e after is
  simp at is

/-- Events that follow keep to a rule if they do so after what was before. -/
theorem append (first : Throughout rule log)
    (second : Throughout (fun before => rule (log ++ before)) events) :
    Throughout rule (log ++ events) := by
  intro before e after is
  rcases List.append_eq_append_iff.mp is with ⟨more, earlier, later⟩ | ⟨more, earlier, later⟩
  · rw [earlier]
    exact second more e after later
  · cases more with
    | nil =>
      rw [List.append_nil] at earlier
      rw [← earlier]
      simpa using second [] e after (by simpa using later.symm)
    | cons other rest =>
      rw [List.cons_append, List.cons.injEq] at later
      obtain ⟨rfl, rfl⟩ := later
      exact first before e rest earlier

theorem single {e : Event} (first : rule [] e) : Throughout rule [e] := by
  intro before other after is
  obtain ⟨rfl, is⟩ | ⟨rest, rfl, is⟩ := List.cons_eq_append_iff.mp is
  · obtain ⟨rfl, -⟩ := List.cons.inj is
    exact first
  · simp at is

theorem of_forall (each : ∀ before, ∀ e ∈ events, rule before e) : Throughout rule events := by
  rintro before e after rfl
  exact each before e (by simp)

end Throughout

theorem Event.eq_store_of_placed? {e : Event} {job : Job} (placed : e.placed? = some job) :
    e = .store job (.ok ()) := by
  cases e with
  | store other answer =>
    cases answer with
    | ok _ =>
      cases placed
      rfl
    | error fault => cases placed
  | _ => cases placed

namespace HasSucceeded

variable {events more : List Event} {job : Job}

theorem submitted (succeeded : HasSucceeded events job) : job ∈ submittedJobs events := by
  obtain ⟨round, part, reading, read, rfl, _⟩ := succeeded
  have member : reading.job ∈ round.wave.jobs := round.complete ▸ List.mem_map_of_mem read
  have first : .submit round.wave (.ok ()) ∈ events := part.subset List.mem_cons_self
  exact List.mem_flatMap.mpr ⟨round.wave, List.mem_filterMap.mpr ⟨_, first, rfl⟩, member⟩

theorem mono (succeeded : HasSucceeded events job) (part : events <:+: more) :
    HasSucceeded more job := by
  obtain ⟨round, inside, reading⟩ := succeeded
  exact ⟨round, inside.trans part, reading⟩

end HasSucceeded

theorem Round.exists_reading (r : Round) (distinct : r.wave.jobIds.Nodup) {job : Job}
    (member : job ∈ r.wave.jobs) (listed : job.id ∈ r.succeeded) :
    ∃ reading ∈ r.readings, reading.job = job ∧ reading.status = .succeeded := by
  obtain ⟨record, among, same⟩ := List.mem_map.mp listed
  obtain ⟨there, succeeded⟩ := List.mem_filter.mp among
  obtain ⟨reading, read, rfl⟩ := List.mem_map.mp there
  have own : reading.job ∈ r.wave.jobs := r.complete ▸ List.mem_map_of_mem read
  exact ⟨reading, read, List.inj_on_of_nodup_map distinct own member same, beq_iff_eq.mp succeeded⟩

theorem Schedule.exists_node {s s' : Schedule} {c : RunConfig} {g : Graph} {group : String} {wave : Wave}
    (built : g.Built) (handed : s.next c g group = .ok (some (wave, s'))) {job : Job}
    (member : job ∈ wave.jobs) :
    ∃ n ∈ g.nodes, n.id ∈ s.ready g ∧ job = n.job c g.scope group job.id := by
  obtain ⟨_, _, made, _⟩ := next_made handed
  obtain ⟨id, ready, n, there, own⟩ := Traversal.exists_of_forall₂ (jobs_made made).2.flip member
  refine ⟨n, List.mem_of_getElem? there, ?_, own⟩
  rwa [built.numbered id n there]

namespace Ledger

variable {σ : Type} {c : RunConfig} {g : Graph} {group : String} {s s' : Schedule}
  {log log' events : List Event}

theorem succeeded_of_store (ledger : Ledger c g group s log) {job : Job}
    {answer : Except CommitFault Unit} (member : .store job answer ∈ log) : HasSucceeded log job := by
  obtain ⟨before, after, is⟩ := List.append_of_mem member
  have before_prefix : before <+: log := ⟨_, is.symm⟩
  exact (ledger.orderly before _ after is : HasSucceeded before job).mono before_prefix.isInfix

/-- The output of a node that is complete was put in place, by the job of the node. -/
theorem exists_maker (built : g.Built) (ledger : Ledger c g group s log) {id : Nat}
    (complete : id ∈ s.completed.toList) :
    ∃ maker n, g.nodes[id]? = some n ∧ maker.nodes = [id] ∧ maker.destination = n.output.location ∧
      HasSucceeded log maker ∧ .store maker (.ok ()) ∈ log := by
  obtain ⟨maker, stored, own⟩ := ledger.completed id complete
  have succeeded := ledger.succeeded_of_store stored
  obtain ⟨n, member, is⟩ := ledger.made maker succeeded.submitted
  have nodes : maker.nodes = [n.id] := congrArg Job.nodes is
  obtain rfl : id = n.id := by simpa [nodes] using own
  exact ⟨maker, n, built.getElem?_id member, nodes, congrArg Job.destination is, succeeded, stored⟩

theorem not_dropped (ledger : Ledger c g group s log) (job : Job) (answer : Except CommitFault Unit) :
    .discard job answer ∉ log := fun member =>
  absurd (List.mem_filterMap.mpr ⟨_, member, rfl⟩ : job ∈ log.filterMap Event.dropped?)
    (by rw [ledger.kept]; exact List.not_mem_nil)

/-- Each job that is handed out finds what it reads in place. -/
theorem supplied (built : g.Built) (linked : g.Linked) (ledger : Ledger c g group s log) {wave : Wave}
    (handed : s.next c g group = .ok (some (wave, s'))) : ∀ job ∈ wave.jobs, Supplied g log job := by
  intro job member
  obtain ⟨n, among, ready, own⟩ := Schedule.exists_node built handed member
  refine ⟨n, among, congrArg Job.nodes own, fun index branch producer location there source => ?_⟩
  have reads : producer ∈ n.producers :=
    List.mem_filterMap.mpr ⟨branch, List.mem_of_getElem? there, by rw [source]; rfl⟩
  have read := built.mem_predecessors_of_producers among reads
  -- The node that writes what is read is complete, so the output of its job was put in place.
  have complete := ((Schedule.mem_ready built).mp ready).2.2 producer read
  obtain ⟨maker, m, at_, nodes, destination, succeeded, stored⟩ := ledger.exists_maker built complete
  obtain ⟨m', at', output⟩ :=
    linked n among branch (List.mem_of_getElem? there) producer location source
  obtain rfl : m = m' := Option.some.inj (at_.symm.trans at')
  refine ⟨maker, nodes, ?_, succeeded, stored, fun answer => ledger.not_dropped maker answer⟩
  rw [own, destination, output]
  simp [Node.job, there, source, Source.location, NodeOutput.location]

theorem start (c : RunConfig) (g : Graph) (group : String) : Ledger c g group .start [] where
  toTally := .start
  orderly := .nil
  made := by simp [submittedJobs]
  scheduled := by simp [submittedJobs]
  once := by simp [submittedJobs]
  completed := by simp [Schedule.start, SortedSet.empty]

theorem quiet (ledger : Ledger c g group s log) (quiet : Quiet events) :
    Ledger c g group s (log ++ events) := by
  have same : submittedJobs (log ++ events) = submittedJobs log := by
    rw [submittedJobs, List.filterMap_append, quiet.submitted_eq_nil, List.append_nil, submittedJobs]
  exact {
    toTally := ledger.toTally.quiet quiet
    orderly := ledger.orderly.append (.of_forall fun before e member => by
      have silent := quiet e member
      cases e <;> trivial)
    made := by
      rw [same]
      exact ledger.made
    scheduled := by
      rw [same]
      exact ledger.scheduled
    once := by
      rw [same]
      exact ledger.once
    completed := fun id complete => by
      obtain ⟨maker, stored, own⟩ := ledger.completed id complete
      exact ⟨maker, List.mem_append_left _ stored, own⟩ }

/-- A wave that is submitted has new jobs, which find what they read in place. -/
theorem submitted (built : g.Built) (linked : g.Linked) (ledger : Ledger c g group s log) {wave : Wave}
    (answer : Except ClusterFault Unit) (handed : s.next c g group = .ok (some (wave, s'))) :
    Ledger c g group s' (log ++ [.submit wave answer]) := by
  have jobs : submittedJobs (log ++ [.submit wave answer]) = submittedJobs log ++ wave.jobs := by
    simp [submittedJobs, Event.submitted?]
  have supplied := ledger.supplied built linked handed
  have node : ∀ job ∈ wave.jobs, ∃ n ∈ g.nodes, n.id ∈ s.ready g ∧
      job = n.job c g.scope group job.id := fun job member => Schedule.exists_node built handed member
  have tally := ledger.toTally.submitted answer handed
  obtain ⟨_, _, _, parts, rfl⟩ := Schedule.next_eq_some built handed
  have nodes : wave.jobs.flatMap Job.nodes = s.ready g := by
    rw [List.flatMap_def, parts, ← List.flatMap_def, List.flatMap_singleton']
  exact {
    toTally := tally
    orderly := ledger.orderly.append (.single (by
      rw [List.append_nil]
      exact supplied))
    made := by
      rw [jobs]
      intro job member
      rcases List.mem_append.mp member with old | new
      · exact ledger.made job old
      · obtain ⟨n, among, _, own⟩ := node job new
        exact ⟨n, among, own⟩
    scheduled := by
      rw [jobs]
      intro job member id own
      show id ∈ (s.scheduled.insertAll (s.ready g)).toList
      rw [SortedSet.mem_insertAll, ← nodes]
      rcases List.mem_append.mp member with old | new
      · exact .inr (ledger.scheduled job old id own)
      · exact .inl (List.mem_flatMap.mpr ⟨job, new, own⟩)
    once := by
      rw [jobs, List.flatMap_append, nodes]
      refine List.nodup_append.mpr ⟨ledger.once, ?_, ?_⟩
      · exact (Schedule.ready_ascending built s).imp Nat.ne_of_lt
      · -- A node that is ready has not been scheduled, so no earlier job is one of it.
        rintro id before _ now rfl
        obtain ⟨job, old, own⟩ := List.mem_flatMap.mp before
        exact ((Schedule.mem_ready built).mp now).2.1 (ledger.scheduled job old id own)
    completed := fun id complete => by
      obtain ⟨maker, stored, own⟩ := ledger.completed id complete
      exact ⟨maker, List.mem_append_left _ stored, own⟩ }

theorem round (built : g.Built) (linked : g.Linked) (ledger : Ledger c g group s log) (r : Round)
    (handed : s.next c g group = .ok (some (r.wave, s'))) :
    Ledger c g group s' (log ++ r.events) := by
  have submitted := (ledger.submitted built linked (.ok ()) handed).quiet
    ((Round.quiet_looks r.waits).append r.quiet_readings)
  rwa [List.append_assoc] at submitted

/-- The jobs that have succeeded are put in place. -/
theorem advances (built : g.Built) (linked : g.Linked) {committer : Committer (StateM σ)} {r : Round}
    {result : Except Error Unit} (ledger : Ledger c g group s log)
    (advances : Advances committer c g group s log r result s' log') : Ledger c g group s' log' := by
  have tally := ledger.toTally.advances advances
  obtain ⟨next, result, accepted, events, handed, asked⟩ := advances
  have rounded := ledger.round built linked r handed
  have distinct : r.wave.jobIds.Nodup := by
    obtain ⟨_, _, made, _⟩ := Schedule.next_made handed
    rw [show r.wave.jobIds = _ from (Schedule.jobs_made made).1]
    exact List.nodup_range'
  have same : submittedJobs (log ++ (r.events ++ events)) = submittedJobs (log ++ r.events) := by
    have none : events.filterMap Event.submitted? = [] := by
      refine List.filterMap_eq_nil_iff.mpr fun e member => ?_
      obtain ⟨job, _, answer, rfl⟩ := asked.exists_job member
      rfl
    rw [← List.append_assoc, submittedJobs, List.filterMap_append, none, List.append_nil, submittedJobs]
  exact {
    toTally := tally
    orderly := by
      rw [← List.append_assoc]
      refine rounded.orderly.append (.of_forall fun before e member => ?_)
      obtain ⟨job, tried, answer, rfl⟩ := asked.exists_job member
      obtain ⟨among, listed⟩ := List.mem_filter.mp tried
      exact ⟨r, ⟨log, before, rfl⟩, r.exists_reading distinct among (by simpa using listed)⟩
    made := by
      rw [same]
      exact rounded.made
    scheduled := by
      rw [same]
      intro job member id own
      rw [(Schedule.foldl_complete accepted _).1]
      exact rounded.scheduled job member id own
    once := by
      rw [same]
      exact rounded.once
    completed := by
      intro id complete
      rcases ((Schedule.foldl_complete accepted _).2.2.2.2 id).mp complete with
        old | ⟨job, stored, own⟩
      · obtain ⟨maker, stored, own⟩ := rounded.completed id old
        rw [← List.append_assoc]
        exact ⟨maker, List.mem_append_left _ stored, own⟩
      · have placed : job ∈ events.filterMap Event.placed? := asked.placed.symm ▸ stored
        obtain ⟨e, member, is⟩ := List.mem_filterMap.mp placed
        refine ⟨job, List.mem_append_right _ (List.mem_append_right _ ?_), own⟩
        exact Event.eq_store_of_placed? is ▸ member }

theorem kept_ledger (built : g.Built) (linked : g.Linked) (committer : Committer (StateM σ))
    (c : RunConfig) (group : String) : Kept committer c g group (Ledger c g group) where
  quiet _ _ _ ledger events := ledger.quiet events
  submitted _ _ _ _ answer ledger handed := ledger.submitted built linked answer handed
  advances _ _ _ _ _ _ ledger advances := Ledger.advances built linked ledger advances

end Ledger

end Wavefront
