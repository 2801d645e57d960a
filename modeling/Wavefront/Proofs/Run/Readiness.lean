import Wavefront.Proofs.Graph.Order
import Wavefront.Proofs.Traversal
import Wavefront.Run.Schedule
set_option autoImplicit false

/-!
What a schedule returns. A wave takes the nodes that are ready, in their order, one job a node;
there is none exactly if as many nodes have had their wave as the graph has. A graph has no cycle,
so a node is ready as long as some are left and all that have had their wave are complete.
-/
namespace Wavefront.Schedule

variable {s s' : Schedule} {c : RunConfig} {g : Graph} {group : String}

theorem isReady_iff {id : Nat} : s.isReady g id = true ↔
    id ∉ s.scheduled.toList ∧
      ∀ producer ∈ g.predecessors id, producer ∈ s.completed.toList := by
  simp [isReady, SortedSet.contains]

theorem mem_ready (built : g.Built) {id : Nat} : id ∈ s.ready g ↔
    id < g.nodes.length ∧ id ∉ s.scheduled.toList ∧
      ∀ producer ∈ g.predecessors id, producer ∈ s.completed.toList := by
  rw [ready, built.numbered.map_id, List.mem_filter, List.mem_range, isReady_iff]

theorem ready_ascending (built : g.Built) (s : Schedule) : (s.ready g).Pairwise (· < ·) := by
  rw [ready, built.numbered.map_id]
  exact List.pairwise_lt_range.filter _

theorem materialize_eq_ok {n : Node} {done : SortedSet Nat} {id : Nat} {job : Job}
    (made : n.materialize c g.scope done group id = .ok job) : job = n.job c g.scope group id := by
  unfold Node.materialize at made
  split at made
  · cases made
  · exact (Except.ok.inj made).symm

/-- The jobs of a wave are numbered in a row, and each is made for its node. -/
theorem jobs_made {nodes : List Nat} {id : Nat} {jobs : List Job}
    (made : s.jobs c g group id nodes = .ok jobs) :
    jobs.map Job.id = List.range' id jobs.length ∧
      List.Forall₂ (fun node job => ∃ n, g.nodes[node]? = some n ∧
        job = n.job c g.scope group job.id) nodes jobs := by
  induction nodes generalizing id jobs with
  | nil =>
    cases made
    exact ⟨rfl, .nil⟩
  | cons node rest ih =>
    rw [Schedule.jobs] at made
    cases there : g.node? node with
    | none =>
      rw [there] at made
      cases made
    | some n =>
      simp only [there, bind, Except.bind] at made
      cases first : n.materialize c g.scope s.completed group id with
      | error e => simp [first] at made
      | ok job =>
        cases others : s.jobs c g group (id + 1) rest with
        | error e => simp [first, others] at made
        | ok later =>
          simp only [first, others, pure, Except.pure, Except.ok.injEq] at made
          subst made
          obtain ⟨ids, parts⟩ := ih others
          obtain rfl := materialize_eq_ok first
          refine ⟨?_, .cons ⟨n, there, rfl⟩ parts⟩
          rw [List.map_cons, ids, List.length_cons, List.range'_succ]
          rfl

theorem jobs_spec (built : g.Built) {nodes : List Nat} {id : Nat} {jobs : List Job}
    (made : s.jobs c g group id nodes = .ok jobs) :
    jobs.map Job.id = List.range' id jobs.length ∧ jobs.map Job.nodes = nodes.map ([·]) := by
  obtain ⟨ids, parts⟩ := jobs_made made
  refine ⟨ids, Traversal.map_eq_of_forall₂ (fun node job own => ?_) parts⟩
  obtain ⟨n, there, own⟩ := own
  rw [own, ← built.numbered node n there]
  rfl

/-- A wave is made of the nodes that are ready. -/
theorem next_made {wave : Wave} (found : s.next c g group = .ok (some (wave, s'))) :
    s.ready g ≠ [] ∧ wave.seq = s.nextSeq ∧ s.jobs c g group s.nextJob (s.ready g) = .ok wave.jobs ∧
      s' = { s with
        scheduled := s.scheduled.insertAll (s.ready g)
        nextJob := s.nextJob + wave.jobs.length
        nextSeq := s.nextSeq + 1 } := by
  unfold next at found
  split at found
  · cases found
  · dsimp only at found
    split at found
    · cases found
    · rename_i some
      cases made : s.jobs c g group s.nextJob (s.ready g) with
      | error e => simp [made, bind, Except.bind] at found
      | ok jobs =>
        simp only [made, bind, Except.bind, pure, Except.pure, Except.ok.injEq, Option.some.injEq,
          Prod.mk.injEq] at found
        obtain ⟨rfl, rfl⟩ := found
        exact ⟨by simpa using some, rfl, rfl, rfl⟩

/-- A wave belongs to the group it was asked for. -/
theorem next_group {wave : Wave} (found : s.next c g group = .ok (some (wave, s'))) :
    wave.group = group := by
  unfold next at found
  split at found
  · cases found
  · dsimp only at found
    split at found
    · cases found
    · obtain ⟨jobs, _, found⟩ := Traversal.bind_eq_ok.mp found
      cases found
      rfl

/-- A wave takes all that is ready. -/
theorem next_eq_some (built : g.Built) {wave : Wave}
    (found : s.next c g group = .ok (some (wave, s'))) :
    s.ready g ≠ [] ∧ wave.seq = s.nextSeq ∧
      wave.jobIds = List.range' s.nextJob wave.jobs.length ∧
      wave.jobs.map Job.nodes = (s.ready g).map ([·]) ∧
      s' = { s with
        scheduled := s.scheduled.insertAll (s.ready g)
        nextJob := s.nextJob + wave.jobs.length
        nextSeq := s.nextSeq + 1 } := by
  obtain ⟨some, seq, made, after⟩ := next_made found
  obtain ⟨ids, parts⟩ := jobs_spec built made
  exact ⟨some, seq, ids, parts, after⟩

theorem next_eq_none : s.next c g group = .ok none ↔ s.scheduled.size = g.nodes.length := by
  unfold next
  split
  · simp [*]
  · rename_i left
    simp only [left, iff_false]
    split
    · simp
    · cases s.jobs c g group s.nextJob (s.ready g) <;> simp [bind, Except.bind, pure, Except.pure]

/-- All nodes have had their wave once there are as many as the graph has. -/
theorem size_eq_iff (built : g.Built) (known : ∀ id ∈ s.scheduled.toList, id < g.nodes.length) :
    s.scheduled.size = g.nodes.length ↔ ∀ n ∈ g.nodes, n.id ∈ s.scheduled.toList := by
  have distinct : s.scheduled.toList.Nodup := s.scheduled.ascending.imp Nat.ne_of_lt
  have within : s.scheduled.toList.Subperm (List.range g.nodes.length) :=
    List.subperm_of_subset distinct fun id member => List.mem_range.mpr (known id member)
  constructor
  · intro size n member
    have perm := within.perm_of_length_le (by rw [List.length_range]; exact Nat.le_of_eq size.symm)
    rw [perm.mem_iff, List.mem_range]
    exact built.id_lt member
  · intro all
    have back : (List.range g.nodes.length).Subperm s.scheduled.toList := by
      apply List.subperm_of_subset List.nodup_range
      intro id inside
      have there := List.getElem?_eq_getElem (List.mem_range.mp inside)
      exact built.numbered id _ there ▸ all _ (List.mem_of_getElem? there)
    have upper := within.length_le
    have lower := back.length_le
    rw [List.length_range] at upper lower
    exact Nat.le_antisymm upper lower

/-- As long as all that has had its wave is complete, a node that has not had one is ready: the
first of these in the order of the graph. -/
theorem ready_ne_nil (built : g.Built)
    (complete : ∀ id ∈ s.scheduled.toList, id ∈ s.completed.toList) {id : Nat}
    (inside : id < g.nodes.length) (left : id ∉ s.scheduled.toList) : s.ready g ≠ [] := by
  obtain ⟨order, sorted⟩ := built.sorted
  obtain ⟨greedy, perm⟩ := built.greedy_of_order sorted
  have member : id ∈ order := perm.mem_iff.mpr (List.mem_range.mpr inside)
  obtain ⟨first, found⟩ :
      ∃ first, order.find? (fun v => decide (v ∉ s.scheduled.toList)) = some first := by
    rw [← Option.isSome_iff_exists, List.find?_isSome]
    exact ⟨id, member, by simpa using left⟩
  obtain ⟨fresh, before, after, rfl, earlier⟩ := List.find?_eq_some_iff_append.mp found
  have vertex : first < g.nodes.length := List.mem_range.mp (perm.mem_iff.mp (by simp))
  have ready : first ∈ s.ready g := by
    refine (mem_ready built).mpr ⟨vertex, by simpa using fresh, fun producer reads => ?_⟩
    have edge := Graph.mem_successors.mpr (Graph.mem_predecessors.mp reads)
    have among := greedy.mem_before built.covered (built.lt_of_mem_predecessors reads) edge
    exact complete producer (by simpa using earlier producer among)
  exact List.ne_nil_of_mem ready

/-- Jobs are refused for what keeps their nodes from becoming jobs only. -/
theorem jobs_error (built : g.Built) {nodes : List Nat} {id : Nat} {e : Error}
    (inside : ∀ node ∈ nodes, node < g.nodes.length)
    (failed : s.jobs c g group id nodes = .error e) :
    ∃ n ∈ g.nodes, ∃ fault, n.id ∈ nodes ∧ n.jobFault? c s.completed group = some fault ∧
      e = .job n.id fault := by
  induction nodes generalizing id with
  | nil => simp [Schedule.jobs] at failed
  | cons node rest ih =>
    obtain ⟨n, there⟩ : ∃ n, g.nodes[node]? = some n :=
      ⟨_, List.getElem?_eq_getElem (inside node List.mem_cons_self)⟩
    have number : n.id = node := built.numbered node n there
    rw [Schedule.jobs, Graph.node?, there] at failed
    simp only [bind, Except.bind] at failed
    cases first : n.materialize c g.scope s.completed group id with
    | error e' =>
      simp only [first, Except.error.injEq] at failed
      subst failed
      unfold Node.materialize at first
      split at first
      · rename_i fault refused
        exact ⟨n, List.mem_of_getElem? there, fault, by simp [number], refused,
          (Except.error.inj first).symm⟩
      · cases first
    | ok job =>
      cases others : s.jobs c g group (id + 1) rest with
      | error e' =>
        simp only [first, others, Except.error.injEq] at failed
        subst failed
        obtain ⟨other, among, fault, later, refused, same⟩ :=
          ih (fun id member => inside id (List.mem_cons_of_mem _ member)) others
        exact ⟨other, among, fault, List.mem_cons_of_mem _ later, refused, same⟩
      | ok later => simp [first, others, pure, Except.pure] at failed

/-- A wave is refused where nodes are left and none is ready, or for what keeps a node that is ready
from becoming a job. -/
theorem next_error (built : g.Built) {e : Error} (failed : s.next c g group = .error e) :
    s.scheduled.size ≠ g.nodes.length ∧
      (s.ready g = [] ∧ e = .invariant (.noneReady (g.nodes.length - s.scheduled.size)) ∨
        ∃ n ∈ g.nodes, ∃ fault, n.id ∈ s.ready g ∧ n.jobFault? c s.completed group = some fault ∧
          e = .job n.id fault) := by
  unfold next at failed
  split at failed
  · cases failed
  · rename_i unfinished
    refine ⟨unfinished, ?_⟩
    dsimp only at failed
    split at failed
    · rename_i empty
      exact .inl ⟨by simpa using empty, (Except.error.inj failed).symm⟩
    · cases made : s.jobs c g group s.nextJob (s.ready g) with
      | error e' =>
        simp only [made, bind, Except.bind, Except.error.injEq] at failed
        subst failed
        exact .inr (jobs_error built (fun id member => ((mem_ready built).mp member).1) made)
      | ok jobs => simp [made, bind, Except.bind, pure, Except.pure] at failed

/-- A run is stuck exactly where nodes are left and none is ready. -/
theorem next_eq_stuck (built : g.Built) {left : Nat} :
    s.next c g group = .error (.invariant (.noneReady left)) ↔
      s.scheduled.size ≠ g.nodes.length ∧ s.ready g = [] ∧
        left = g.nodes.length - s.scheduled.size := by
  constructor
  · intro stuck
    obtain ⟨unfinished, ⟨empty, same⟩ | ⟨n, _, fault, _, _, same⟩⟩ := next_error built stuck
    · cases same
      exact ⟨unfinished, empty, rfl⟩
    · cases same
  · rintro ⟨unfinished, empty, rfl⟩
    simp [next, unfinished, empty]

/-- Accepted jobs complete their nodes and change nothing else but what is temporary. -/
theorem foldl_complete (accepted : List Job) (s : Schedule) :
    (accepted.foldl complete s).scheduled = s.scheduled ∧
      (accepted.foldl complete s).committed = s.committed ∧
      (accepted.foldl complete s).nextJob = s.nextJob ∧
      (accepted.foldl complete s).nextSeq = s.nextSeq ∧
      ∀ id, id ∈ (accepted.foldl complete s).completed.toList ↔
        id ∈ s.completed.toList ∨ ∃ job ∈ accepted, id ∈ job.nodes := by
  induction accepted generalizing s with
  | nil => simp
  | cons job rest ih =>
    obtain ⟨scheduled, committed, nextJob, nextSeq, completed⟩ := ih (s.complete job)
    refine ⟨scheduled, committed, nextJob, nextSeq, fun id => ?_⟩
    rw [List.foldl_cons, completed, complete, SortedSet.mem_insertAll]
    simp only [List.mem_cons, exists_eq_or_imp]
    tauto

theorem temporaries_foldl_complete (accepted : List Job) (s : Schedule) :
    (accepted.foldl complete s).temporaries = s.temporaries ++ accepted.filter Job.temporary := by
  induction accepted generalizing s with
  | nil => exact (List.append_nil _).symm
  | cons job rest ih =>
    rw [List.foldl_cons, ih, complete]
    cases temporary : job.temporary <;> simp [temporary]

end Wavefront.Schedule
