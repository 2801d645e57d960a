import Mathlib.Data.List.Pairwise
import Wavefront.Proofs.Run.History
import Wavefront.Proofs.Run.Readiness
set_option autoImplicit false

/-!
What holds at any time of a run. A schedule and the record of what has happened to it agree: each
call keeps them in agreement, whatever the committer answers, so they agree after every run.
-/
namespace Wavefront.History

variable {σ : Type} {c : RunConfig} {g : Graph} {committer : Committer (StateM σ)} {h : History σ}

/-- A schedule agrees with what has happened to it. -/
structure Consistent (g : Graph) (h : History σ) : Prop where
  seqs : h.waves.map Wave.seq = List.range h.waves.length
  nextSeq : h.schedule.nextSeq = h.waves.length
  jobIds : h.waves.flatMap Wave.jobIds = List.range h.schedule.nextJob
  once : h.placed.Nodup
  known : ∀ id ∈ h.placed, id < g.nodes.length
  scheduled : ∀ id, id ∈ h.schedule.scheduled.toList ↔ id ∈ h.placed
  committed : ∀ seq, seq ∈ h.schedule.committed.toList ↔
    ∃ commit ∈ h.commits, commit.1.seq = seq
  returned : ∀ commit ∈ h.commits, commit.1 ∈ h.waves
  /-- Only the last wave may be uncommitted. -/
  settled : ∀ k, k + 1 < h.waves.length → k ∈ h.schedule.committed.toList
  /-- While a wave is uncommitted, no node is ready. -/
  waits : (∀ k < h.waves.length, k ∈ h.schedule.committed.toList) ∨ h.schedule.ready g = []
  attempts : ∀ a ∈ h.attempts, ∃ wave ∈ h.waves, a.job ∈ wave.jobs ∧
    ∃ succeeded, h.firstCommit? wave.seq = some succeeded ∧ a.job.id ∈ succeeded
  tried : (h.attempts.map fun a => a.job.id).Nodup
  completed : ∀ id, id ∈ h.schedule.completed.toList ↔
    ∃ a ∈ h.attempts, a.accepted = true ∧ id ∈ a.job.nodes

theorem start_consistent (g : Graph) (world : σ) : Consistent g (start world) := by
  refine ⟨rfl, rfl, rfl, .nil, ?_, ?_, ?_, ?_, ?_, ?_, ?_, .nil, ?_⟩ <;>
    simp [start, Schedule.start, SortedSet.empty, placed]

theorem firstCommit?_append {seq : Nat} {succeeded : List Nat}
    (known : h.firstCommit? seq = some succeeded) (commit : Wave × List Nat) :
    { h with commits := h.commits ++ [commit] }.firstCommit? seq = some succeeded := by
  obtain ⟨first, found, rfl⟩ := Option.map_eq_some_iff.mp known
  rw [firstCommit?, List.find?_append, found]
  rfl

namespace Consistent

theorem getElem?_seq (consistent : Consistent g h) {wave : Wave} (member : wave ∈ h.waves) :
    h.waves[wave.seq]? = some wave := by
  obtain ⟨position, there⟩ := List.mem_iff_getElem?.mp member
  have inside := (List.getElem?_eq_some_iff.mp there).1
  have number : wave.seq = position := by
    have both := congrArg (·[position]?) consistent.seqs
    simpa only [List.getElem?_map, there, Option.map_some, List.getElem?_range inside,
      Option.some.injEq] using both
  rwa [number]

theorem firstCommit?_isSome (consistent : Consistent g h) {seq : Nat} :
    (h.firstCommit? seq).isSome = true ↔ seq ∈ h.schedule.committed.toList := by
  rw [consistent.committed]
  simp [firstCommit?, Option.isSome_map, List.find?_isSome]

theorem jobIds_nodup (consistent : Consistent g h) : (h.waves.flatMap Wave.jobIds).Nodup := by
  rw [consistent.jobIds]
  exact List.nodup_range

theorem wave_eq_of_job (consistent : Consistent g h) {first second : Wave} (left : first ∈ h.waves)
    (right : second ∈ h.waves) {id : Nat} (inFirst : id ∈ first.jobIds)
    (inSecond : id ∈ second.jobIds) : first = second := by
  have apart := (List.nodup_flatMap.mp consistent.jobIds_nodup).2
  by_contra different
  have symmetric : Std.Symm (Function.onFun List.Disjoint Wave.jobIds) :=
    ⟨fun _ _ disjoint _ right left => disjoint left right⟩
  exact apart.forall left right different inFirst inSecond

theorem elsewhere (consistent : Consistent g h) (world : σ) (temporaries : List Job) :
    Consistent g { h with schedule := { h.schedule with temporaries }, world } :=
  ⟨consistent.seqs, consistent.nextSeq, consistent.jobIds, consistent.once, consistent.known,
    consistent.scheduled, consistent.committed, consistent.returned, consistent.settled,
    consistent.waits, consistent.attempts, consistent.tried, consistent.completed⟩

/-- A wave that is returned takes what is ready, so nothing is ready until it is committed. -/
theorem next_some (built : g.Built) (consistent : Consistent g h) {group : String} {wave : Wave}
    {s' : Schedule} (answer : h.schedule.next c g group = .ok (some (wave, s'))) :
    Consistent g { h with schedule := s', waves := h.waves ++ [wave] } := by
  obtain ⟨some, seq, ids, parts, rfl⟩ := Schedule.next_eq_some built answer
  have nodes : wave.jobs.flatMap Job.nodes = h.schedule.ready g := by
    rw [List.flatMap_def, parts, ← List.flatMap_def, List.flatMap_singleton']
  have all : ∀ k < h.waves.length, k ∈ h.schedule.committed.toList :=
    consistent.waits.resolve_right some
  have grown : ((h.waves ++ [wave]).flatMap fun wave => wave.jobs.flatMap Job.nodes) =
      h.placed ++ h.schedule.ready g := by
    rw [List.flatMap_append, List.flatMap_singleton, nodes]
    rfl
  have length : (h.waves ++ [wave]).length = h.waves.length + 1 := by simp
  refine ⟨?_, ?_, ?_, ?_, ?_, ?_, consistent.committed, ?_, ?_, .inr ?_, ?_, consistent.tried,
    consistent.completed⟩
  · show (h.waves ++ [wave]).map Wave.seq = List.range (h.waves ++ [wave]).length
    rw [length, List.range_succ, List.map_append, consistent.seqs, List.map_singleton, seq,
      consistent.nextSeq]
  · show h.schedule.nextSeq + 1 = (h.waves ++ [wave]).length
    rw [length, consistent.nextSeq]
  · show (h.waves ++ [wave]).flatMap Wave.jobIds =
      List.range (h.schedule.nextJob + wave.jobs.length)
    rw [List.flatMap_append, consistent.jobIds, List.flatMap_singleton, ids,
      List.range_eq_range', List.range_eq_range', ← List.range'_append_1, Nat.zero_add]
  · show ((h.waves ++ [wave]).flatMap fun wave => wave.jobs.flatMap Job.nodes).Nodup
    rw [grown]
    refine List.nodup_append.mpr ⟨consistent.once, ?_, ?_⟩
    · exact (Schedule.ready_ascending built h.schedule).imp Nat.ne_of_lt
    · rintro id before _ now rfl
      exact ((Schedule.mem_ready built).mp now).2.1 ((consistent.scheduled id).mpr before)
  · intro id member
    have among : id ∈ h.placed ++ h.schedule.ready g := by
      rw [← grown]
      exact member
    rcases List.mem_append.mp among with before | now
    · exact consistent.known id before
    · exact ((Schedule.mem_ready built).mp now).1
  · intro id
    show id ∈ (h.schedule.scheduled.insertAll (h.schedule.ready g)).toList ↔
      id ∈ (h.waves ++ [wave]).flatMap fun wave => wave.jobs.flatMap Job.nodes
    rw [grown, SortedSet.mem_insertAll, List.mem_append, consistent.scheduled, or_comm]
  · intro commit member
    exact List.mem_append_left _ (consistent.returned commit member)
  · intro k before
    exact all k (by simpa using before)
  -- What was ready is in the wave, and nothing has been completed since.
  · apply List.eq_nil_iff_forall_not_mem.mpr
    intro id member
    obtain ⟨inside, fresh, complete⟩ := (Schedule.mem_ready built).mp member
    have old : id ∉ h.schedule.scheduled.toList := fun before =>
      fresh (SortedSet.mem_insertAll.mpr (.inr before))
    have ready : id ∈ h.schedule.ready g := (Schedule.mem_ready built).mpr ⟨inside, old, complete⟩
    exact fresh (SortedSet.mem_insertAll.mpr (.inl ready))
  · intro a member
    obtain ⟨other, among, job, first⟩ := consistent.attempts a member
    exact ⟨other, List.mem_append_left _ among, job, first⟩

theorem returned_append (consistent : Consistent g h) {wave : Wave} (member : wave ∈ h.waves)
    (succeeded : List Nat) : ∀ commit ∈ h.commits ++ [(wave, succeeded)], commit.1 ∈ h.waves := by
  intro commit among
  rcases List.mem_append.mp among with old | new
  · exact consistent.returned commit old
  · rw [List.mem_singleton.mp new]
    exact member

theorem attempts_append (consistent : Consistent g h) (commit : Wave × List Nat) :
    ∀ a ∈ h.attempts, ∃ wave ∈ h.waves, a.job ∈ wave.jobs ∧ ∃ succeeded,
      { h with commits := h.commits ++ [commit] }.firstCommit? wave.seq = some succeeded ∧
        a.job.id ∈ succeeded := by
  intro a among
  obtain ⟨wave, there, job, succeeded, first, listed⟩ := consistent.attempts a among
  exact ⟨wave, there, job, succeeded, firstCommit?_append first commit, listed⟩

/-- Committing a wave again adds to the record of commits only. -/
theorem commit_again (consistent : Consistent g h) {wave : Wave} (member : wave ∈ h.waves)
    (before : wave.seq ∈ h.schedule.committed.toList) (succeeded : List Nat) :
    Consistent g { h with commits := h.commits ++ [(wave, succeeded)] } where
  seqs := consistent.seqs
  nextSeq := consistent.nextSeq
  jobIds := consistent.jobIds
  once := consistent.once
  known := consistent.known
  scheduled := consistent.scheduled
  committed seq := by
    simp only [List.mem_append, List.mem_singleton, or_and_right, exists_or, exists_eq_left]
    rw [← consistent.committed]
    exact ⟨.inl, fun either => either.elim id fun same => same ▸ before⟩
  returned := consistent.returned_append member succeeded
  settled := consistent.settled
  waits := consistent.waits
  attempts := consistent.attempts_append (wave, succeeded)
  tried := consistent.tried
  completed := consistent.completed

/-- A wave that is committed first was the last to be returned, and all are committed then. -/
theorem committed_all (consistent : Consistent g h) {wave : Wave} (member : wave ∈ h.waves)
    (fresh : wave.seq ∉ h.schedule.committed.toList) :
    ∀ k < h.waves.length, k ∈ (h.schedule.committed.insert wave.seq).toList := by
  have inside := (List.getElem?_eq_some_iff.mp (consistent.getElem?_seq member)).1
  have last : ¬ wave.seq + 1 < h.waves.length := fun before =>
    fresh (consistent.settled wave.seq before)
  intro k lower
  rw [SortedSet.mem_insert]
  by_cases same : k = wave.seq
  · exact .inl same
  · exact .inr (consistent.settled k (by omega))

/-- The numbers of the jobs that are tried in a first commit are new. -/
theorem tried_append (consistent : Consistent g h) {wave : Wave} (member : wave ∈ h.waves)
    (fresh : wave.seq ∉ h.schedule.committed.toList) {succeeded : List Nat}
    {accepted refused : List Job}
    (tried : Tried (wave.jobs.filter fun job => succeeded.contains job.id) accepted refused) :
    ((h.attempts ++ record accepted refused).map fun a => a.job.id).Nodup := by
  have own : wave.jobIds.Nodup := (List.nodup_flatMap.mp consistent.jobIds_nodup).1 wave member
  have ids : (record accepted refused).map (fun a => a.job.id) =
      (accepted ++ refused).map Job.id := by
    simp only [record, List.map_append, List.map_map]
    rfl
  have part : ((accepted ++ refused).map Job.id).Sublist wave.jobIds :=
    (tried.asked.sublist.trans List.filter_sublist).map Job.id
  rw [List.map_append, ids]
  refine List.nodup_append.mpr ⟨consistent.tried, part.nodup own, ?_⟩
  rintro id before _ now rfl
  obtain ⟨a, among, rfl⟩ := List.mem_map.mp before
  obtain ⟨other, there, job, listed, first, _⟩ := consistent.attempts a among
  have same := consistent.wave_eq_of_job there member (List.mem_map_of_mem job) (part.subset now)
  subst same
  exact fresh (consistent.firstCommit?_isSome.mp (by rw [first]; rfl))

/-- What is attempted in a first commit is of the wave and was said to have succeeded. -/
theorem attempts_first (consistent : Consistent g h) {wave : Wave} (member : wave ∈ h.waves)
    (fresh : wave.seq ∉ h.schedule.committed.toList) {succeeded : List Nat}
    {accepted refused : List Job}
    (tried : Tried (wave.jobs.filter fun job => succeeded.contains job.id) accepted refused) :
    ∀ a ∈ h.attempts ++ record accepted refused, ∃ other ∈ h.waves, a.job ∈ other.jobs ∧
      ∃ listed, { h with commits := h.commits ++ [(wave, succeeded)] }.firstCommit? other.seq =
        some listed ∧ a.job.id ∈ listed := by
  intro a among
  rcases List.mem_append.mp among with old | new
  · exact consistent.attempts_append (wave, succeeded) a old
  · have asked : a.job ∈ accepted ++ refused := by
      simp only [record, List.mem_append, List.mem_map] at new
      rcases new with ⟨job, inAccepted, rfl⟩ | ⟨job, inRefused, rfl⟩
      · exact List.mem_append_left _ inAccepted
      · exact List.mem_append_right _ inRefused
    obtain ⟨job, listed⟩ := List.mem_filter.mp (tried.asked.subset asked)
    refine ⟨wave, member, job, succeeded, ?_, by simpa using listed⟩
    have unknown : h.commits.find? (fun commit => commit.1.seq == wave.seq) = none := by
      refine List.find?_eq_none.mpr fun commit there same => fresh ?_
      exact (consistent.committed wave.seq).mpr ⟨commit, there, by simpa using same⟩
    rw [firstCommit?, List.find?_append, unknown]
    simp

/-- Committing a wave first completes the nodes of the jobs that are accepted. -/
theorem commit_first (consistent : Consistent g h) {wave : Wave} (member : wave ∈ h.waves)
    (fresh : wave.seq ∉ h.schedule.committed.toList) {succeeded : List Nat}
    {accepted refused : List Job}
    (tried : Tried (wave.jobs.filter fun job => succeeded.contains job.id) accepted refused)
    (world : σ) :
    Consistent g
      { schedule := accepted.foldl Schedule.complete
          { h.schedule with committed := h.schedule.committed.insert wave.seq }
        world
        attempts := h.attempts ++ record accepted refused
        waves := h.waves
        commits := h.commits ++ [(wave, succeeded)] } := by
  let marked : Schedule := { h.schedule with committed := h.schedule.committed.insert wave.seq }
  obtain ⟨scheduled, committed, nextJob, nextSeq, completed⟩ :=
    Schedule.foldl_complete accepted marked
  have all := consistent.committed_all member fresh
  refine ⟨consistent.seqs, nextSeq.trans consistent.nextSeq, ?_, consistent.once,
    consistent.known, ?_, ?_, consistent.returned_append member succeeded, ?_, .inl ?_,
    consistent.attempts_first member fresh tried, consistent.tried_append member fresh tried, ?_⟩
  · exact consistent.jobIds.trans (congrArg List.range nextJob.symm)
  · intro id
    show id ∈ (accepted.foldl Schedule.complete marked).scheduled.toList ↔ _
    rw [scheduled]
    exact consistent.scheduled id
  · intro seq
    show seq ∈ (accepted.foldl Schedule.complete marked).committed.toList ↔
      ∃ commit ∈ h.commits ++ [(wave, succeeded)], commit.1.seq = seq
    rw [committed]
    simp only [marked, SortedSet.mem_insert, consistent.committed, List.mem_append,
      List.mem_singleton, or_and_right, exists_or, exists_eq_left]
    rw [or_comm, eq_comm]
  · intro k before
    show k ∈ (accepted.foldl Schedule.complete marked).committed.toList
    rw [committed]
    exact all k (Nat.lt_of_succ_lt before)
  · intro k lower
    show k ∈ (accepted.foldl Schedule.complete marked).committed.toList
    rw [committed]
    exact all k lower
  · intro id
    show id ∈ (accepted.foldl Schedule.complete marked).completed.toList ↔
      ∃ a ∈ h.attempts ++ record accepted refused, a.accepted = true ∧ id ∈ a.job.nodes
    rw [completed]
    simp only [marked, consistent.completed, record, List.mem_append, List.mem_map,
      or_and_right, exists_or]
    simp

/-- Every call keeps a history consistent. -/
theorem after (built : g.Built) (consistent : Consistent g h) (call : Call σ) :
    Consistent g (h.after c g committer call) := by
  cases call with
  | next group =>
    rw [History.after, next_eq]
    cases answer : h.schedule.next c g group with
    | error e => exact consistent
    | ok found =>
      cases found with
      | none => exact consistent
      | some pair => exact consistent.next_some built answer
  | commit position succeeded =>
    rw [History.after]
    cases there : h.waves[position]? with
    | none => exact consistent
    | some wave =>
      have member := List.mem_of_getElem? there
      show Consistent g (h.commit c committer wave succeeded).2
      by_cases before : h.schedule.committed.contains wave.seq = true
      · rw [History.commit_again succeeded before]
        exact consistent.commit_again member (by simpa [SortedSet.contains] using before) succeeded
      · rw [Bool.not_eq_true] at before
        obtain ⟨world, accepted, refused, tried, changed⟩ :=
          @History.commit_first σ c committer h wave succeeded before
        rw [changed]
        exact consistent.commit_first member
          (by simpa [SortedSet.contains] using before) tried world
  | cleanup =>
    obtain ⟨world, changed⟩ := h.cleanup_eq c committer
    rw [History.after, changed]
    exact consistent.elsewhere world []
  | meanwhile change => exact consistent.elsewhere (change h.world) h.schedule.temporaries

theorem size_eq_iff (built : g.Built) (consistent : Consistent g h) :
    h.schedule.scheduled.size = g.nodes.length ↔
      ∀ n ∈ g.nodes, n.id ∈ h.schedule.scheduled.toList :=
  Schedule.size_eq_iff built fun id member => consistent.known id ((consistent.scheduled id).mp member)

end Consistent

/-- The history of every run is consistent. -/
theorem ofCalls_consistent (built : g.Built) (c : RunConfig) (committer : Committer (StateM σ))
    (world : σ) (calls : List (Call σ)) : Consistent g (ofCalls c g committer world calls) := by
  have whole : ∀ h, Consistent g h → Consistent g (calls.foldl (after c g committer) h) := by
    induction calls with
    | nil => exact fun h consistent => consistent
    | cons call rest ih => exact fun h consistent => ih _ (consistent.after built call)
  exact whole _ (start_consistent g world)

end Wavefront.History
