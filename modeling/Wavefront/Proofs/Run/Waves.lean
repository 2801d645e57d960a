import Wavefront.Proofs.Run.Consistency
set_option autoImplicit false

/-!
What every run can rely on. Main statement: whatever a run asks for and however the committer
answers, no node is in two waves, a wave takes exactly the nodes that are ready, jobs and waves are
numbered without gaps, and the nodes that are complete are those whose job was committed, once, with
success.
-/
namespace Wavefront.History

variable {σ : Type} {c : RunConfig} {g : Graph} {committer : Committer (StateM σ)} {h : History σ}

/-- A wave that may be returned: it has one job for each node that is ready, and no wave before it
is still to be committed. -/
structure IsNext (g : Graph) (h : History σ) (wave : Wave) : Prop where
  nodes : ∃ ids : List Nat, ids ≠ [] ∧ ids.Pairwise (· < ·) ∧
    wave.jobs.map Job.nodes = ids.map ([·]) ∧
    ∀ id, id ∈ ids ↔ (∃ n ∈ g.nodes, n.id = id) ∧ id ∉ h.schedule.scheduled.toList ∧
      ∀ producer ∈ g.predecessors id, producer ∈ h.schedule.completed.toList
  committed : ∀ earlier ∈ h.waves, ∃ succeeded, (earlier, succeeded) ∈ h.commits

/-- What a run can rely on. -/
structure Lawful (c : RunConfig) (g : Graph) (committer : Committer (StateM σ))
    (h : History σ) : Prop where
  /-- Every node has one wave at most. -/
  once : h.placed.Nodup
  scheduled : ∀ id, id ∈ h.schedule.scheduled.toList ↔ id ∈ h.placed
  completed_scheduled : ∀ id ∈ h.schedule.completed.toList, id ∈ h.schedule.scheduled.toList
  /-- Jobs and waves are numbered without gaps. -/
  jobIds : h.waves.flatMap Wave.jobIds = List.range h.schedule.nextJob
  seqs : h.waves.map Wave.seq = List.range h.waves.length
  /-- A node is complete if its job was listed when its wave was committed first, and accepted. -/
  completed : ∀ id, id ∈ h.schedule.completed.toList ↔
    ∃ wave ∈ h.waves, ∃ job ∈ wave.jobs, id ∈ job.nodes ∧
      (∃ succeeded, h.firstCommit? wave.seq = some succeeded ∧ job.id ∈ succeeded) ∧
        ⟨job, true⟩ ∈ h.attempts
  /-- The committer is asked once for a job. -/
  asked : (h.attempts.map Attempt.job).Nodup
  next_none : ∀ group, (h.next c g committer group).1 = .ok none ↔
    ∀ n ∈ g.nodes, n.id ∈ h.schedule.scheduled.toList
  next_some : ∀ group wave, (h.next c g committer group).1 = .ok (some wave) → IsNext g h wave
  /-- A run is stuck exactly where nodes are left and none of them is ready. -/
  next_stuck : ∀ group left,
    (h.next c g committer group).1 = .error (.invariant (.noneReady left)) ↔
    (∃ n ∈ g.nodes, n.id ∉ h.schedule.scheduled.toList) ∧
      (∀ n ∈ g.nodes, n.id ∉ h.schedule.scheduled.toList →
        ∃ producer ∈ g.predecessors n.id, producer ∉ h.schedule.completed.toList) ∧
      left = g.nodes.length - h.schedule.scheduled.size
  /-- As long as all that has had its wave is complete, a run is not stuck. -/
  next_ready : (∀ id ∈ h.schedule.scheduled.toList, id ∈ h.schedule.completed.toList) →
    ∀ group left, (h.next c g committer group).1 ≠ .error (.invariant (.noneReady left))
  /-- A wave that is refused changes nothing, also if a node cannot become a job. -/
  next_error : ∀ group e, (h.next c g committer group).1 = .error e →
    (h.next c g committer group).2 = h ∧
      ((∃ left, e = .invariant (.noneReady left)) ∨ ∃ n ∈ g.nodes, ∃ fault, e = .job n.id fault)
  /-- A wave that was committed is refused from then on. -/
  commit_again : ∀ wave earlier succeeded, (wave, earlier) ∈ h.commits →
    h.commit c committer wave succeeded =
      (.error (.invariant (.waveCommitted wave.seq)),
        { h with commits := h.commits ++ [(wave, succeeded)] })

theorem next_error_iff {group : String} {e : Error} :
    (h.next c g committer group).1 = .error e ↔ h.schedule.next c g group = .error e := by
  rw [next_eq]
  cases h.schedule.next c g group with
  | error e' => simp
  | ok found => cases found <;> simp

theorem next_some_iff {group : String} {wave : Wave} :
    (h.next c g committer group).1 = .ok (some wave) ↔
      ∃ s', h.schedule.next c g group = .ok (some (wave, s')) := by
  rw [next_eq]
  cases h.schedule.next c g group with
  | error e => simp
  | ok found =>
    cases found with
    | none => simp
    | some pair => simp [Prod.ext_iff]

theorem next_none_iff {group : String} :
    (h.next c g committer group).1 = .ok none ↔ h.schedule.next c g group = .ok none := by
  rw [next_eq]
  cases h.schedule.next c g group with
  | error e => simp
  | ok found => cases found <;> simp

namespace Consistent

/-- Every wave that was committed is among the commits. -/
theorem committed_of_seq (consistent : Consistent g h) {wave : Wave} (member : wave ∈ h.waves)
    (committed : wave.seq ∈ h.schedule.committed.toList) :
    ∃ succeeded, (wave, succeeded) ∈ h.commits := by
  obtain ⟨⟨other, succeeded⟩, among, same⟩ := (consistent.committed wave.seq).mp committed
  have there := consistent.getElem?_seq member
  have found := consistent.getElem?_seq (consistent.returned _ among)
  simp only at same found
  rw [same, there] at found
  cases found
  exact ⟨succeeded, among⟩

/-- A wave that is returned has all that is ready, and comes after all others were committed. -/
theorem isNext (built : g.Built) (consistent : Consistent g h) {group : String} {wave : Wave}
    {s' : Schedule} (answer : h.schedule.next c g group = .ok (some (wave, s'))) :
    IsNext g h wave := by
  obtain ⟨some, _, _, parts, _⟩ := Schedule.next_eq_some built answer
  constructor
  · refine ⟨h.schedule.ready g, some, Schedule.ready_ascending built h.schedule, parts,
      fun id => ?_⟩
    have exists_iff : (∃ n ∈ g.nodes, n.id = id) ↔ id < g.nodes.length := by
      rw [← List.mem_map, built.numbered.map_id, List.mem_range]
    rw [Schedule.mem_ready built, exists_iff]
  · intro earlier member
    have inside := (List.getElem?_eq_some_iff.mp (consistent.getElem?_seq member)).1
    exact consistent.committed_of_seq member (consistent.waits.resolve_right some _ inside)

/-- No node is ready exactly if all that are left read what is not complete. -/
theorem ready_eq_nil_iff (built : g.Built) : h.schedule.ready g = [] ↔
    ∀ n ∈ g.nodes, n.id ∉ h.schedule.scheduled.toList →
      ∃ producer ∈ g.predecessors n.id, producer ∉ h.schedule.completed.toList := by
  rw [List.eq_nil_iff_forall_not_mem]
  constructor
  · intro none n member fresh
    by_contra all
    push Not at all
    exact none n.id ((Schedule.mem_ready built).mpr ⟨built.id_lt member, fresh, all⟩)
  · intro each id ready
    obtain ⟨inside, fresh, complete⟩ := (Schedule.mem_ready built).mp ready
    have there := List.getElem?_eq_getElem inside
    have number := built.numbered id _ there
    obtain ⟨producer, reads, missing⟩ :=
      each _ (List.mem_of_getElem? there) (number.symm ▸ fresh)
    exact missing (complete producer (number ▸ reads))

/-- Nodes are left exactly if fewer have had their wave than the graph has. -/
theorem size_ne_iff (built : g.Built) (consistent : Consistent g h) :
    h.schedule.scheduled.size ≠ g.nodes.length ↔
      ∃ n ∈ g.nodes, n.id ∉ h.schedule.scheduled.toList := by
  rw [ne_eq, consistent.size_eq_iff built]
  push Not
  rfl

theorem lawful (built : g.Built) (consistent : Consistent g h) : Lawful c g committer h where
  once := consistent.once
  scheduled := consistent.scheduled
  completed_scheduled id complete := by
    obtain ⟨a, among, _, own⟩ := (consistent.completed id).mp complete
    obtain ⟨wave, there, job, _⟩ := consistent.attempts a among
    exact (consistent.scheduled id).mpr
      (List.mem_flatMap.mpr ⟨wave, there, List.mem_flatMap.mpr ⟨a.job, job, own⟩⟩)
  jobIds := consistent.jobIds
  seqs := consistent.seqs
  completed id := by
    rw [consistent.completed]
    constructor
    · rintro ⟨⟨job, accepted⟩, among, rfl, own⟩
      obtain ⟨wave, there, member, succeeded, first, listed⟩ := consistent.attempts _ among
      exact ⟨wave, there, job, member, own, ⟨succeeded, first, listed⟩, among⟩
    · rintro ⟨_, _, job, _, own, _, among⟩
      exact ⟨_, among, rfl, own⟩
  asked := by
    have ids := consistent.tried
    rw [← Function.comp_def Job.id Attempt.job, ← List.map_map] at ids
    exact ids.of_map Job.id
  next_none group := by
    rw [next_none_iff, Schedule.next_eq_none, consistent.size_eq_iff built]
  next_some group wave returned := by
    obtain ⟨s', answer⟩ := next_some_iff.mp returned
    exact consistent.isNext built answer
  next_stuck group left := by
    rw [next_error_iff, Schedule.next_eq_stuck built, consistent.size_ne_iff built,
      ready_eq_nil_iff built]
  next_ready complete group left stuck := by
    obtain ⟨unfinished, empty, _⟩ := (Schedule.next_eq_stuck built).mp (next_error_iff.mp stuck)
    obtain ⟨n, member, fresh⟩ := (consistent.size_ne_iff built).mp unfinished
    exact Schedule.ready_ne_nil built complete (built.id_lt member) fresh empty
  next_error group e failed := by
    have answer := next_error_iff.mp failed
    refine ⟨by rw [next_eq, answer], ?_⟩
    rcases (Schedule.next_error built answer).2 with ⟨_, same⟩ | ⟨n, member, fault, _, _, same⟩
    · exact .inl ⟨_, same⟩
    · exact .inr ⟨n, member, fault, same⟩
  commit_again wave earlier succeeded member := by
    have before := (consistent.committed wave.seq).mpr ⟨_, member, rfl⟩
    exact History.commit_again succeeded (by simpa [SortedSet.contains] using before)

end Consistent

/-- Every run on a graph that was built from nodes can rely on the laws, whatever it asks for and
however the committer answers. -/
theorem ofCalls_lawful {scope : String} {nodes : List Node}
    (made : Graph.ofNodes scope nodes = .ok g) (c : RunConfig) (committer : Committer (StateM σ))
    (world : σ) (calls : List (Call σ)) :
    Lawful c g committer (ofCalls c g committer world calls) :=
  (ofCalls_consistent (Graph.built_of_ofNodes made).1 c committer world calls).lawful
    (Graph.built_of_ofNodes made).1

/-- Two nodes, the second of which reads what the first writes. -/
def chainNodes : List Node := [
  ⟨0, [⟨.file "in" none, []⟩], none, [], .temporary "tmp/0", none, .none⟩,
  ⟨1, [⟨.temp 0 "tmp/0", []⟩], none, [], .final "out" "json", none, .none⟩]

/-- The second node has its wave once the job of the first was committed. -/
theorem ofCalls_lawful_chain :
    ∃ g h, Graph.ofNodes "scope" chainNodes = .ok g ∧
      h = ofCalls RunConfig.standard g Committer.idle () [.next "run", .commit 0 [0], .next "run"] ∧
      h.placed = [0, 1] ∧ Lawful RunConfig.standard g Committer.idle h := by
  obtain ⟨g, made, placed⟩ : ∃ g, Graph.ofNodes "scope" chainNodes = .ok g ∧
      (ofCalls RunConfig.standard g Committer.idle ()
        [.next "run", .commit 0 [0], .next "run"]).placed = [0, 1] := ⟨_, rfl, rfl⟩
  exact ⟨g, _, made, rfl, placed, ofCalls_lawful made RunConfig.standard Committer.idle () _⟩

end Wavefront.History
