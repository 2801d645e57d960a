import Wavefront.Proofs.Json.Reading
import Wavefront.Proofs.Optimization.Locations
import Wavefront.Proofs.Run.Climb
set_option autoImplicit false

/-!
Waves and the longest ways of a compiled graph. Main statement: whatever the cluster says, if the
committer does whatever it is asked to, the wave of a number has the nodes to which the longest way has
so many edges; a launch is never stuck, and it fails to get a wave only where a node of the next level
reads or writes nowhere.
-/
namespace Wavefront

variable {σ α : Type}

/-- How a launch of a graph goes, if its committer does whatever it is asked to. -/
structure Progresses (c : RunConfig) (g : Graph) (group : String) (limit : Nat)
    (result : Except LaunchFault (Outcome α)) (events : List Event) : Prop where
  /-- Something is ready as long as nodes are left, and each wave is committed once. -/
  sound : ∀ fault, result ≠ .error (.error (.invariant fault))
  /-- A wave has one job for each node of its level. -/
  waves : ∀ k wave, (events.filterMap Event.submitted?)[k]? = some wave → wave = g.wave c group k
  stage : ∀ k n, n ∈ g.stage k ↔ n ∈ g.nodes ∧ g.Longest k n.id
  /-- A run that succeeds has as many waves as the longest way has nodes, and one job for each node. -/
  whole : ∀ outcome, result = .ok outcome → outcome.succeeded = true →
    (∀ k, k < (events.filterMap Event.submitted?).length ↔ ∃ n ∈ g.nodes, g.Leads k n.id) ∧
    outcome.waves = (events.filterMap Event.submitted?).map Wave.jobIds ∧
    ((submittedJobs events).map Job.nodes).Perm (g.nodes.map fun n => [n.id])
  /-- No wave is refused but for a node of the next level that writes or reads nowhere. -/
  refused : ∀ e, result = .error (.error e) →
    ∃ n ∈ g.nodes, g.Longest (events.filterMap Event.submitted?).length n.id ∧
      ((e = .job n.id .outputWithoutLocation ∧ ∃ format, n.output = .final "" format) ∨
        (e = .job n.id .inputWithoutLocation ∧ ∃ b ∈ n.map, ∃ schema, b.source = .file "" schema))
  /-- A launch that could go on looks at a wave. -/
  looking : g.height < limit → result = .error .unfinished → ∃ before wave answer looks,
    events = before ++ .submit wave answer :: looks ∧ ∀ e ∈ looks, ∃ answer, e = .look answer

/-- The jobs of all levels are those of the nodes of the graph. -/
theorem Graph.flatMap_wave (g : Graph) (c : RunConfig) (group : String) :
    ((((List.range g.height).map (g.wave c group)).flatMap Wave.jobs).map Job.nodes).Perm
      (g.nodes.map fun n => [n.id]) := by
  have jobs : ((List.range g.height).map (g.wave c group)).flatMap Wave.jobs =
      g.jobs c group 0 (g.below g.height) := by
    rw [← g.flatten_batches, List.flatMap_map, List.flatMap_def, batches]
    rfl
  have all : (g.nodes.filter fun n => g.level n.id < g.height) = g.nodes :=
    List.filter_eq_self.mpr fun n member => by simpa using level_lt_height member
  rw [jobs, map_nodes_jobs]
  have perm := g.below_perm g.height
  rw [all] at perm
  exact perm.map _

/-- The waves of a launch of a compiled graph are the levels of the graph, and the launch is never
stuck. -/
theorem Site.launch_progresses [ProgressNumber α] (site : Site (StateM σ) α) {p : Plan}
    {config : RunConfig} {g : Graph} (compiled : p.compile config = .ok g)
    (stores : ∀ job world, ((site.committer.commit job).act world).1 = .ok ())
    (drops : ∀ job world, ((site.committer.discard job).act world).1 = .ok ()) (group : String)
    (world : σ) :
    Progresses config g group site.limits.waves (site.result config g group world)
      (site.events config g group world) := by
  have built := Plan.built_of_compile compiled
  have located := Plan.located_of_compile compiled
  have valid := Plan.validate_of_compile compiled
  have stores : ∀ job fault, ¬ site.committer.RefusesCommit job fault := by
    rintro job fault ⟨world, refused⟩
    cases (stores job world).symm.trans refused
  have drops : ∀ job fault, ¬ site.committer.RefusesDiscard job fault := by
    rintro job fault ⟨world, refused⟩
    cases (drops job world).symm.trans refused
  obtain ⟨levels, halted⟩ := site.halted config built stores drops group world
  have count : ((site.events config g group world).filterMap Event.submitted?).length = levels := by
    rw [halted.submitted, List.length_map, List.length_range]
  have stage : ∀ k n, n ∈ g.stage k ↔ n ∈ g.nodes ∧ g.Longest k n.id := by
    intro k n
    rw [Graph.mem_stage, built.longest_iff]
  refine ⟨fun fault stuck => ?_, fun k wave there => ?_, stage, fun outcome ended succeeded => ?_,
    fun e failed => ?_, halted.looking⟩
  · obtain ⟨n, _, _, _, _, _, is⟩ := halted.refused _ stuck
    cases is
  · rw [halted.submitted, List.getElem?_map, Option.map_eq_some_iff] at there
    obtain ⟨number, at_, rfl⟩ := there
    obtain ⟨_, rfl⟩ := List.getElem?_eq_some_iff.mp at_
    rw [List.getElem_range]
  · obtain ⟨rfl, waves⟩ := halted.whole outcome ended succeeded
    refine ⟨fun k => ?_, ?_, ?_⟩
    · rw [count, built.lt_height_iff]
    · rw [waves, halted.submitted]
    · rw [submittedJobs, halted.submitted]
      exact g.flatMap_wave config group
  · obtain ⟨n, among, completed, fault, refused, supplied, rfl⟩ := halted.refused e failed
    obtain ⟨member, longest⟩ := (stage levels n).mp among
    refine ⟨n, member, count ▸ longest, ?_⟩
    rcases located.of_jobFault? valid member refused supplied with ⟨rfl, nowhere⟩ | ⟨rfl, nowhere⟩
    · exact .inl ⟨rfl, nowhere⟩
    · exact .inr ⟨rfl, nowhere⟩

/-- The node that two others read has a wave for itself. -/
theorem Site.launch_progresses_visitCounts : ∃ g, Plan.visitCounts.compile .standard = .ok g ∧
    (∀ job world, (((Site.admitting 2).committer.commit job).act world).1 = .ok ()) ∧
    (∀ job world, (((Site.admitting 2).committer.discard job).act world).1 = .ok ()) ∧
    (((Site.admitting 2).events .standard g "run" 0).filterMap Event.submitted?).map Wave.jobIds =
      [[0], [1, 2]] ∧
    Progresses .standard g "run" 4 ((Site.admitting 2).result .standard g "run" 0)
      ((Site.admitting 2).events .standard g "run" 0) := by
  obtain ⟨g, compiled, waves⟩ : ∃ g, Plan.visitCounts.compile .standard = .ok g ∧
      (((Site.admitting 2).events .standard g "run" 0).filterMap Event.submitted?).map Wave.jobIds =
        [[0], [1, 2]] := by
    refine ⟨_, rfl, ?_⟩
    -- The run needs the scope, whose digest is faster to evaluate on characters than on a text.
    rw [Plan.scope, Plan.text, Json.render, utf8_ofList]
    decide +kernel
  exact ⟨g, compiled, fun _ _ => rfl, fun _ _ => rfl, waves,
    (Site.admitting 2).launch_progresses compiled (fun _ _ => rfl) (fun _ _ => rfl) "run" 0⟩

end Wavefront
