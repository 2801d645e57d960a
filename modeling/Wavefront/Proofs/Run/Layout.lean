import Mathlib.Data.List.Pairwise
import Wavefront.Proofs.Files.Places
import Wavefront.Proofs.Files.Scope
import Wavefront.Proofs.Optimization.Locations
import Wavefront.Proofs.Run.Staging
set_option autoImplicit false

/-!
Where the runs of a plan write. Main statement: if all paths of a run can be followed, and no store lies
within another one or has to do with the temporary directory, then no output of the run is in the way of
another; and where nothing is at the stores and below the temporary directory, no output is there yet.
-/
namespace Wavefront

open FileTree (place isWithin isBelow)

/-- The locations that the stores of a plan write to, in the order of the operators. -/
def Plan.storeLocations (p : Plan) : List String := (p.ops.filterMap (·.kind.result?)).map Prod.fst

/-- The paths that the runs of a plan write to in a group of jobs. -/
structure Plan.LaidOut (p : Plan) (config : RunConfig) (g : Graph) (group : String) : Prop where
  staging : ∀ n ∈ g.nodes, Path.Plain (Path.join (n.stagingPath config g group) Simulation.marker)
  output : ∀ n ∈ g.nodes, Path.Plain n.output.location
  /-- No two stores write to one place, and none writes to where another one writes. -/
  apart : p.storeLocations.Pairwise fun one other =>
    isWithin (place one) (place other) = false ∧ isWithin (place other) (place one) = false
  /-- Stores and the temporary directory do not lie within one another. -/
  outside : ∀ location ∈ p.storeLocations, isWithin (place location) (place config.tempDir) = false ∧
    isWithin (place config.tempDir) (place location) = false

/-- A tree that has nothing at the stores of a plan and below its temporary directory, and no file above
them. -/
structure Plan.Clear (p : Plan) (config : RunConfig) (t : FileTree) : Prop where
  temporary : ∀ e ∈ t.entries, isBelow e.1 (place config.tempDir) = false
  stores : ∀ location ∈ p.storeLocations, ∀ e ∈ t.entries, isWithin e.1 (place location) = false
  free : ∀ e ∈ t.entries, ∀ text, e.2 = .file text → isWithin (place config.tempDir) e.1 = false ∧
    ∀ location ∈ p.storeLocations, isWithin (place location) e.1 = false

theorem Plan.Clear.empty (p : Plan) (config : RunConfig) : p.Clear config .empty := ⟨nofun, nofun, nofun⟩

theorem RunConfig.tempDir_ne_empty {c : RunConfig} (valid : c.validate = .ok ()) : c.tempDir ≠ "" := by
  intro empty
  have blank : (Text.trim c.tempDir).isEmpty = true := by
    rw [empty]
    decide
  simp only [validate, blank, if_true] at valid
  split_ifs at valid

theorem NodeOutput.result?_of_final {o : NodeOutput} (final : o.isTemporary = false) :
    ∃ format, o = .final o.location format ∧ o.result? = some (o.location, format) := by
  cases o with
  | final location format => exact ⟨format, rfl, rfl⟩
  | temporary location => cases final

section Compiled

variable {p : Plan} {config : RunConfig} {g : Graph} {group : String}

/-- The final outputs of a compiled graph are those of the stores. -/
theorem Plan.mem_storeLocations (compiled : p.compile config = .ok g) {location : String} :
    location ∈ p.storeLocations ↔
      ∃ n ∈ g.nodes, n.output.isTemporary = false ∧ n.output.location = location := by
  have same : ∀ result, result ∈ p.ops.filterMap (·.kind.result?) ↔
      ∃ n ∈ g.nodes, n.output.result? = some result := by
    intro result
    rw [← (results_of_compile compiled).mem_iff, List.mem_filterMap]
  rw [storeLocations, List.mem_map]
  constructor
  · rintro ⟨result, member, rfl⟩
    obtain ⟨n, among, is⟩ := (same result).mp member
    cases output : n.output with
    | final location format =>
      rw [output] at is
      cases is
      exact ⟨n, among, by rw [output]; rfl, by rw [output]; rfl⟩
    | temporary location =>
      rw [output] at is
      cases is
  · rintro ⟨n, member, final, rfl⟩
    obtain ⟨format, _, is⟩ := NodeOutput.result?_of_final final
    exact ⟨_, (same _).mpr ⟨n, member, is⟩, rfl⟩

/-- Different nodes store at different places. -/
theorem Plan.LaidOut.apart_nodes (compiled : p.compile config = .ok g)
    (laidOut : p.LaidOut config g group) {n other : Node} (member : n ∈ g.nodes)
    (among : other ∈ g.nodes) (different : n ≠ other) (final : n.output.isTemporary = false)
    (final' : other.output.isTemporary = false) : Place.Apart n.outputPlace other.outputPlace := by
  have stores := laidOut.apart
  rw [storeLocations, List.pairwise_map] at stores
  have nodes := ((results_of_compile compiled).pairwise_iff fun both => both.symm).mpr stores
  rw [List.pairwise_filterMap] at nodes
  obtain ⟨format, _, is⟩ := NodeOutput.result?_of_final final
  obtain ⟨format', _, is'⟩ := NodeOutput.result?_of_final final'
  have symmetric : Std.Symm fun n other : Node => ∀ b, n.output.result? = some b → ∀ b',
      other.output.result? = some b' → isWithin (place b.1) (place b'.1) = false ∧
        isWithin (place b'.1) (place b.1) = false :=
    ⟨fun _ _ each b is b' is' => (each b' is' b is).symm⟩
  have both := nodes.forall member among different _ is _ is'
  have plain := laidOut.output n member
  have plain' := laidOut.output other among
  have named := FileTree.named_place plain.toPassable (FileTree.steps_ne_nil plain)
  have named' := FileTree.named_place plain'.toPassable (FileTree.steps_ne_nil plain')
  refine ⟨fun within => ?_, fun within => ?_⟩
  · exact Bool.false_ne_true (both.2.symm.trans ((FileTree.isWithin_iff named).mpr within))
  · exact Bool.false_ne_true (both.1.symm.trans ((FileTree.isWithin_iff named').mpr within))

/-- In the temporary directory of a plan every output has a way of its own. -/
structure Plan.Ways (config : RunConfig) (g : Graph) (group : String) (staged written : Node → Place) :
    Prop where
  staging : ∀ n ∈ g.nodes, n.stagingPlace config g group = place config.tempDir ++ staged n ∧
    Place.Onward (staged n)
  temporary : ∀ n ∈ g.nodes, n.output.isTemporary = true →
    n.outputPlace = place config.tempDir ++ written n ∧ Place.Onward (written n)
  stagings : ∀ n ∈ g.nodes, ∀ other ∈ g.nodes, n ≠ other → Place.Apart (staged n) (staged other)
  temporaries : ∀ n ∈ g.nodes, ∀ other ∈ g.nodes, n ≠ other → Place.Apart (written n) (written other)
  between : ∀ n ∈ g.nodes, ∀ other ∈ g.nodes, Place.Apart (staged n) (written other)

theorem Plan.LaidOut.exists_ways (compiled : p.compile config = .ok g)
    (laidOut : p.LaidOut config g group) :
    ∃ staged written, Plan.Ways config g group staged written ∧
      ∀ n ∈ g.nodes, Path.Plain (n.stagingPath config g group) := by
  have some := RunConfig.tempDir_ne_empty (validate_of_compile compiled)
  have located := located_of_compile compiled
  have built := built_of_compile compiled
  obtain ⟨front, last, at_⟩ := Location.exists_place_staging some g.scope group
  let staged (n : Node) : Place :=
    Path.steps g.scope ++ "staging" :: (front ++ [last ++ ("-node-" ++ toString n.id)])
  let written (n : Node) : Place := Path.steps g.scope ++ ["tmp-" ++ toString n.id]
  have plain : ∀ n ∈ g.nodes, Path.Plain (n.stagingPath config g group) := fun n member =>
    ⟨(laidOut.staging n member).toPassable.of_join, (at_ n.id).2.2⟩
  have distinct {n other : Node} (member : n ∈ g.nodes) (among : other ∈ g.nodes)
      (different : n ≠ other) : toString n.id ≠ toString other.id := fun same =>
    different (built.eq_of_id member among (Text.toString_injective same))
  refine ⟨staged, written, ⟨fun n member => ⟨(at_ n.id).1, by simp [staged], fun name step => ?_⟩,
    fun n member temporary => ?_, fun n member other among different => ?_,
    fun n member other among different => ?_, fun n member other among => ?_⟩, plain⟩
  · refine FileTree.ordinary_of_mem_steps (plain n member).toPassable ?_
    rw [Node.stagingPath, (at_ n.id).2.1]
    exact List.mem_append_right _ step
  · obtain ⟨location, is⟩ : ∃ location, n.output = .temporary location := by
      cases output : n.output with
      | final location format =>
        rw [output] at temporary
        cases temporary
      | temporary location => exact ⟨location, rfl⟩
    have home : n.output.location = Location.temporary config.tempDir g.scope n.id := by
      rw [is]
      exact located.written n member location is
    obtain ⟨here, steps⟩ := Location.place_temporary some g.scope n.id
    refine ⟨by rw [Node.outputPlace, home, here], by simp [written], fun name step => ?_⟩
    refine FileTree.ordinary_of_mem_steps (laidOut.output n member).toPassable ?_
    rw [home, steps]
    exact List.mem_append_right _ step
  · have apart : Place.Apart (Path.steps g.scope ++ ("staging" :: front) ++
        (last ++ ("-node-" ++ toString n.id)) :: [])
        (Path.steps g.scope ++ ("staging" :: front) ++ (last ++ ("-node-" ++ toString other.id)) :: []) :=
      Place.apart_of_ne fun same => distinct member among different
        ((String.append_right_inj _).mp ((String.append_right_inj _).mp same))
    simpa [staged] using apart
  · exact Place.apart_of_ne fun same => distinct member among different
      ((String.append_right_inj _).mp same)
  · refine Place.apart_of_ne fun same => ?_
    have letter := congrArg (fun text : String => text.toList.head?) same
    simp at letter

/-- No output of a run is in the way of another. -/
theorem Plan.LaidOut.spread (compiled : p.compile config = .ok g) (laidOut : p.LaidOut config g group) :
    g.Spread config group := by
  obtain ⟨staged, written, ways, plain⟩ := laidOut.exists_ways compiled
  have stored {n : Node} (member : n ∈ g.nodes) (final : n.output.isTemporary = false) (way : Place)
      (onward : Place.Onward way) : Place.Apart (place config.tempDir ++ way) n.outputPlace := by
    have outside := laidOut.outside _ ((Plan.mem_storeLocations compiled).mpr ⟨n, member, final, rfl⟩)
    have plain := laidOut.output n member
    exact FileTree.apart_of_outside onward
      (FileTree.named_place plain.toPassable (FileTree.steps_ne_nil plain)) outside.1 outside.2
  refine ⟨plain, fun n member => (laidOut.staging n member).toPassable, laidOut.output,
    fun n member other among different => ?_, fun n member other among different => ?_,
    fun n member other among => ?_⟩
  · rw [(ways.staging n member).1, (ways.staging other among).1]
    exact (ways.stagings n member other among different).append _
  · cases first : n.output.isTemporary with
    | false =>
      cases second : other.output.isTemporary with
      | false => exact laidOut.apart_nodes compiled member among different first second
      | true =>
        obtain ⟨here, onward⟩ := ways.temporary other among second
        rw [here]
        exact (stored member first _ onward).symm
    | true =>
      obtain ⟨here, onward⟩ := ways.temporary n member first
      cases second : other.output.isTemporary with
      | false =>
        rw [here]
        exact stored among second _ onward
      | true =>
        rw [here, (ways.temporary other among second).1]
        exact (ways.temporaries n member other among different).append _
  · obtain ⟨here, onward⟩ := ways.staging n member
    rw [here]
    cases second : other.output.isTemporary with
    | false => exact stored among second _ onward
    | true =>
      rw [(ways.temporary other among second).1]
      exact (ways.between n member other among).append _

/-- The paths of a run can be followed if their parts can be. -/
theorem Plan.LaidOut.of_names (compiled : p.compile config = .ok g)
    (temporary : Path.Passable (Text.trimEnd '/' config.tempDir))
    (below : ∀ id < g.nodes.length, ∀ rest ∈ [Path.join ("staging/" ++ Location.jobName group id)
      Simulation.marker, "tmp-" ++ toString id], Path.Plain rest ∧
        (Text.trimEnd '/' config.tempDir).utf8ByteSize + rest.utf8ByteSize < 4080)
    (stores : ∀ location ∈ p.storeLocations, Path.Plain location)
    (apart : p.storeLocations.Pairwise fun one other =>
      isWithin (place one) (place other) = false ∧ isWithin (place other) (place one) = false)
    (outside : ∀ location ∈ p.storeLocations,
      isWithin (place location) (place config.tempDir) = false ∧
        isWithin (place config.tempDir) (place location) = false) : p.LaidOut config g group := by
  have built := built_of_compile compiled
  have located := located_of_compile compiled
  have scope := scope_of_compile compiled
  refine ⟨fun n member => ?_, fun n member => ?_, apart, outside⟩
  · obtain ⟨plain, short⟩ := below n.id (built.id_lt member) _ List.mem_cons_self
    have path : n.stagingPath config g group = Location.scopeDir config.tempDir p.scope ++ "/" ++
        ("staging/" ++ Location.jobName group n.id) := by
      rw [Node.stagingPath, Location.staging, scope]
      simp only [String.append_assoc]
      rfl
    rw [path, Path.join_append _ (by simp)]
    exact Location.plain_below p temporary plain short
  · cases output : n.output with
    | final location format =>
      refine stores _ ((mem_storeLocations compiled).mpr ⟨n, member, ?_⟩)
      rw [output]
      exact ⟨rfl, rfl⟩
    | temporary location =>
      obtain ⟨plain, short⟩ := below n.id (built.id_lt member) _ (List.mem_cons_of_mem _ List.mem_cons_self)
      have path : location = Location.scopeDir config.tempDir p.scope ++ "/" ++ ("tmp-" ++ toString n.id) := by
        rw [located.written n member location output, Location.temporary, scope]
        simp only [String.append_assoc]
        rfl
      show Path.Plain location
      rw [path]
      exact Location.plain_below p temporary plain short

/-- In a tree that is clear for a plan none of its outputs is there. -/
theorem Plan.Clear.stocked (compiled : p.compile config = .ok g) (laidOut : p.LaidOut config g group)
    {t : FileTree} (clear : p.Clear config t) :
    g.Stocked config group (fun _ => false) (fun _ => false) t := by
  obtain ⟨staged, written, ways, _⟩ := laidOut.exists_ways compiled
  have free : t.Open (place config.tempDir) :=
    FileTree.open_of_entries fun e member text file => (clear.free e member text file).1
  intro n member
  obtain ⟨here, onward⟩ := ways.staging n member
  refine ⟨here ▸ FileTree.bare_onward onward free clear.temporary, ?_⟩
  cases output : n.output.isTemporary with
  | true =>
    obtain ⟨there, onward'⟩ := ways.temporary n member output
    exact there ▸ FileTree.bare_onward onward' free clear.temporary
  | false =>
    have store := (Plan.mem_storeLocations compiled).mpr ⟨n, member, output, rfl⟩
    have plain := laidOut.output n member
    exact ⟨FileTree.vacant_of_entries (FileTree.named_place plain.toPassable
      (FileTree.steps_ne_nil plain)) (clear.stores _ store),
      FileTree.open_of_entries fun e member text file => (clear.free e member text file).2 _ store⟩

end Compiled

end Wavefront
