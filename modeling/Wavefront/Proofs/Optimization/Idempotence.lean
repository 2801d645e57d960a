import Wavefront.Proofs.Optimization.Compilation
set_option autoImplicit false

/-!
Passes that run again. Each pass leaves behind nodes that it would not change any more, and no later
pass of the pipeline gives an earlier one new work. Main statement: a pass that goes through goes
through again and changes nothing, and so does the whole pipeline.
-/
namespace Wavefront

namespace Optimization

variable {n m : Node} {chunkSize : Nat}

/-- A node has no more than one combine plan. -/
theorem not_combinable_of_addCombinePlan (through : addCombinePlan chunkSize n = .done m) :
    ¬ Combinable m := by
  by_cases splits : Combinable n
  · obtain ⟨branch, inputs, known, keys, calls, rest, one, nothing, reduce, algebraic⟩ := splits
    simp only [addCombinePlan, one, nothing, reduce, algebraic, ↓reduceIte] at through
    split at through
    · rintro ⟨_, _, _, _, _, _, _, again, _⟩
      rw [← Revision.done_inj.mp through] at again
      cases again
    · cases congrArg Revision.fault through
  · rw [addCombinePlan_of_not_combinable chunkSize splits] at through
    rwa [← Revision.done_inj.mp through]

/-- A node whose packages know their inputs. -/
structure Annotated (n : Node) : Prop where
  combine : ∀ plan, n.combine = some plan → annotateOps n.id (mapFeeds n) plan.ops = .done plan.ops
  reduce : ∃ feeds, reduceFeeds n = .ok feeds ∧ annotateOps n.id feeds n.reduce = .done n.reduce

theorem Annotated.annotatePackages_eq (known : Annotated n) : annotatePackages n = .done n := by
  obtain ⟨feeds, fed, reduce⟩ := known.reduce
  have first : annotateCombine n = .done n := by
    rw [annotateCombine]
    split
    · rfl
    · rename_i plan there
      rw [known.combine plan there, Revision.map_done, ← there]
  rw [annotatePackages, first, Revision.done_bind]
  exact annotateReduce_eq fed reduce

theorem annotateOp_again {node : Nat} {feeds : List Feed} {op op' : LocalOp}
    (first : annotateOp node feeds op = .done op') : annotateOp node feeds op' = .done op' := by
  obtain ⟨filled, informed⟩ := annotateOp_eq_done_iff.mp first
  cases informed with
  | package _ described => exact annotateOp_eq_done_iff.mpr ⟨filled, .package _ described⟩
  | joinPackage _ described => exact annotateOp_eq_done_iff.mpr ⟨filled, .joinPackage _ described⟩
  | keep => exact first

/-- Annotating the packages of a node rewrites two of its lists of operations. -/
theorem annotatePackages_eq_done (through : annotatePackages n = .done m) :
    ∃ combine feeds reduce, m = { n with combine, reduce } ∧
      (combine = none ↔ n.combine = none) ∧
      (∀ plan, combine = some plan → annotateOps n.id (mapFeeds n) plan.ops = .done plan.ops) ∧
      reduceFeeds { n with combine } = .ok feeds ∧
      annotateOps n.id feeds n.reduce = .done reduce := by
  obtain ⟨k, combined, reduced⟩ := Revision.bind_eq_done.mp through
  obtain ⟨combine, rfl, same, known⟩ : ∃ combine, k = { n with combine } ∧
      (combine = none ↔ n.combine = none) ∧
      ∀ plan, combine = some plan → annotateOps n.id (mapFeeds n) plan.ops = .done plan.ops := by
    rw [annotateCombine] at combined
    split at combined
    · rename_i nothing
      exact ⟨none, by rw [← Revision.done_inj.mp combined, ← nothing], by simp [nothing], by simp⟩
    · rename_i plan there
      obtain ⟨ops, annotated, rfl⟩ := Revision.map_eq_done.mp combined
      refine ⟨_, rfl, by simp [there], fun plan is => ?_⟩
      rw [← Option.some.inj is]
      exact Revision.sweep_again (fun _ _ => annotateOp_again) annotated
  rw [annotateReduce] at reduced
  split at reduced
  · cases congrArg Revision.fault reduced
  · rename_i feeds fed
    obtain ⟨reduce, annotated, rfl⟩ := Revision.map_eq_done.mp reduced
    exact ⟨combine, feeds, reduce, rfl, same, known, fed, annotated⟩

theorem annotated_of_annotatePackages (through : annotatePackages n = .done m) : Annotated m := by
  obtain ⟨combine, feeds, reduce, rfl, _, known, fed, annotated⟩ := annotatePackages_eq_done through
  exact ⟨known, feeds, fed, Revision.sweep_again (fun _ _ => annotateOp_again) annotated⟩

/-- Annotating packages gives no node calls that can be split. -/
theorem combinable_of_annotatePackages (through : annotatePackages n = .done m)
    (splits : Combinable m) : Combinable n := by
  obtain ⟨combine, feeds, reduce, rfl, same, _, _, annotated⟩ := annotatePackages_eq_done through
  obtain ⟨branch, inputs, known, keys, calls, rest, one, nothing, start, algebraic⟩ := splits
  obtain rfl : reduce = _ := start
  obtain ⟨package, others, first, later, reduceOf⟩ :=
    List.forall₂_cons_right_iff.mp (Revision.forall₂_of_sweep annotated)
  obtain ⟨aggregate, before, second, -, rfl⟩ := List.forall₂_cons_right_iff.mp later
  obtain ⟨known', rfl⟩ : ∃ known', package = .package .group inputs known' := by
    cases (annotateOp_eq_done_iff.mp first).2 with
    | package before => exact ⟨before, rfl⟩
    | keep => exact ⟨known, rfl⟩
  obtain rfl : aggregate = .aggregate keys calls .full := by
    cases (annotateOp_eq_done_iff.mp second).2 with
    | keep => rfl
  exact ⟨branch, inputs, known', keys, calls, before, one, same.mp nothing, reduceOf, algebraic⟩

/-- A node whose phases with external commands are marked. -/
structure Marked (n : Node) : Prop where
  clean : n.combineOps.any LocalOp.isStream = false
  stream : n.annotations.stream = streamMarker n

theorem Marked.markStreams_eq (marked : Marked n) : markStreams n = .done n := by
  rw [Optimization.markStreams_eq marked.clean, ← marked.stream]

theorem marked_of_markStreams (through : markStreams n = .done m) : Marked m := by
  rw [markStreams] at through
  split at through
  · cases congrArg Revision.fault through
  · rename_i clean
    rw [← Revision.done_inj.mp through]
    exact ⟨Bool.eq_false_iff.mpr clean, rfl⟩

/-- Operations, and what they are once every inner join among them streams its last input. -/
inductive JoinsStreamed (chunkSize : Nat) : List LocalOp → List LocalOp → Prop where
  | nil : JoinsStreamed chunkSize [] []
  | join (inputs : Nat) (known : Option PackageAnnotation) {rest rest' : List LocalOp}
      (later : JoinsStreamed chunkSize rest rest') :
      JoinsStreamed chunkSize (.package (.join .inner) inputs known :: .flatten inputs :: rest)
        (.joinPackage inputs .inner chunkSize (inputs - 1) known :: rest')
  | keep {op : LocalOp} {rest rest' : List LocalOp}
      (other : ∀ inputs known, op ≠ .package (.join .inner) inputs known)
      (later : JoinsStreamed chunkSize rest rest') :
      JoinsStreamed chunkSize (op :: rest) (op :: rest')

theorem joinsStreamed_of_streamJoins {node : Nat} {ops ops' : List LocalOp}
    (through : streamJoins node chunkSize ops = .done ops') : JoinsStreamed chunkSize ops ops' := by
  fun_induction streamJoins node chunkSize ops generalizing ops' with
  | case1 =>
    rw [← Revision.done_inj.mp through]
    exact .nil
  | case2 known inputs rest ih =>
    obtain ⟨rest', later, rfl⟩ := Revision.map_eq_done.mp through
    exact .join inputs known (ih later)
  | case3 | case4 => cases congrArg Revision.fault through
  | case5 op rest noFlatten other ih =>
    obtain ⟨rest', later, rfl⟩ := Revision.map_eq_done.mp through
    exact .keep (fun inputs known => other inputs known) (ih later)

theorem streamJoins_eq_self (node chunkSize : Nat) {ops : List LocalOp}
    (none_ : ∀ inputs known, .package (.join .inner) inputs known ∉ ops) :
    streamJoins node chunkSize ops = .done ops := by
  fun_induction streamJoins node chunkSize ops with
  | case1 => rfl
  | case2 | case3 | case4 => exact absurd List.mem_cons_self (none_ _ _)
  | case5 op rest noFlatten other ih =>
    rw [ih fun inputs known member => none_ inputs known (List.mem_cons_of_mem _ member),
      Revision.map_done]

namespace JoinsStreamed

variable {ops ops' : List LocalOp}

theorem no_join (streamed : JoinsStreamed chunkSize ops ops') (inputs : Nat)
    (known : Option PackageAnnotation) : .package (.join .inner) inputs known ∉ ops' := by
  induction streamed with
  | nil => exact List.not_mem_nil
  | join => simpa
  | keep other _ ih =>
    rw [List.mem_cons]
    exact not_or.mpr ⟨Ne.symm (other inputs known), ih⟩

theorem any_isStream (streamed : JoinsStreamed chunkSize ops ops') :
    ops'.any LocalOp.isStream = ops.any LocalOp.isStream := by
  induction streamed with
  | nil => rfl
  | join inputs known _ ih => simpa [LocalOp.isStream] using ih
  | keep _ _ ih => rw [List.any_cons, List.any_cons, ih]

/-- A streamed join knows of its inputs what the package knew. -/
theorem annotateOps_eq (streamed : JoinsStreamed chunkSize ops ops') {node : Nat} {feeds : List Feed}
    (known : ∀ op ∈ ops, annotateOp node feeds op = .done op) :
    annotateOps node feeds ops' = .done ops' := by
  induction streamed with
  | nil => rfl
  | @join inputs before rest rest' _ ih =>
    have later := ih fun op member =>
      known op (List.mem_cons_of_mem _ (List.mem_cons_of_mem _ member))
    have package := known _ List.mem_cons_self
    have join : annotateOp node feeds (.joinPackage inputs .inner chunkSize (inputs - 1) before) =
        .done (.joinPackage inputs .inner chunkSize (inputs - 1) before) := by
      cases found : annotationOf node (.join .inner) inputs feeds with
      | error fault =>
        simp only [annotateOp, found] at package
        cases congrArg Revision.fault package
      | ok annotation =>
        simp only [annotateOp, found, Revision.done_inj, LocalOp.package.injEq, true_and] at package
        simp only [annotateOp, found, package]
    rw [annotateOps_cons join, later, Revision.map_done]
  | keep _ _ ih =>
    rw [annotateOps_cons (known _ List.mem_cons_self),
      ih fun op member => known op (List.mem_cons_of_mem _ member), Revision.map_done]

/-- A group and the calls after it stand where they stood. -/
theorem starts (streamed : JoinsStreamed chunkSize ops ops') {inputs : Nat}
    {known : Option PackageAnnotation} {keys : List String} {calls : List AggregateCall}
    {phase : AggregatePhase} {rest : List LocalOp}
    (start : ops' = .package .group inputs known :: .aggregate keys calls phase :: rest) :
    ∃ before, ops = .package .group inputs known :: .aggregate keys calls phase :: before := by
  cases streamed with
  | nil | join => cases start
  | keep _ later =>
    obtain ⟨rfl, rfl⟩ := List.cons.inj start
    cases later with
    | keep => exact ⟨_, rfl⟩

end JoinsStreamed

theorem joinsStreamed_of_streamLastInputs (through : streamLastInputs chunkSize n = .done m) :
    ∃ reduce, m = { n with reduce } ∧ JoinsStreamed chunkSize n.reduce reduce := by
  obtain ⟨reduce, streamed, rfl⟩ := Revision.map_eq_done.mp through
  exact ⟨reduce, rfl, joinsStreamed_of_streamJoins streamed⟩

/-- A node that the passes on single nodes would leave alone. -/
structure Finished (combines : Bool) (n : Node) : Prop where
  whole : combines = true → ¬ Combinable n
  annotated : Annotated n
  marked : Marked n
  streamed : ∀ inputs known, .package (.join .inner) inputs known ∉ n.reduce

variable {combines : Bool}

/-- A pass leaves alone what the passes before it have finished, and finishes its own part. -/
theorem finished_of_revise (through : revise chunkSize combines n = .done m) : Finished combines m := by
  obtain ⟨streaming, through, joined⟩ := Revision.bind_eq_done.mp through
  obtain ⟨packaged, through, streams⟩ := Revision.bind_eq_done.mp through
  obtain ⟨combined, first, packages⟩ := Revision.bind_eq_done.mp through
  have whole : combines = true → ¬ Combinable packaged := by
    rintro rfl splits
    exact not_combinable_of_addCombinePlan first (combinable_of_annotatePackages packages splits)
  have annotated := annotated_of_annotatePackages packages
  obtain ⟨marked, same⟩ : Marked streaming ∧
      streaming = { packaged with annotations := streaming.annotations } := by
    refine ⟨marked_of_markStreams streams, ?_⟩
    rw [markStreams] at streams
    split at streams
    · cases congrArg Revision.fault streams
    · rw [← Revision.done_inj.mp streams]
  obtain ⟨reduce, rfl, streamed⟩ := joinsStreamed_of_streamLastInputs joined
  rw [same] at marked streamed ⊢
  exact {
    whole := by
      rintro wanted ⟨branch, inputs, known, keys, calls, rest, one, nothing, start, algebraic⟩
      obtain ⟨before, start'⟩ := streamed.starts start
      exact whole wanted ⟨branch, inputs, known, keys, calls, before, one, nothing, start', algebraic⟩
    annotated := by
      obtain ⟨feeds, fed, known⟩ := annotated.reduce
      refine ⟨annotated.combine, feeds, fed, streamed.annotateOps_eq ?_⟩
      exact List.forall₂_same.mp (Revision.forall₂_of_sweep known)
    marked := by
      refine ⟨marked.clean, marked.stream.trans ?_⟩
      simp only [streamMarker, streamed.any_isStream]
    streamed := streamed.no_join }

theorem Finished.revise_eq (finished : Finished combines n) (chunkSize : Nat) :
    revise chunkSize combines n = .done n := by
  have first := addCombinePlan_or_done chunkSize finished.whole
  have last := streamLastInputs_eq chunkSize (streamJoins_eq_self n.id chunkSize finished.streamed)
  rw [revise, first, Revision.done_bind, finished.annotated.annotatePackages_eq, Revision.done_bind,
    finished.marked.markStreams_eq, Revision.done_bind, last]

/-- Nodes that differ in what the flow of schemas notes only. -/
def Retyped (n m : Node) : Prop :=
  ∃ keyType outputSchema, m = { n with
    annotations := { n.annotations with keyType, outputSchema } }

theorem Retyped.refl (n : Node) : Retyped n n := ⟨n.annotations.keyType, n.annotations.outputSchema, rfl⟩

theorem Retyped.id_eq (retyped : Retyped n m) : m.id = n.id := by
  obtain ⟨_, _, rfl⟩ := retyped
  rfl

theorem Retyped.trans {k : Node} (first : Retyped n m) (second : Retyped m k) : Retyped n k := by
  obtain ⟨_, _, rfl⟩ := first
  obtain ⟨keyType, outputSchema, rfl⟩ := second
  exact ⟨keyType, outputSchema, rfl⟩

def noted (outputs : List (Option Schema)) (n : Node) : Node :=
  { n with annotations := schemaAnnotations outputs n }

theorem retyped_noted (outputs : List (Option Schema)) (n : Node) : Retyped n (noted outputs n) :=
  ⟨_, _, rfl⟩

theorem Retyped.noted_eq (retyped : Retyped n m) (outputs : List (Option Schema)) :
    noted outputs m = noted outputs n := by
  obtain ⟨keyType, outputSchema, rfl⟩ := retyped
  rfl

/-- A finished node stays so whatever the flow notes about it. -/
theorem Finished.retyped (finished : Finished combines n) (retyped : Retyped n m) :
    Finished combines m := by
  obtain ⟨keyType, outputSchema, rfl⟩ := retyped
  exact ⟨finished.whole, ⟨finished.annotated.combine, finished.annotated.reduce⟩,
    ⟨finished.marked.clean, finished.marked.stream⟩, finished.streamed⟩

theorem forall₂_retyped_set {nodes others : List Node} (each : List.Forall₂ Retyped nodes others)
    (id : Nat) {n m : Node} (own : Retyped n m) :
    List.Forall₂ Retyped (nodes.set id n) (others.set id m) := by
  rw [Traversal.forall₂_iff_getElem?] at each ⊢
  refine ⟨by simpa using each.1, fun i x y left right => ?_⟩
  rw [List.getElem?_set] at left right
  by_cases here : id = i
  · rw [if_pos here] at left right
    split at left
    · rw [if_pos (each.1 ▸ ‹id < nodes.length›)] at right
      rwa [← Option.some.inj left, ← Option.some.inj right]
    · cases left
  · rw [if_neg here] at left right
    exact each.2 i x y left right

def Flow.note (s : Flow) (id : Nat) (n : Node) : Flow :=
  ⟨s.nodes.set id (noted s.outputs n), s.outputs.set id (noted s.outputs n).annotations.outputSchema⟩

theorem through_cons {s : Flow} {id : Nat} (there : s.nodes[id]? = some n) (rest : List Nat) :
    s.through (id :: rest) = (s.note id n).through rest := by
  rw [Flow.through, there]
  rfl

/-- The flow passes nodes that differ in what it notes alike: it notes the same about those that it
passes and leaves the others as they are. -/
theorem through_retyped {s s' : Flow} {ids : List Nat} (through : s.through ids = .done s')
    {nodes : List Node} (each : List.Forall₂ Retyped s.nodes nodes) :
    ∃ nodes', Flow.through ⟨nodes, s.outputs⟩ ids = .done ⟨nodes', s'.outputs⟩ ∧
      ∀ i, nodes'[i]? = if i ∈ ids then s'.nodes[i]? else nodes[i]? := by
  induction ids generalizing s nodes with
  | nil =>
    obtain rfl := Revision.done_inj.mp through
    exact ⟨nodes, rfl, by simp⟩
  | cons id rest ih =>
    cases there : s.nodes[id]? with
    | none =>
      rw [Flow.through, there] at through
      cases congrArg Revision.fault through
    | some n =>
      rw [through_cons there] at through
      have inside := each.length_eq ▸ (List.getElem?_eq_some_iff.mp there).1
      have here : nodes[id]? = some nodes[id] := List.getElem?_eq_getElem inside
      have own : Retyped n nodes[id] := (Traversal.forall₂_iff_getElem?.mp each).2 id n _ there here
      have step : Flow.note ⟨nodes, s.outputs⟩ id nodes[id] =
          ⟨nodes.set id (noted s.outputs n), (s.note id n).outputs⟩ := by
        simp only [Flow.note, own.noted_eq]
      obtain ⟨nodes', later, looks⟩ := ih through (forall₂_retyped_set each id (.refl _))
      -- What is not passed again keeps what is noted now.
      obtain ⟨kept, again, stays⟩ := ih through (List.forall₂_same.mpr fun n _ => .refl n)
      obtain rfl : s'.nodes = kept :=
        congrArg Flow.nodes (Revision.done_inj.mp (through.symm.trans again))
      refine ⟨nodes', by rw [through_cons here, step, later], fun i => ?_⟩
      rw [looks]
      by_cases passed : i ∈ rest
      · rw [if_pos passed, if_pos (List.mem_cons_of_mem _ passed)]
      · have unpassed := stays i
        rw [if_neg passed] at unpassed ⊢
        by_cases first : i = id
        · subst first
          rw [if_pos List.mem_cons_self, unpassed, Flow.note, List.getElem?_set_self inside,
            List.getElem?_set_self (List.getElem?_eq_some_iff.mp there).1]
        · have other : i ∉ id :: rest := by simp [first, passed]
          rw [if_neg other, List.getElem?_set_ne (Ne.symm first)]

theorem retyped_of_through {s s' : Flow} {ids : List Nat} (through : s.through ids = .done s') :
    List.Forall₂ Retyped s.nodes s'.nodes := by
  induction ids generalizing s with
  | nil =>
    obtain rfl := Revision.done_inj.mp through
    exact List.forall₂_same.mpr fun n _ => .refl n
  | cons id rest ih =>
    cases there : s.nodes[id]? with
    | none =>
      rw [Flow.through, there] at through
      cases congrArg Revision.fault through
    | some n =>
      rw [through_cons there] at through
      obtain ⟨inside, rfl⟩ := List.getElem?_eq_some_iff.mp there
      have first : List.Forall₂ Retyped s.nodes (s.note id s.nodes[id]).nodes := by
        have set := forall₂_retyped_set (List.forall₂_same.mpr fun n (_ : n ∈ s.nodes) => .refl n) id
          (retyped_noted s.outputs s.nodes[id])
        rwa [List.set_getElem_self] at set
      exact Traversal.forall₂_trans (r := Retyped) (q := Retyped) (fun _ _ _ => .trans) first (ih through)

/-- The flow of schemas goes through again and notes the same. -/
theorem discoverKeyTypes_again {g g' : Graph} (through : discoverKeyTypes g = .done g') :
    (∃ nodes, g' = { g with nodes } ∧ List.Forall₂ Retyped g.nodes nodes) ∧
      discoverKeyTypes g' = .done g' := by
  cases sorted : g.topologicalOrder with
  | error fault =>
    rw [discoverKeyTypes, sorted] at through
    cases congrArg Revision.fault through
  | ok order =>
    simp only [discoverKeyTypes, sorted] at through
    obtain ⟨s, passed, rfl⟩ := Revision.map_eq_done.mp through
    have each := retyped_of_through passed
    refine ⟨⟨s.nodes, rfl, each⟩, ?_⟩
    have ids : s.nodes.map Node.id = g.nodes.map Node.id :=
      Traversal.map_eq_of_forall₂ (fun _ _ retyped => retyped.id_eq) each
    have blank : (s.nodes.map fun _ => (none : Option Schema)) = g.nodes.map fun _ => none := by
      rw [List.map_const', List.map_const', each.length_eq]
    obtain ⟨nodes, again, looks⟩ := through_retyped passed each
    obtain rfl : nodes = s.nodes := List.ext_getElem? fun i => by rw [looks, ite_self]
    simp only [discoverKeyTypes, (Graph.topologicalOrder_congr ids).trans sorted, blank, again,
      Revision.map_done]

end Optimization

namespace Pass

open Optimization

theorem onNodes_eq_done_iff {revise : Node → Revision Node} {g g' : Graph} :
    onNodes revise g = .done g' ↔
      ∃ nodes, g' = { g with nodes } ∧ List.Forall₂ (fun n m => revise n = .done m) g.nodes nodes := by
  constructor
  · intro through
    obtain ⟨nodes, swept, rfl⟩ := Revision.map_eq_done.mp through
    exact ⟨nodes, rfl, Revision.forall₂_of_sweep swept⟩
  · rintro ⟨nodes, rfl, each⟩
    exact onNodes_eq_done each

theorem onNodes_again {revise : Node → Revision Node} {g g' : Graph}
    (again : ∀ n m, revise n = .done m → revise m = .done m) (through : onNodes revise g = .done g') :
    onNodes revise g' = .done g' := by
  obtain ⟨nodes, swept, rfl⟩ := Revision.map_eq_done.mp through
  simp only [onNodes, Revision.sweep_again again swept, Revision.map_done]

theorem onNodes_chain {first second : Node → Revision Node} {g g' : Graph}
    (through : (onNodes first g).bind (onNodes second) = .done g') :
    onNodes (fun n => (first n).bind second) g = .done g' := by
  obtain ⟨_, through, later⟩ := Revision.bind_eq_done.mp through
  obtain ⟨nodes, rfl, each⟩ := onNodes_eq_done_iff.mp through
  obtain ⟨nodes', rfl, each'⟩ := onNodes_eq_done_iff.mp later
  refine onNodes_eq_done_iff.mpr ⟨nodes', rfl, Traversal.forall₂_trans ?_ each each'⟩
  exact fun n m k one two => Revision.bind_eq_done.mpr ⟨m, one, two⟩

/-- A pipeline that goes through has revised every node and then let the schemas flow. -/
theorem revised_of_pipeline {config : RunConfig} {g g' : Graph}
    (through : applyAll (pipeline config) g = .done g') :
    ∃ k, onNodes (revise config.lastInputChunkSize.toNat (!config.disableCombiner)) g = .done k ∧
      discoverKeyTypes k = .done g' := by
  let combine (n : Node) : Revision Node :=
    if !config.disableCombiner then addCombinePlan config.lastInputChunkSize.toNat n else .done n
  have chain : ((((onNodes combine g).bind (onNodes Optimization.annotatePackages)).bind
      (onNodes markStreams)).bind (onNodes (streamLastInputs config.lastInputChunkSize.toNat))).bind
        discoverKeyTypes = .done g' := by
    cases disabled : config.disableCombiner with
    | true =>
      have nothing : onNodes combine g = .done g := by
        refine onNodes_eq_done_iff.mpr ⟨g.nodes, rfl, List.forall₂_same.mpr fun n _ => ?_⟩
        simp [combine, disabled]
      rw [nothing]
      simpa only [applyAll, pipeline, disabled, ↓reduceIte, List.nil_append, List.foldl_cons,
        List.foldl_nil, Revision.done_bind, apply] using through
    | false =>
      have all : combine = addCombinePlan config.lastInputChunkSize.toNat := by
        funext n
        simp [combine, disabled]
      rw [all]
      simpa only [applyAll, pipeline, disabled, Bool.false_eq_true, ↓reduceIte, List.cons_append,
        List.nil_append, List.foldl_cons, List.foldl_nil, Revision.done_bind, apply] using through
  obtain ⟨k, chain, flowing⟩ := Revision.bind_eq_done.mp chain
  obtain ⟨marked, chain, streams⟩ := Revision.bind_eq_done.mp chain
  obtain ⟨packaged, chain, marks⟩ := Revision.bind_eq_done.mp chain
  have second := onNodes_chain chain
  have third := onNodes_chain (Revision.bind_eq_done.mpr ⟨_, second, marks⟩)
  exact ⟨k, onNodes_chain (Revision.bind_eq_done.mpr ⟨_, third, streams⟩), flowing⟩

/-- A pass that goes through would go through again and change nothing. -/
theorem apply_again {pass : Pass} {g g' : Graph} (through : pass.apply g = .done g') :
    pass.apply g' = .done g' := by
  cases pass with
  | combiner chunkSize =>
    exact onNodes_again (fun _ _ first =>
      addCombinePlan_of_not_combinable chunkSize (not_combinable_of_addCombinePlan first)) through
  | annotatePackages =>
    exact onNodes_again (fun _ _ first =>
      (annotated_of_annotatePackages first).annotatePackages_eq) through
  | streamDetection =>
    exact onNodes_again (fun _ _ first => (marked_of_markStreams first).markStreams_eq) through
  | lastInputStreaming chunkSize =>
    refine onNodes_again (fun n m first => ?_) through
    obtain ⟨reduce, rfl, streamed⟩ := joinsStreamed_of_streamLastInputs first
    exact streamLastInputs_eq chunkSize (streamJoins_eq_self _ chunkSize streamed.no_join)
  | keyTypeDiscovery => exact (discoverKeyTypes_again through).2

/-- A pipeline that goes through leaves finished nodes behind, and the schemas would flow as they did. -/
theorem finished_of_pipeline {config : RunConfig} {g g' : Graph}
    (through : applyAll (pipeline config) g = .done g') :
    (∀ n ∈ g'.nodes, Finished (!config.disableCombiner) n) ∧ discoverKeyTypes g' = .done g' := by
  obtain ⟨k, revised, flowing⟩ := revised_of_pipeline through
  obtain ⟨nodes, rfl, each⟩ := onNodes_eq_done_iff.mp revised
  obtain ⟨⟨nodes', rfl, retyped⟩, again⟩ := discoverKeyTypes_again flowing
  refine ⟨fun m member => ?_, again⟩
  obtain ⟨n, among, own⟩ := Traversal.exists_of_forall₂ retyped.flip member
  obtain ⟨_, _, first⟩ := Traversal.exists_of_forall₂ each.flip among
  exact (finished_of_revise first).retyped own

/-- A pipeline that goes through leaves nodes that none of its passes would change. -/
theorem pipeline_again {config : RunConfig} {g g' : Graph}
    (through : applyAll (pipeline config) g = .done g') :
    applyAll (pipeline config) g' = .done g' := by
  obtain ⟨finished, again⟩ := finished_of_pipeline through
  have unchanged : List.Forall₂ (fun n m => revise config.lastInputChunkSize.toNat
      (!config.disableCombiner) n = .done m) g'.nodes g'.nodes :=
    List.forall₂_same.mpr fun n member => (finished n member).revise_eq _
  exact (applyAll_pipeline unchanged).trans again

/-- Every pass, and the pipeline of every configuration, changes nothing the second time: where it
goes through at a graph, it goes through at the result and leaves it as it is. -/
theorem idempotent :
    (∀ (pass : Pass) (g g' : Graph), pass.apply g = .done g' → pass.apply g' = .done g') ∧
    ∀ (config : RunConfig) (g g' : Graph), applyAll (pipeline config) g = .done g' →
      applyAll (pipeline config) g' = .done g' :=
  ⟨fun _ _ _ => apply_again, fun _ _ _ => pipeline_again⟩

/-- A count whose result is joined twice with itself, under indices that come in no order. -/
def countJoined : List Node := [
  ⟨0, [⟨.file "in" none, [.rearrange 0 ["user"]]⟩], none,
    [.package .group 1 none, .aggregate ["user"] [⟨.count, none, "visits"⟩] .full],
    .temporary "tmp/0", none, .none⟩,
  ⟨1, [⟨.temp 0 "tmp/0", [.rearrange 1 ["visits"]]⟩, ⟨.temp 0 "tmp/0", [.rearrange 0 ["user"]]⟩], none,
    [.package (.join .inner) 2 none, .flatten 2, .package (.join .inner) 2 none, .flatten 2,
      .stream "sort" none],
    .final "out" "json", none, .none⟩]

/-- The pipeline rewrites both nodes the first time and none the second time. -/
theorem idempotent_countJoined :
    ∃ g joined done, Graph.ofNodes "scope" countJoined = .ok g ∧
      apply (.lastInputStreaming 5) g = .done joined ∧
      apply (.lastInputStreaming 5) joined = .done joined ∧
      applyAll (pipeline .standard) g = .done done ∧
      List.Forall₂ (fun n m => n ≠ m) g.nodes done.nodes ∧
      applyAll (pipeline .standard) done = .done done := by
  obtain ⟨g, joined, done, made, pass, all, rewritten⟩ : ∃ g joined done,
      Graph.ofNodes "scope" countJoined = .ok g ∧ apply (.lastInputStreaming 5) g = .done joined ∧
      applyAll (pipeline .standard) g = .done done ∧
      List.Forall₂ (fun n m => n ≠ m) g.nodes done.nodes :=
    ⟨_, _, _, rfl, rfl, rfl, by decide⟩
  exact ⟨g, joined, done, made, pass, idempotent.1 _ g joined pass, all, rewritten,
    idempotent.2 .standard g done all⟩

end Pass

end Wavefront
