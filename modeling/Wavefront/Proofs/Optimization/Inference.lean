import Wavefront.Proofs.Dataflow.Inference
import Wavefront.Proofs.Drafting.Form
set_option autoImplicit false

/-!
Schemas and key types of compiled graphs. The flow passes each node after those it reads, so what it
notes about a node follows from what it has noted about these; the passes before it change nothing of
that. Main statement: every node of a compiled graph carries the schema that is inferred for the operator
whose records it writes, and the type of the keys of the shuffle these records come out of.
-/
namespace Wavefront

namespace Optimization

theorem sourceSchema_congr {outputs outputs' : List (Option Schema)} {source : Source}
    (same : ∀ producer, source.producer? = some producer →
      outputs[producer]? = outputs'[producer]?) :
    sourceSchema outputs source = sourceSchema outputs' source := by
  cases source with
  | file location schema => rfl
  | temp node location => simp only [sourceSchema, same node rfl]

theorem schemaAnnotations_congr {outputs outputs' : List (Option Schema)} {n : Node}
    (same : ∀ producer ∈ n.producers, outputs[producer]? = outputs'[producer]?) :
    schemaAnnotations outputs n = schemaAnnotations outputs' n := by
  have branches : n.map.map (branchFacts outputs) = n.map.map (branchFacts outputs') := by
    refine List.map_congr_left fun b member => ?_
    rw [branchFacts, branchFacts, sourceSchema_congr fun producer is =>
      same producer (List.mem_filterMap.mpr ⟨b, member, is⟩)]
  simp only [schemaAnnotations, branches]

/-- The flow has passed the first nodes of a list. -/
structure Passed (nodes : List Node) (count : Nat) (s : Flow) : Prop where
  size : s.nodes.length = nodes.length
  outputs : s.outputs.length = nodes.length
  ahead : ∀ i, count ≤ i → s.nodes[i]? = nodes[i]?
  noted : ∀ i n, i < count → nodes[i]? = some n →
    s.nodes[i]? = some { n with annotations := schemaAnnotations s.outputs n } ∧
      s.outputs[i]? = some (schemaAnnotations s.outputs n).outputSchema

variable {nodes : List Node}

theorem Passed.start (nodes : List Node) : Passed nodes 0 ⟨nodes, nodes.map fun _ => none⟩ :=
  ⟨rfl, List.length_map _, fun _ _ => rfl, fun _ _ below => absurd below (Nat.not_lt_zero _)⟩

/-- The flow passes one more node, which reads nodes that it has passed. -/
theorem Passed.step {count : Nat} {s : Flow} (passed : Passed nodes count s)
    (backward : ∀ (i : Nat) (n : Node), nodes[i]? = some n → ∀ producer ∈ n.producers, producer < i)
    (more : count < nodes.length) (rest : List Nat) :
    ∃ s', s.through (count :: rest) = s'.through rest ∧ Passed nodes (count + 1) s' := by
  have here : nodes[count]? = some nodes[count] := List.getElem?_eq_getElem more
  have there : s.nodes[count]? = some nodes[count] := (passed.ahead count (Nat.le_refl _)).trans here
  let annotations := schemaAnnotations s.outputs nodes[count]
  let s' : Flow := ⟨s.nodes.set count { nodes[count] with annotations },
    s.outputs.set count annotations.outputSchema⟩
  -- What is noted now is read by later nodes only.
  have kept (i : Nat) (n : Node) (below : i < count + 1) (at_ : nodes[i]? = some n) :
      schemaAnnotations s'.outputs n = schemaAnnotations s.outputs n := by
    refine schemaAnnotations_congr fun producer reads => List.getElem?_set_ne ?_
    have := backward i n at_ producer reads
    omega
  refine ⟨s', by rw [Flow.through, there], ?_, ?_, ?_, ?_⟩
  · simpa [s'] using passed.size
  · simpa [s'] using passed.outputs
  · intro i above
    rw [← passed.ahead i (by omega)]
    exact List.getElem?_set_ne (by omega)
  · intro i n below at_
    rw [kept i n below at_]
    by_cases last : i = count
    · subst last
      rw [here] at at_
      cases at_
      exact ⟨List.getElem?_set_self (by rw [passed.size]; exact more),
        List.getElem?_set_self (by rw [passed.outputs]; exact more)⟩
    · obtain ⟨node, output⟩ := passed.noted i n (by omega) at_
      exact ⟨(List.getElem?_set_ne (Ne.symm last)).trans node,
        (List.getElem?_set_ne (Ne.symm last)).trans output⟩

/-- The flow passes all nodes that are left, in their order. -/
theorem Passed.run {count left : Nat} {s : Flow} (passed : Passed nodes count s)
    (backward : ∀ (i : Nat) (n : Node), nodes[i]? = some n → ∀ producer ∈ n.producers, producer < i)
    (whole : count + left = nodes.length) :
    ∃ s', s.through (List.range' count left) = .done s' ∧ Passed nodes nodes.length s' := by
  induction left generalizing count s with
  | zero => exact ⟨s, rfl, by rwa [← whole]⟩
  | succ left ih =>
    obtain ⟨s', through, passed'⟩ := passed.step backward (by omega) (List.range' (count + 1) left)
    obtain ⟨last, through', all⟩ := ih passed' (by omega)
    exact ⟨last, through.trans through', all⟩

/-- What the flow notes about the nodes of a graph follows from what they write. -/
theorem discoverKeyTypes_eq {g : Graph}
    (backward : ∀ (i : Nat) (n : Node), g.nodes[i]? = some n → ∀ producer ∈ n.producers, producer < i)
    (sorted : g.topologicalOrder = .ok (List.range g.nodes.length)) :
    ∃ nodes outputs, discoverKeyTypes g = .done { g with nodes } ∧
      nodes.length = g.nodes.length ∧ ∀ (i : Nat) (n : Node), g.nodes[i]? = some n →
        nodes[i]? = some { n with annotations := schemaAnnotations outputs n } ∧
          outputs[i]? = some (schemaAnnotations outputs n).outputSchema := by
  obtain ⟨s, through, passed⟩ := (Passed.start g.nodes).run backward (Nat.zero_add _)
  refine ⟨s.nodes, s.outputs, ?_, passed.size, fun i n there =>
    passed.noted i n (List.getElem?_eq_some_iff.mp there).1 there⟩
  rw [← List.range_eq_range'] at through
  simp only [discoverKeyTypes, sorted, through, Revision.map_done]

/-! What a branch brings to the shuffle, in the flow and as a term. -/

theorem recordSchema_toLocal (r : RecordOp) (schema : Option Schema) :
    recordSchema r.toLocal schema = r.schema schema := by
  cases r with
  | project columns => simp only [RecordOp.toLocal, recordSchema, RecordOp.schema, Schema.project?_eq]
  | _ => rfl

theorem step_toLocal (r : RecordOp) (facts : BranchFacts) :
    facts.step r.toLocal = { facts with schema := r.schema facts.schema } := by
  rw [← recordSchema_toLocal]
  cases r <;> rfl

theorem ofLocal?_eq_some {op : LocalOp} {r : RecordOp} (is : RecordOp.ofLocal? op = some r) :
    op = r.toLocal := by
  cases op <;> cases is <;> rfl

/-- Operations on single records make of a schema what they make of the records. -/
theorem foldl_step_records {ops : List LocalOp} {start x : Dataflow}
    (through : Dataflow.throughRecords start ops = some x) (keys : Option (List String)) :
    ops.foldl BranchFacts.step ⟨start.schema, keys⟩ = ⟨x.schema, keys⟩ := by
  induction ops generalizing start with
  | nil =>
    cases through
    rfl
  | cons op rest ih =>
    obtain ⟨y, first, others⟩ := Option.bind_eq_some_iff.mp through
    obtain ⟨r, is, rfl⟩ := Option.map_eq_some_iff.mp first
    rw [List.foldl_cons, ofLocal?_eq_some is, step_toLocal, ← ih others, Dataflow.schema]

/-- A branch brings the schema and the keys of its delivery. -/
theorem foldl_step_delivery {ops : List LocalOp} {start : Dataflow} {d : Dataflow.Delivery}
    (delivers : Dataflow.delivery? ops start = some d) :
    ops.foldl BranchFacts.step ⟨start.schema, none⟩ = ⟨d.value.schema, some d.keys⟩ := by
  induction ops generalizing start with
  | nil => cases delivers
  | cons op rest ih =>
    unfold Dataflow.delivery? at delivers
    split at delivers
    · cases delivers
    · rename_i same
      cases same
      cases delivers
      rfl
    · rename_i same
      cases same
      obtain ⟨r, is, others⟩ := Option.bind_eq_some_iff.mp delivers
      rw [List.foldl_cons, ofLocal?_eq_some is, step_toLocal, ← ih others, Dataflow.schema]

def factsOf (d : Dataflow.Delivery) : BranchFacts := ⟨d.value.schema, some d.keys⟩

/-- The flow notes the type of the keys of a shuffle. -/
theorem commonKeyType_deliveries {kind : PackageKind} {deliveries : List Dataflow.Delivery}
    (some_ : deliveries ≠ []) :
    commonKeyType ((deliveries.map factsOf).filterMap fun b =>
        b.keys.map (keyTypeOf (some kind) b.schema)) =
      some (shuffledKeyType kind (deliveries.map fun d => (d.keys, d.value.schema))) := by
  have types : ((deliveries.map factsOf).filterMap fun b =>
      b.keys.map (keyTypeOf (some kind) b.schema)) =
        deliveries.map fun d => keyTypeOf (some kind) d.value.schema d.keys := by
    rw [List.filterMap_map]
    exact congrFun (List.filterMap_eq_map
      (f := fun d : Dataflow.Delivery => keyTypeOf (some kind) d.value.schema d.keys)) deliveries
  rw [types, commonKeyType_eq (by simpa using some_)]
  by_cases distinct : kind = .distinct
  · subst distinct
    obtain ⟨first, rest, rfl⟩ := List.exists_cons_of_ne_nil some_
    simp [shuffledKeyType, keyTypeOf, KeyType.agreed]
  · have each : (fun d : Dataflow.Delivery => keyTypeOf (some kind) d.value.schema d.keys) =
        fun d => KeyType.ofColumns d.keys d.value.schema :=
      funext fun d => keyTypeOf_eq distinct _ _
    rw [each]
    cases kind with
    | distinct => exact absurd rfl distinct
    | group | coGroup | join joinType => simp only [shuffledKeyType, List.map_map]; rfl

/-- Operations on single records after the shuffle make of a schema what they make of the records. -/
theorem foldl_reduceStep_records {rest : List LocalOp} (records : Records rest)
    (branches : List BranchFacts) {start x : Dataflow}
    (computes : rest.foldlM Dataflow.reduceStep start = some x) :
    rest.foldl (reduceStep branches) start.schema = x.schema ∧
      x.lastShuffle? = start.lastShuffle? := by
  induction rest generalizing start with
  | nil =>
    cases computes
    exact ⟨rfl, rfl⟩
  | cons op rest ih =>
    obtain ⟨r, rfl⟩ := records op List.mem_cons_self
    have later : Records rest := fun other member => records other (List.mem_cons_of_mem _ member)
    have next : Dataflow.reduceStep start r.toLocal = some (.each r start) := by cases r <;> rfl
    have step : reduceStep branches start.schema r.toLocal = (Dataflow.each r start).schema := by
      rw [Dataflow.schema, ← recordSchema_toLocal]
      cases r <;> rfl
    rw [List.foldlM_cons, next] at computes
    obtain ⟨schema, last⟩ := ih later computes
    exact ⟨by rw [List.foldl_cons, step, schema], last⟩

/-- A package makes of the schemas of its inputs what the shuffle makes of their records. -/
theorem reduceStep_package {kind : PackageKind} (alone : ∀ joinType, kind ≠ .join joinType)
    (deliveries : List Dataflow.Delivery) (known : Option PackageAnnotation) :
    reduceStep (deliveries.map factsOf) none (.package kind deliveries.length known) =
      shuffledSchema kind (deliveries.map fun d => (d.keys, d.value.schema)) := by
  cases kind with
  | join joinType => exact absurd rfl (alone joinType)
  | group | coGroup =>
    simp only [reduceStep, groupedSchema_eq, shuffledSchema, List.length_map]
    cases deliveries <;> rfl
  | distinct => cases deliveries <;> rfl

theorem reduceStep_flatten (deliveries : List Dataflow.Delivery) (inputs : Nat) (joinType : JoinType)
    (before : Option Schema) :
    reduceStep (deliveries.map factsOf) before (.flatten inputs) =
      shuffledSchema (.join joinType) (deliveries.map fun d => (d.keys, d.value.schema)) := by
  simp only [reduceStep, shuffledSchema, Schema.mapM_concat, List.map_map]
  rfl

/-- A package followed by what its kind calls for makes of the schemas of its inputs what the job
makes of their records. -/
theorem foldl_reduceStep_package {kind : PackageKind} {deliveries : List Dataflow.Delivery}
    {tail rest : List LocalOp} (known : Option PackageAnnotation)
    (shape : Tail kind (deliveries.map Dataflow.Delivery.keys) tail)
    (after : Dataflow.afterPackage kind deliveries.length tail = some rest) {x : Dataflow}
    (computes : rest.foldlM Dataflow.reduceStep
      (.shuffle kind (deliveries.map fun d => (d.keys, d.value))) = some x) :
    (LocalOp.package kind deliveries.length known :: tail).foldl
        (reduceStep (deliveries.map factsOf)) none = x.schema ∧
      x.lastShuffle? = some (kind, deliveries.map fun d => (d.keys, d.value)) := by
  have shuffled : (Dataflow.shuffle kind (deliveries.map fun d => (d.keys, d.value))).schema =
      shuffledSchema kind (deliveries.map fun d => (d.keys, d.value.schema)) := by
    rw [Dataflow.schema, List.map_map]
    rfl
  rw [List.foldl_cons]
  generalize keysOf : deliveries.map Dataflow.Delivery.keys = keys at shape
  cases shape with
  | group records | distinct records | coGroup records =>
    cases after
    rw [reduceStep_package (fun _ => PackageKind.noConfusion), ← shuffled]
    exact foldl_reduceStep_records records _ computes
  | @join joinType _ rest' records =>
    have count : keys.length = deliveries.length := by rw [← keysOf, List.length_map]
    simp only [Dataflow.afterPackage, count, ↓reduceIte, Option.some.injEq] at after
    subst after
    rw [List.foldl_cons, reduceStep_flatten _ _ joinType, ← shuffled]
    exact foldl_reduceStep_records records _ computes
  | @computed own calls rest' records =>
    obtain ⟨d, rfl, rfl⟩ := List.map_eq_singleton_iff.mp keysOf
    cases after
    rw [List.foldlM_cons] at computes
    have computed : reduceStep ([d].map factsOf) (reduceStep ([d].map factsOf) none
        (.package .group [d].length known)) (.aggregate d.keys calls .full) =
          (Dataflow.aggregate d.keys calls
            (.shuffle .group ([d].map fun d => (d.keys, d.value)))).schema := by
      simp only [List.map_cons, List.map_nil, Dataflow.schema, reduceStep, aggregateSchema_eq]
      rfl
    rw [List.foldl_cons, computed]
    exact foldl_reduceStep_records records _ computes

theorem afterPackage_of_tail {kind : PackageKind} {keys : List (List String)} {tail : List LocalOp}
    (after : Tail kind keys tail) :
    ∃ rest, Dataflow.afterPackage kind keys.length tail = some rest := by
  cases after with
  | group | computed | distinct | coGroup => exact ⟨_, rfl⟩
  | join => exact ⟨_, if_pos rfl⟩

/-- The branches of a shuffle deliver in their order, under their own keys. -/
theorem delivered_in_order {n : Node} {branches : List (List LocalOp × List String)}
    (map : n.map.map Branch.ops = rearranged branches) {f : Nat → Option Dataflow}
    {deliveries : List Dataflow.Delivery}
    (delivered : List.Forall₂ (fun (b : Branch) d =>
      Dataflow.deliveryOf (b.source.meaning f, b.ops) = some d) n.map deliveries) :
    (∀ (i : Nat) (d : Dataflow.Delivery), deliveries[i]? = some d → d.index = i) ∧
      deliveries.map Dataflow.Delivery.keys = branches.map Prod.snd := by
  obtain ⟨lengths, pairs⟩ := Traversal.forall₂_iff_getElem?.mp delivered
  have count : n.map.length = branches.length := by
    simpa [rearranged] using congrArg List.length map
  have each (i : Nat) (d : Dataflow.Delivery) (there : deliveries[i]? = some d) :
      ∃ feed, branches[i]? = some feed ∧ d.index = i ∧ d.keys = feed.2 := by
    have inside := (List.getElem?_eq_some_iff.mp there).1
    have branch := List.getElem?_eq_getElem (l := n.map) (i := i) (by omega)
    have feed := List.getElem?_eq_getElem (l := branches) (i := i) (by omega)
    have ops : n.map[i].ops = branches[i].1 ++ [.rearrange i branches[i].2] := by
      have same := congrArg (·[i]?) map
      simpa only [rearranged, List.getElem?_map, List.getElem?_mapIdx, branch, feed,
        Option.map_some, Option.some.injEq] using same
    obtain ⟨start, _, delivers⟩ := Option.bind_eq_some_iff.mp (pairs i _ d branch there)
    rw [ops, Dataflow.delivery?_append] at delivers
    obtain ⟨x, _, rfl⟩ := Option.map_eq_some_iff.mp delivers
    exact ⟨_, feed, rfl, rfl⟩
  refine ⟨fun i d there => (each i d there).choose_spec.2.1, ?_⟩
  refine List.ext_getElem (by simp; omega) fun i left right => ?_
  rw [List.getElem_map, List.getElem_map]
  obtain ⟨feed, at_, _, keys⟩ := each i _ (List.getElem?_eq_getElem (by simpa using left))
  rw [keys, (List.getElem?_eq_some_iff.mp at_).2]

/-- What is noted about a drafted node follows from what it computes, if that is so for what its
branches read. -/
theorem Drafted.inferred {n : Node} (drafted : Drafted n) {outputs : List (Option Schema)}
    {f : Nat → Option Dataflow}
    (sources : ∀ b ∈ n.map, ∀ y, b.source.meaning f = some y →
      sourceSchema outputs b.source = y.schema)
    {x : Dataflow} (computes : n.meaning f = some x) :
    (schemaAnnotations outputs n).outputSchema = x.schema ∧
      (n.reduce = [] → (schemaAnnotations outputs n).keyType = none) ∧
      (n.reduce ≠ [] → ∃ kind inputs, x.lastShuffle? = some (kind, inputs) ∧
        (inputs ≠ [] → (schemaAnnotations outputs n).keyType =
          some (shuffledKeyType kind (inputs.map fun input => (input.1, input.2.schema))))) := by
  obtain ⟨own, shaped⟩ := drafted.shaped
  generalize branchesOf : n.map.map Branch.ops = all at shaped
  generalize reduceOf : n.reduce = reduce at shaped
  cases shaped with
  | mapOnly records =>
    obtain ⟨⟨source, ops⟩, only, rfl⟩ := List.map_eq_singleton_iff.mp branchesOf
    simp only [Node.meaning, only, reduceOf, List.map_cons, List.map_nil, Dataflow.ofPhases]
      at computes
    obtain ⟨start, begins, through⟩ := Option.bind_eq_some_iff.mp computes
    have facts : branchFacts outputs ⟨source, ops⟩ = ⟨x.schema, none⟩ := by
      rw [branchFacts, sources ⟨source, ops⟩ (by simp [only]) start begins]
      exact foldl_step_records through none
    refine ⟨?_, fun _ => ?_, fun shuffles => absurd rfl shuffles⟩
    · simp only [schemaAnnotations, only, reduceOf, List.map_cons, List.map_nil, facts]
      rfl
    · simp only [schemaAnnotations, only, List.map_cons, List.map_nil, facts]
      rfl
  | @shuffled branches kind tail records after =>
    rw [Node.meaning, reduceOf] at computes
    have traversed := computes
    rw [Dataflow.ofPhases_cons] at traversed
    obtain ⟨deliveries, delivers, _⟩ := Option.bind_eq_some_iff.mp traversed
    have delivered := List.forall₂_map_left_iff.mp (Traversal.mapM_eq_some.mp delivers)
    obtain ⟨placed, keys⟩ := delivered_in_order branchesOf delivered
    have count : branches.length = deliveries.length := by
      simpa using (congrArg List.length keys).symm
    have facts : n.map.map (branchFacts outputs) = deliveries.map factsOf := by
      obtain ⟨lengths, pairs⟩ := Traversal.forall₂_iff_getElem?.mp delivered
      refine List.ext_getElem (by simpa using lengths) fun i left right => ?_
      have branch := List.getElem?_eq_getElem (l := n.map) (i := i) (by simpa using left)
      have there := List.getElem?_eq_getElem (l := deliveries) (i := i) (by simpa using right)
      obtain ⟨start, begins, delivery⟩ := Option.bind_eq_some_iff.mp (pairs i _ _ branch there)
      rw [List.getElem_map, List.getElem_map, branchFacts,
        sources _ (List.mem_of_getElem? branch) start begins]
      exact foldl_step_delivery delivery
    obtain ⟨rest, unfolds⟩ := afterPackage_of_tail after
    rw [← keys] at after unfolds
    rw [List.length_map] at unfolds
    have size := delivered.length_eq
    rw [count, ← size, ← List.length_map fun b : Branch => (b.source.meaning f, b.ops),
      Dataflow.ofPhases_package (Traversal.mapM_eq_some.mp delivers) placed
        (by rwa [List.length_map, size])] at computes
    obtain ⟨schema, last⟩ := foldl_reduceStep_package none after unfolds computes
    refine ⟨?_, fun nothing => (List.cons_ne_nil _ _ nothing).elim, fun _ => ⟨_, _, last, ?_⟩⟩
    · rw [schemaAnnotations, facts, reduceOf, count]
      exact schema
    · intro fed
      have some_ : deliveries ≠ [] := fun nothing => fed (by simp [nothing])
      rw [schemaAnnotations, facts, reduceOf]
      refine (commonKeyType_deliveries some_).trans ?_
      rw [List.map_map]
      rfl

/-- The passes before the flow change nothing of what it notes. -/
theorem Optimized.noted_eq {chunkSize : Nat} {combines : Bool} {n m : Node}
    (optimized : Optimized chunkSize combines n m) (outputs : List (Option Schema)) :
    (schemaAnnotations outputs m).outputSchema = (schemaAnnotations outputs n).outputSchema ∧
      (schemaAnnotations outputs m).keyType = (schemaAnnotations outputs n).keyType ∧
      (m.reduce = [] ↔ n.reduce = []) := by
  cases optimized with
  | mapOnly a empty => exact ⟨rfl, rfl, Iff.rfl⟩
  | @combined a source ops rest keys calls wanted map records reduce algebraic after =>
    have facts : branchFacts outputs
        ⟨source, ops ++ [.aggregate keys calls .initial, .rearrange 0 keys]⟩ =
          branchFacts outputs ⟨source, ops ++ [.rearrange 0 keys]⟩ := by
      simp only [branchFacts, List.foldl_append]
      rfl
    refine ⟨?_, ?_, by simp [reduce]⟩
    · simp only [schemaAnnotations, List.map_cons, List.map_nil, facts, map, reduce]
      rfl
    · simp only [schemaAnnotations, List.map_cons, List.map_nil, facts, map, reduce]
      rfl
  | @streamed a branches rest map records reduce after =>
    refine ⟨?_, ?_, by simp [reduce]⟩
    · simp only [schemaAnnotations, reduce]
      rfl
    · simp only [schemaAnnotations, reduce]
      rfl
  | @annotated a branches kind tail map records reduce after other whole =>
    refine ⟨?_, ?_, by simp [reduce]⟩
    · simp only [schemaAnnotations, reduce]
      rfl
    · simp only [schemaAnnotations, reduce]
      rfl

end Optimization

open Optimization

namespace Plan

variable {p : Plan} {config : RunConfig} {g : Graph}

/-- What the nodes of a compiled graph carry is what the flow notes about the drafted nodes. -/
theorem noted_of_compile (compiled : p.compile config = .ok g) :
    ∃ g₀ outputs, p.toGraph config = .ok g₀ ∧ g.nodes.length = g₀.nodes.length ∧
      ∀ (i : Nat) (n : Node), g₀.nodes[i]? = some n →
        outputs[i]? = some (schemaAnnotations outputs n).outputSchema ∧
        ∃ m, g.nodes[i]? = some m ∧ (m.reduce = [] ↔ n.reduce = []) ∧
          m.annotations.outputSchema = (schemaAnnotations outputs n).outputSchema ∧
          m.annotations.keyType = (schemaAnnotations outputs n).keyType := by
  obtain ⟨g₀, made, optimizes⟩ := Traversal.bind_eq_ok.mp compiled
  obtain ⟨built, drafted⟩ := drafted_of_toGraph made
  have backward := backward_of_toGraph made
  obtain ⟨revised, each⟩ := Traversal.forall₂_of_exists fun n member =>
    (drafted n member).revise_eq_done config.lastInputChunkSize.toNat (!config.disableCombiner)
  obtain ⟨lengths, pairs⟩ := Traversal.forall₂_iff_getElem?.mp each
  have before (i : Nat) (m : Node) (there : revised[i]? = some m) :
      ∃ n, g₀.nodes[i]? = some n ∧
        Optimized config.lastInputChunkSize.toNat (!config.disableCombiner) n m :=
    Graph.getElem?_optimized (each.imp fun _ _ both => both.2) there
  have sorted : Graph.topologicalOrder { g₀ with nodes := revised } =
      .ok (List.range revised.length) := by
    have ids : revised.map Node.id = g₀.nodes.map Node.id :=
      Traversal.map_eq_of_forall₂ (fun _ _ both => both.2.id_eq) each
    rw [Graph.topologicalOrder_congr ids, built.topologicalOrder_eq_range (built.rises backward),
      lengths]
  obtain ⟨nodes, outputs, discovered, size, noted⟩ :=
    @discoverKeyTypes_eq { g₀ with nodes := revised } (fun i m there producer reads => by
      obtain ⟨n, at_, optimized⟩ := before i m there
      exact backward i n at_ producer (optimized.producers_eq ▸ reads)) sorted
  rw [Pass.applyAll_pipeline (each.imp fun n m both => both.1), discovered] at optimizes
  cases optimizes
  refine ⟨g₀, outputs, made, size.trans lengths.symm, fun i n there => ?_⟩
  have inside := (List.getElem?_eq_some_iff.mp there).1
  have after := List.getElem?_eq_getElem (l := revised) (i := i) (by omega)
  obtain ⟨schema, keyType, shuffles⟩ := (pairs i n _ there after).2.noted_eq outputs
  obtain ⟨node, output⟩ := noted i _ after
  exact ⟨schema ▸ output, _, node, shuffles, schema, keyType⟩

/-- What the nodes of a graph carry is inferred on a plan, for the operators they stand for. -/
structure Inferred (p : Plan) (nodes : List Node) (owner : Nat → Nat) : Prop where
  /-- The inference goes through all of the plan: the schema of an operator is what it makes of those of
  its inputs. -/
  infers : ∀ (id : Nat) (op : PlanOp), p.op? id = some op → p.schema id = p.infer p.schema op
  /-- The schema of what a node writes is that of its operator. -/
  schema : ∀ (position : Nat) (n : Node), nodes[position]? = some n →
    n.annotations.outputSchema = p.schema (owner position)
  /-- Nodes without shuffle have no keys. -/
  plain : ∀ (position : Nat) (n : Node), nodes[position]? = some n → n.reduce = [] →
    n.annotations.keyType = none
  /-- The keys of a node are those of the last shuffle of its operator. -/
  keyType : ∀ (position : Nat) (n : Node), nodes[position]? = some n → n.reduce ≠ [] →
    (∃ shuffle, p.LastShuffle (owner position) shuffle) ∧
      ∀ shuffle, p.LastShuffle (owner position) shuffle →
        n.annotations.keyType = some (p.keyType shuffle)

theorem aggregatesOwnGroups_of_toGraph (made : p.toGraph config = .ok g) :
    p.AggregatesOwnGroups := by
  rcases p.toGraph_cases config with ⟨_, _, failed⟩ | ⟨_, _, _, failed⟩ | ⟨_, _, owned, _⟩
  · rw [made] at failed
    cases failed
  · rw [made] at failed
    cases failed
  · exact owned

/-- What is noted about the nodes before a node is what they write. -/
theorem noted_meaning {outputs : List (Option Schema)}
    (backward : ∀ (i : Nat) (n : Node), g.nodes[i]? = some n → ∀ producer ∈ n.producers, producer < i)
    (drafted : ∀ n ∈ g.nodes, Drafted n)
    (noted : ∀ (i : Nat) (n : Node), g.nodes[i]? = some n →
      outputs[i]? = some (schemaAnnotations outputs n).outputSchema)
    {i : Nat} {n : Node} (there : g.nodes[i]? = some n) {x : Dataflow} (meant : g.meaning i = some x) :
    ∀ b ∈ n.map, ∀ y, b.source.meaning g.meaning = some y →
      sourceSchema outputs b.source = y.schema := by
  induction i using Nat.strongRecOn generalizing n x with
  | ind i ih =>
    intro b member y begins
    cases source : b.source with
    | file location schema =>
      rw [source] at begins
      cases begins
      simp only [sourceSchema, Dataflow.schema]
    | temp producer location =>
      rw [source] at begins
      have lower : producer < i := backward i n there producer
        (Node.mem_producers.mpr ⟨b, member, location, source⟩)
      have inside := (List.getElem?_eq_some_iff.mp there).1
      have before := List.getElem?_eq_getElem (l := g.nodes) (i := producer) (by omega)
      have reads := ih producer lower before begins
      have computes : g.nodes[producer].meaning g.meaning = some y :=
        (Graph.meaning_eq backward before).symm.trans begins
      have known := (drafted _ (List.mem_of_getElem? before)).inferred reads computes
      rw [sourceSchema, noted producer _ before, Option.join_some, known.1]

/-- Whether the combiner is enabled or not, the nodes of a compiled graph carry the schemas and key
types that are inferred on the plan for the operators whose records they write. -/
theorem compile_inferred (compiled : p.compile config = .ok g) :
    ∃ g₀ owner, p.toGraph config = .ok g₀ ∧ g.nodes.length = g₀.nodes.length ∧
      Realizes p g₀ (fun position => owner position) ∧ Inferred p g.nodes owner := by
  obtain ⟨g₀, outputs, made, size, noted⟩ := noted_of_compile compiled
  obtain ⟨_, drafted⟩ := drafted_of_toGraph made
  have backward := backward_of_toGraph made
  have owned := aggregatesOwnGroups_of_toGraph made
  obtain ⟨order, s, validated, reached, rfl⟩ := reached_of_toGraph made
  obtain ⟨owner, realizes⟩ := reached.realizes (w := p.surroundings config) validated
  let g₀ := s.graph (p.surroundings config)
  let ownerOf (i : Nat) : Nat := if inside : i < g₀.nodes.length then owner ⟨i, inside⟩ else 0
  have same : (fun position : Fin g₀.nodes.length => ownerOf position) = owner :=
    funext fun position => dif_pos position.2
  -- What is inferred for the operator of a node, and what is noted about it when it was drafted.
  have each (i : Nat) (m : Node) (there : g.nodes[i]? = some m) :
      ∃ op x, p.op? (ownerOf i) = some op ∧ p.meaning (ownerOf i) = some x ∧
        m.annotations.outputSchema = x.schema ∧
        (m.reduce = [] → m.annotations.keyType = none) ∧
        (m.reduce ≠ [] → ∃ kind inputs, x.lastShuffle? = some (kind, inputs) ∧
          (inputs ≠ [] → m.annotations.keyType =
            some (shuffledKeyType kind (inputs.map fun input => (input.1, input.2.schema))))) := by
    have inside : i < g₀.nodes.length := size ▸ (List.getElem?_eq_some_iff.mp there).1
    have before := List.getElem?_eq_getElem inside
    obtain ⟨output, m', there', shuffles, schema, keyType⟩ := noted i _ before
    obtain rfl : m = m' := Option.some.inj (there.symm.trans there')
    obtain ⟨x, meant, writes⟩ := realizes.computes ⟨i, inside⟩
    have is : ownerOf i = owner ⟨i, inside⟩ := dif_pos inside
    obtain ⟨op, found⟩ : ∃ op, p.op? (ownerOf i) = some op := by
      rcases (realizes.written _).mpr ⟨⟨i, inside⟩, rfl⟩ with ⟨op, found, _⟩ | ⟨op, found, _⟩ <;>
        exact ⟨op, is ▸ found⟩
    have sources := noted_meaning backward drafted (fun j n at_ => (noted j n at_).1) before writes
    have known := (drafted _ (List.getElem_mem inside)).inferred sources
      ((Graph.meaning_eq backward before).symm.trans writes)
    refine ⟨op, x, found, is ▸ meant, schema.trans known.1, fun plain => ?_, fun shuffled => ?_⟩
    · rw [keyType, known.2.1 (shuffles.mp plain)]
    · obtain ⟨kind, inputs, last, type⟩ := known.2.2 fun plain => shuffled (shuffles.mpr plain)
      exact ⟨kind, inputs, last, fun fed => keyType.trans (type fed)⟩
  refine ⟨g₀, ownerOf, made, size, same ▸ realizes, fun _ _ found => validated.schema_eq found, ?_, ?_,
    ?_⟩
  · intro i m there
    obtain ⟨op, x, found, meant, schema, _⟩ := each i m there
    rw [schema, validated.schema_of_meaning owned found meant]
  · intro i m there plain
    obtain ⟨_, _, _, _, _, nothing, _⟩ := each i m there
    exact nothing plain
  · intro i m there shuffled
    obtain ⟨op, x, found, meant, _, _, type⟩ := each i m there
    obtain ⟨kind, inputs, last, keyType⟩ := type shuffled
    obtain ⟨shuffle, after, fed, is⟩ :=
      validated.lastShuffle_of_meaning owned found meant last
    refine ⟨⟨shuffle, after⟩, fun other last => ?_⟩
    rw [keyType fed, last.unique after, is]

/-- The time spent on pages by their titles, and the pages by a column that they do not have. Pages are
numbered, so the join keys on numbers and the group on texts. -/
def timesByTitle : Plan := ⟨[
  ⟨0, .load "visits" (some ⟨[⟨"page", .int32, false⟩, ⟨"duration", .float32, true⟩]⟩), []⟩,
  ⟨1, .load "pages" (some ⟨[⟨"id", .int32, false⟩, ⟨"site", .binary, false⟩, ⟨"title", .utf8, false⟩]⟩),
    []⟩,
  ⟨2, .project ["title", "id"], [1]⟩,
  ⟨3, .join [["page"], ["id"]] .inner, [0, 2]⟩,
  ⟨4, .group ["title"], [3]⟩,
  ⟨5, .aggregate [⟨.sum, some "duration", "time"⟩, ⟨.count, none, "visits"⟩], [4]⟩,
  ⟨6, .store "times" "json", [5]⟩,
  ⟨7, .project ["owner"], [1]⟩,
  ⟨8, .store "owners" "json", [7]⟩]⟩

/-- What the keys and the records of its jobs are: one writes the pages, which two operators read, one
joins them with the visits, one sums up, and one asks for the missing column. -/
def timesByTitleJobs : List (Option KeyType × Option Schema) := [
  (none, some ⟨[⟨"id", .int32, false⟩, ⟨"site", .binary, false⟩, ⟨"title", .utf8, false⟩]⟩),
  (some .int32, some ⟨[⟨"page", .int32, false⟩, ⟨"duration", .float32, true⟩, ⟨"title", .utf8, false⟩,
    ⟨"id", .int32, false⟩]⟩),
  (some .utf8, some ⟨[⟨"title", .utf8, false⟩, ⟨"time", .float64, true⟩, ⟨"visits", .int64, true⟩]⟩),
  (none, none)]

theorem compile_inferred_timesByTitle :
    ∃ g g₀ owner, timesByTitle.compile RunConfig.standard = .ok g ∧
      timesByTitle.toGraph RunConfig.standard = .ok g₀ ∧
      (g.nodes.map fun n => (n.annotations.keyType, n.annotations.outputSchema)) = timesByTitleJobs ∧
      [1, 3, 6, 8].map timesByTitle.schema = timesByTitleJobs.map Prod.snd ∧
      Realizes timesByTitle g₀ (fun position => owner position) ∧
      Inferred timesByTitle g.nodes owner := by
  obtain ⟨g, compiled, noted⟩ : ∃ g : Graph, timesByTitle.compile RunConfig.standard = .ok g ∧
      (g.nodes.map fun n => (n.annotations.keyType, n.annotations.outputSchema)) = timesByTitleJobs :=
    ⟨_, rfl, rfl⟩
  obtain ⟨g₀, owner, made, _, realizes, inferred⟩ := compile_inferred compiled
  exact ⟨g, g₀, owner, compiled, made, noted, rfl, realizes, inferred⟩

end Plan

end Wavefront
