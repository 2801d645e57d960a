import Wavefront.Proofs.Optimization.Compilation
set_option autoImplicit false

/-!
Optimization can be undone. Erasing takes out what the passes put in: combine plans, the partial
aggregates in front of the shuffle, the streaming of joins and all annotations. Main statement:
erasing a compiled graph gives the graph that was drafted, and what the passes have put in is where
it belongs.
-/
namespace Wavefront

/-- Whether an operation turns records into partial results. -/
def LocalOp.isInitial : LocalOp → Bool
  | .aggregate _ _ .initial => true
  | _ => false

/-- What an operation was before the passes: a last merge computes its calls in one place again, a
streamed join is a package and a cross product, and no package knows its inputs. -/
def LocalOp.erase : LocalOp → List LocalOp
  | .aggregate keys calls .final => [.aggregate keys calls .full]
  | .joinPackage inputs joinType _ _ _ => [.package (.join joinType) inputs none, .flatten inputs]
  | .package kind inputs _ => [.package kind inputs none]
  | op => [op]

def Branch.erase (b : Branch) : Branch :=
  { b with ops := (b.ops.filter fun op => !op.isInitial).flatMap LocalOp.erase }

def Node.erase (n : Node) : Node :=
  { n with
    map := n.map.map Branch.erase
    combine := none
    reduce := n.reduce.flatMap LocalOp.erase
    annotations := .none }

def Graph.erase (g : Graph) : Graph := { g with nodes := g.nodes.map Node.erase }

namespace Optimization

def shuffleKeys (n : Node) : List (List String) := (mapFeeds n).map Feed.keys

/-- An operation that regroups records has one input for each of some keys, and knows them. -/
def KnowsInputs (keys : List (List String)) : LocalOp → Prop
  | .package kind inputs known => inputs = keys.length ∧ known = some (knownOf kind keys)
  | .joinPackage inputs joinType _ _ known =>
    inputs = keys.length ∧ known = some (knownOf (.join joinType) keys)
  | _ => True

/-- What the passes have put into a node, compared with the node as it was drafted. -/
structure Improved (config : RunConfig) (n m : Node) : Prop where
  /-- Calls that split get a combine plan if the configuration wants one. -/
  combines : m.combine.isSome = true ↔ config.disableCombiner = false ∧ Splits n.reduce
  /-- The three steps of the calls stand right before, between and right after the shuffle. -/
  steps : ∀ plan, m.combine = some plan → ∃ source ops rest keys calls,
    n.map = [⟨source, ops ++ [.rearrange 0 keys]⟩] ∧
    n.reduce = .package .group 1 none :: .aggregate keys calls .full :: rest ∧
    m.map = [⟨source, ops ++ [.aggregate keys calls .initial, .rearrange 0 keys]⟩] ∧
    plan = ⟨[.package .group 1 (some (knownOf .group [keys])), .aggregate keys calls .intermediate,
      .rearrange 0 keys], config.lastInputChunkSize.toNat⟩ ∧
    m.reduce = .package .group 1 (some (knownOf .group [keys])) ::
      .aggregate keys calls .final :: rest
  /-- Without a combine plan the branches are left alone. -/
  branches : m.combine = none → m.map = n.map
  /-- A streamed join was an inner join, and its last input is the one that is streamed. -/
  streams : ∀ inputs joinType chunkSize streamed known,
    .joinPackage inputs joinType chunkSize streamed known ∈ m.reduce →
      joinType = .inner ∧ chunkSize = config.lastInputChunkSize.toNat ∧ streamed = inputs - 1 ∧
        .package (.join .inner) inputs none ∈ n.reduce
  /-- All inner joins are streamed. -/
  joins : ∀ inputs known, .package (.join .inner) inputs known ∉ m.reduce
  /-- All packages know the keys of their inputs. -/
  known : ∀ op ∈ m.combineOps ++ m.reduce, KnowsInputs (shuffleKeys n) op

def Plain (ops : List LocalOp) : Prop := ∀ op ∈ ops, op.isInitial = false ∧ op.erase = [op]

theorem Plain.filter_eq {ops : List LocalOp} (plain : Plain ops) :
    (ops.filter fun op => !op.isInitial) = ops :=
  List.filter_eq_self.mpr fun op member => by simp [(plain op member).1]

theorem Plain.flatMap_eq {ops : List LocalOp} (plain : Plain ops) :
    ops.flatMap LocalOp.erase = ops := by
  induction ops with
  | nil => rfl
  | cons op rest ih =>
    rw [List.flatMap_cons, (plain op List.mem_cons_self).2, ih fun other member =>
      plain other (List.mem_cons_of_mem _ member), List.singleton_append]

theorem plain_of_records {ops : List LocalOp} (records : Records ops) : Plain ops := by
  intro op member
  obtain ⟨r, rfl⟩ := records op member
  cases r <;> exact ⟨rfl, rfl⟩

theorem Plain.cons {op : LocalOp} {rest : List LocalOp} (initial : op.isInitial = false)
    (erased : op.erase = [op]) (plain : Plain rest) : Plain (op :: rest) := by
  intro other member
  rcases List.mem_cons.mp member with rfl | later
  · exact ⟨initial, erased⟩
  · exact plain other later

theorem plain_of_tail {kind : PackageKind} {keys : List (List String)} {tail : List LocalOp}
    (after : Tail kind keys tail) : Plain tail := by
  cases after with
  | group records | distinct records | coGroup records => exact plain_of_records records
  | computed records | join records => exact .cons rfl rfl (plain_of_records records)

theorem plain_rearranged {ops : List LocalOp} (records : Records ops) (index : Nat)
    (keys : List String) :
    Plain (ops ++ [.rearrange index keys]) := by
  intro op member
  rcases List.mem_append.mp member with before | last
  · exact plain_of_records records op before
  · rw [List.mem_singleton.mp last]
    exact ⟨rfl, rfl⟩

theorem erase_branch_eq {b : Branch} (plain : Plain b.ops) : b.erase = b := by
  rw [Branch.erase, plain.filter_eq, plain.flatMap_eq]

/-- Erasing leaves the branches of a shuffle alone. -/
theorem erase_branches_eq {n : Node} {branches : List (List LocalOp × List String)}
    (map : n.map.map Branch.ops = rearranged branches) (records : ∀ b ∈ branches, Records b.1) :
    n.map.map Branch.erase = n.map := by
  have each : ∀ b ∈ n.map, b.erase = b := by
    intro b member
    have among : b.ops ∈ rearranged branches := map ▸ List.mem_map_of_mem member
    obtain ⟨i, inside, same⟩ := List.mem_mapIdx.mp among
    apply erase_branch_eq
    rw [← same]
    exact plain_rearranged (records _ (List.getElem_mem inside)) i _
  rw [List.map_congr_left each, List.map_id']

variable {chunkSize : Nat} {combines : Bool} {n m : Node}

/-- Erasing undoes what the passes do to a drafted node. -/
theorem Optimized.erase_eq (optimized : Optimized chunkSize combines n m) (drafted : Drafted n) :
    m.erase = n := by
  obtain ⟨id, map, combine, reduce, output, parallelism, annotations⟩ := n
  obtain ⟨⟨own, shaped⟩, rfl, rfl⟩ := drafted
  cases optimized with
  | mapOnly a empty =>
    simp only at empty
    subst empty
    obtain ⟨ops, same, records⟩ := shaped.one_branch
    obtain ⟨b, rfl, rfl⟩ := List.map_eq_singleton_iff.mp same
    simp only [Node.erase, List.map_cons, List.map_nil, erase_branch_eq (plain_of_records records),
      List.flatMap_nil]
  | @combined a source ops rest keys calls wanted branch records whole algebraic after =>
    simp only at branch whole
    subst branch whole
    have before := plain_of_records records
    have undone :
        (⟨source, ops ++ [.aggregate keys calls .initial, .rearrange 0 keys]⟩ : Branch).erase =
        ⟨source, ops ++ [.rearrange 0 keys]⟩ := by
      simp only [Branch.erase, List.filter_append, before.filter_eq, List.flatMap_append,
        before.flatMap_eq]
      rfl
    simp only [Node.erase, List.map_cons, List.map_nil, undone, List.flatMap_cons, LocalOp.erase,
      (plain_of_records after).flatMap_eq, List.cons_append, List.nil_append]
  | @streamed a branches rest feeds records whole after =>
    simp only at whole
    subst whole
    simp only [Node.erase, erase_branches_eq feeds records, List.flatMap_cons, LocalOp.erase,
      (plain_of_records after).flatMap_eq, List.cons_append, List.nil_append]
  | @annotated a branches kind tail feeds records whole after other unsplit =>
    simp only at whole
    subst whole
    simp only [Node.erase, erase_branches_eq feeds records, List.flatMap_cons, LocalOp.erase,
      (plain_of_tail after).flatMap_eq, List.cons_append, List.nil_append]

/-- An operation that puts records of several inputs into one group. -/
def regroups : LocalOp → Bool
  | .package _ _ _ | .joinPackage _ _ _ _ _ => true
  | _ => false

/-- Operations that regroup nothing. -/
def Loose (ops : List LocalOp) : Prop := ∀ op ∈ ops, regroups op = false

theorem loose_of_records {ops : List LocalOp} (records : Records ops) : Loose ops := by
  intro op member
  obtain ⟨r, rfl⟩ := records op member
  cases r <;> rfl

theorem Loose.cons {op : LocalOp} {rest : List LocalOp} (first : regroups op = false)
    (loose : Loose rest) : Loose (op :: rest) := by
  intro other member
  rcases List.mem_cons.mp member with rfl | later
  · exact first
  · exact loose other later

theorem Loose.eq_of_mem_cons {op other : LocalOp} {rest : List LocalOp} (loose : Loose rest)
    (member : other ∈ op :: rest) (is : regroups other = true) : other = op :=
  (List.mem_cons.mp member).resolve_right fun later =>
    Bool.false_ne_true ((loose other later).symm.trans is)

theorem loose_of_tail {kind : PackageKind} {keys : List (List String)} {tail : List LocalOp}
    (after : Tail kind keys tail) : Loose tail := by
  cases after with
  | group records | distinct records | coGroup records => exact loose_of_records records
  | computed records | join records => exact .cons rfl (loose_of_records records)

theorem Loose.knows {ops : List LocalOp} (loose : Loose ops) (keys : List (List String))
    {op : LocalOp} (member : op ∈ ops) : KnowsInputs keys op := by
  cases op with
  | package kind inputs known => cases loose _ member
  | joinPackage inputs joinType chunkSize streamed known => cases loose _ member
  | _ => trivial

theorem shuffleKeys_eq {branches : List (List LocalOp × List String)}
    (map : n.map.map Branch.ops = rearranged branches) : shuffleKeys n = branches.map Prod.snd := by
  rw [shuffleKeys, mapFeeds_eq map]
  refine List.ext_getElem? fun i => ?_
  simp only [feedsOf, List.getElem?_map, List.getElem?_mapIdx, Option.map_map]
  rfl

/-- A node that the passes leave without a combine plan, with the operation after its shuffle. -/
theorem improved_of_package {config : RunConfig} {op : LocalOp} {rest : List LocalOp}
    (combine : m.combine = none) (map : m.map = n.map)
    (unsplit : ¬ (config.disableCombiner = false ∧ Splits n.reduce))
    (reduce : m.reduce = op :: rest)
    (loose : Loose rest) (join : ∀ inputs known, op ≠ .package (.join .inner) inputs known)
    (stream : ∀ inputs joinType chunkSize streamed known,
      op = .joinPackage inputs joinType chunkSize streamed known →
        joinType = .inner ∧ chunkSize = config.lastInputChunkSize.toNat ∧ streamed = inputs - 1 ∧
          .package (.join .inner) inputs none ∈ n.reduce)
    (knows : KnowsInputs (shuffleKeys n) op) : Improved config n m where
  combines := by simp [combine, unsplit]
  steps plan there := by simp [combine] at there
  branches _ := map
  streams inputs joinType chunkSize streamed known member := by
    rw [reduce] at member
    exact stream inputs joinType chunkSize streamed known (loose.eq_of_mem_cons member rfl).symm
  joins inputs known member := by
    rw [reduce] at member
    exact join inputs known (loose.eq_of_mem_cons member rfl).symm
  known other member := by
    rw [Node.combineOps, combine, reduce] at member
    rcases List.mem_cons.mp member with rfl | later
    · exact knows
    · exact loose.knows _ later

/-- What the passes put into a drafted node is where it belongs. -/
theorem Optimized.improved {config : RunConfig} (drafted : Drafted n)
    (optimized : Optimized config.lastInputChunkSize.toNat (!config.disableCombiner) n m) :
    Improved config n m := by
  cases optimized with
  | mapOnly a empty =>
    refine ⟨?_, ?_, fun _ => rfl, ?_, ?_, ?_⟩
    · simp [drafted.combine, empty, Splits]
    · intro plan there
      simp [drafted.combine] at there
    · intro inputs joinType chunkSize streamed known member
      simp [empty] at member
    · intro inputs known member
      simp [empty] at member
    · intro op member
      simp [Node.combineOps, drafted.combine, empty] at member
  | @combined a source ops rest keys calls wanted branch records whole algebraic after =>
    have loose : Loose (.aggregate keys calls .final :: rest) := .cons rfl (loose_of_records after)
    have own : shuffleKeys n = [keys] := by
      have feeding : n.map.map Branch.ops = rearranged [(ops, keys)] := by
        rw [branch]
        rfl
      rw [shuffleKeys_eq feeding]
      rfl
    refine ⟨?_, ?_, ?_, ?_, ?_, ?_⟩
    · exact ⟨fun _ => ⟨by simpa using wanted, 1, none, keys, calls, .full, rest, whole, algebraic⟩,
        fun _ => rfl⟩
    · intro plan there
      cases there
      exact ⟨source, ops, rest, keys, calls, branch, whole, rfl, rfl, rfl⟩
    · intro nothing
      cases nothing
    · intro inputs joinType chunkSize streamed known member
      cases loose.eq_of_mem_cons member rfl
    · intro inputs known member
      cases loose.eq_of_mem_cons member rfl
    · intro op member
      rw [own]
      rcases List.mem_append.mp member with inCombine | inReduce
      · simp only [Node.combineOps, Option.map_some, Option.getD_some, List.mem_cons,
          List.not_mem_nil, or_false] at inCombine
        rcases inCombine with rfl | rfl | rfl
        · exact ⟨rfl, rfl⟩
        · trivial
        · trivial
      · rcases List.mem_cons.mp inReduce with rfl | later
        · exact ⟨rfl, rfl⟩
        · exact loose.knows _ later
  | @streamed a branches rest feeds records whole after =>
    refine improved_of_package drafted.combine rfl ?_ rfl (loose_of_records after)
      (fun _ _ => LocalOp.noConfusion) ?_ ?_
    · rintro ⟨_, _, _, _, _, _, _, same, _⟩
      simp [whole] at same
    · intro inputs joinType chunkSize streamed known same
      cases same
      exact ⟨rfl, rfl, rfl, by rw [whole]; exact List.mem_cons_self⟩
    · rw [shuffleKeys_eq feeds]
      exact ⟨(List.length_map _).symm, rfl⟩
  | @annotated a branches kind tail feeds records whole after other unsplit =>
    refine improved_of_package drafted.combine rfl ?_ rfl (loose_of_tail after) ?_
      (fun _ _ _ _ _ => LocalOp.noConfusion) ?_
    · rintro ⟨enabled, splits⟩
      exact unsplit ⟨by simpa using enabled, splits⟩
    · intro inputs known same
      cases same
      exact other rfl
    · rw [shuffleKeys_eq feeds]
      exact ⟨(List.length_map _).symm, rfl⟩

end Optimization

namespace Plan

/-- A drafted graph is compiled into one that erasing takes back to it, with the same nodes apart
from what the passes put in. -/
theorem compile_erase {p : Plan} {config : RunConfig} {g : Graph}
    (made : p.toGraph config = .ok g) :
    ∃ c, p.compile config = .ok c ∧ c.erase = g ∧ c.scope = g.scope ∧ c.edges = g.edges ∧
      List.Forall₂ (Optimization.Improved config) g.nodes c.nodes := by
  obtain ⟨_, drafted⟩ := drafted_of_toGraph made
  obtain ⟨nodes, compiled, optimized⟩ := compile_of_toGraph made
  have both :
      List.Forall₂ (fun n m => m.erase = n ∧ Optimization.Improved config n m) g.nodes nodes := by
    rw [Traversal.forall₂_iff_getElem?] at optimized ⊢
    refine ⟨optimized.1, fun i n m left right => ?_⟩
    have as := drafted n (List.mem_of_getElem? left)
    have outcome := optimized.2 i n m left right
    exact ⟨outcome.erase_eq as, outcome.improved as⟩
  have erased : nodes.map Node.erase = g.nodes.map id :=
    Traversal.map_eq_of_forall₂ (fun _ _ is => is.1) both
  refine ⟨{ g with nodes }, compiled, ?_, rfl, rfl, both.imp fun _ _ is => is.2⟩
  simp only [Graph.erase, erased, List.map_id]

/-- The counts get a combine plan, which erasing takes out again. -/
theorem compile_erase_visitCounts :
    ∃ g c, visitCounts.toGraph RunConfig.standard = .ok g ∧
      visitCounts.compile RunConfig.standard = .ok c ∧
      c.nodes.map (·.combine.isSome) = [false, true, false] ∧ c.erase = g := by
  obtain ⟨g, made⟩ : ∃ g, visitCounts.toGraph RunConfig.standard = .ok g := ⟨_, rfl⟩
  obtain ⟨c, compiled, combine⟩ : ∃ c, visitCounts.compile RunConfig.standard = .ok c ∧
      c.nodes.map (·.combine.isSome) = [false, true, false] := ⟨_, rfl, rfl⟩
  obtain ⟨c', compiled', erased, _⟩ := compile_erase made
  obtain rfl : c = c' := Except.ok.inj (compiled.symm.trans compiled')
  exact ⟨g, c, made, compiled, combine, erased⟩

end Plan

end Wavefront
