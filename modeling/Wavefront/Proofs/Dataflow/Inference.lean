import Wavefront.Proofs.Plan.Inference
set_option autoImplicit false

/-!
What is known of computed records can be read off the term that computes them. Main statements: the
schema that is inferred for an operator is that of its term, and so is the type of the keys of the
shuffle that its records come out of.
-/
namespace Wavefront

def RecordOp.schema : RecordOp → Option Schema → Option Schema
  | .project columns, schema => schema.bind fun s => (Field.select? s.fields columns).map Schema.mk
  | .stream _ outputSchema, _ => outputSchema
  | .filter _, schema | .limit _, schema => schema

/-- The schema of what a shuffle makes of inputs with some keys and schemas. -/
def shuffledSchema (kind : PackageKind) (inputs : List (List String × Option Schema)) :
    Option Schema :=
  match kind with
  | .group | .coGroup =>
    Schema.grouped? ((inputs.head?.map Prod.fst).getD []) (inputs.head?.bind Prod.snd) inputs.length
  | .distinct => inputs.head?.bind Prod.snd
  | .join _ => Schema.beside? (inputs.map Prod.snd)

/-- The type of the keys by which inputs with some keys and schemas are shuffled. -/
def shuffledKeyType (kind : PackageKind) (inputs : List (List String × Option Schema)) : KeyType :=
  match kind with
  | .distinct => .tuple
  | _ => .agreed (inputs.map fun input => .ofColumns input.1 input.2)

namespace Dataflow

def schema : Dataflow → Option Schema
  | .load _ schema => schema
  | .each op x => op.schema x.schema
  | .shuffle kind inputs => shuffledSchema kind (inputs.map fun input => (input.1, input.2.schema))
  | .aggregate keys calls (.shuffle _ ((_, x) :: _)) =>
    Schema.aggregated? keys calls x.schema
  | .aggregate .. => none
decreasing_by
  all_goals try decreasing_tactic
  rename_i member
  have inside := List.sizeOf_lt_of_mem member
  obtain ⟨keys, x⟩ := input
  simp only [Prod.mk.sizeOf_spec, shuffle.sizeOf_spec] at inside ⊢
  omega

/-- The shuffle that the records of a term come out of. -/
def lastShuffle? : Dataflow → Option (PackageKind × List (List String × Dataflow))
  | .load .. => none
  | .each _ x => x.lastShuffle?
  | .shuffle kind inputs => some (kind, inputs)
  | .aggregate _ _ x => x.lastShuffle?

theorem lastShuffle?_aggregate {calls : List AggregateCall} {x y : Dataflow}
    (made : ofOperator? (.aggregate calls) [y] = some x) : x.lastShuffle? = y.lastShuffle? := by
  match y, made with
  | .shuffle .group [(_, _)], rfl => rfl

end Dataflow

namespace Plan.Validated

variable {p : Plan} {order : List Nat} {id : Nat} {op : PlanOp} {x : Dataflow}

theorem inputs_of_meaning (validated : p.Validated order) (found : p.op? id = some op)
    (meant : p.meaning id = some x) : ∃ xs,
      List.Forall₂ (fun input y => p.meaning input = some y) op.inputs xs ∧
        Dataflow.ofOperator? op.kind xs = some x := by
  rw [validated.meaning_eq found] at meant
  obtain ⟨xs, values, made⟩ := Option.bind_eq_some_iff.mp meant
  exact ⟨xs, Traversal.mapM_eq_some.mp values, made⟩

/-- An operator that reads one input makes its term of the one that the input computes. -/
theorem input_of_meaning (validated : p.Validated order) (found : p.op? id = some op)
    (one : op.kind.admits 1 = true) (meant : p.meaning id = some x) : ∃ input y,
      op.inputs = [input] ∧ p.meaning input = some y ∧
        Dataflow.ofOperator? op.kind [y] = some x := by
  obtain ⟨xs, values, made⟩ := validated.inputs_of_meaning found meant
  obtain ⟨input, only⟩ := validated.one_input found one
  rw [only] at values
  obtain ⟨y, rest, value, nothing, rfl⟩ := List.forall₂_cons_left_iff.mp values
  cases List.forall₂_nil_left_iff.mp nothing
  exact ⟨input, y, only, value, made⟩

/-- Aggregates compute calls over the group that they read, whose records come from one source. -/
theorem source_of_meaning (validated : p.Validated order) (owned : p.AggregatesOwnGroups)
    (found : p.op? id = some op) {calls : List AggregateCall} (kind : op.kind = .aggregate calls)
    (meant : p.meaning id = some x) : ∃ group number keys source y,
      op.inputs = [group] ∧ p.op? group = some ⟨number, .group keys, [source]⟩ ∧
        p.meaning source = some y ∧ x = .aggregate keys calls (.shuffle .group [(keys, y)]) := by
  obtain ⟨group, only, ⟨grouping, there, isGroup⟩, _⟩ :=
    owned op (mem_of_op? found) (by rw [kind]; rfl)
  obtain ⟨input, z, only', value, made⟩ := validated.input_of_meaning found (by rw [kind]; rfl) meant
  obtain rfl : group = input := List.singleton_inj.mp (only.symm.trans only')
  obtain ⟨number, kind', inputs⟩ := grouping
  cases kind' with
  | group keys =>
    obtain ⟨source, y, rfl, value', made'⟩ := validated.input_of_meaning there rfl value
    rw [kind] at made
    cases made'
    cases made
    exact ⟨group, number, keys, source, y, only, there, value', rfl⟩
  | _ => cases isGroup

theorem map_schema_of_meaning {inputs : List Nat} {xs : List Dataflow}
    (values : List.Forall₂ (fun input y => p.meaning input = some y) inputs xs)
    (known : ∀ input ∈ inputs, ∀ y, p.meaning input = some y → p.schema input = y.schema) :
    inputs.map p.schema = xs.map Dataflow.schema := by
  induction values with
  | nil => rfl
  | cons first _ ih =>
    rw [List.map_cons, List.map_cons, known _ List.mem_cons_self _ first,
      ih fun input member => known input (List.mem_cons_of_mem _ member)]

theorem zip_schemas {keys : List (List String)} {xs : List Dataflow} (schemas : Nat → Option Schema)
    {inputs : List Nat} (each : inputs.map schemas = xs.map Dataflow.schema) :
    ((keys.zip xs).map fun input => (input.1, input.2.schema)) =
      (keys.zip inputs).map fun input => (input.1, schemas input.2) := by
  have left : keys.zip (xs.map Dataflow.schema) = _ := List.zip_map_right
  have right : keys.zip (inputs.map schemas) = _ := List.zip_map_right
  exact left.symm.trans ((congrArg keys.zip each.symm).trans right)

/-- What is inferred for an operator is the schema of what it computes, if that is so for what it
reads. -/
theorem infer_of_meaning (validated : p.Validated order) (owned : p.AggregatesOwnGroups)
    (found : p.op? id = some op) (meant : p.meaning id = some x)
    (known : ∀ input ∈ op.inputs, ∀ y, p.meaning input = some y → p.schema input = y.schema)
    (further : ∀ group ∈ op.inputs, ∀ reader, p.op? group = some reader → ∀ input ∈ reader.inputs,
      ∀ y, p.meaning input = some y → p.schema input = y.schema) :
    p.infer p.schema op = x.schema := by
  have single (one : op.kind.admits 1 = true) : ∃ input y, op.inputs = [input] ∧
      p.schema input = y.schema ∧ Dataflow.ofOperator? op.kind [y] = some x := by
    obtain ⟨input, y, only, value, made⟩ := validated.input_of_meaning found one meant
    exact ⟨input, y, only, known input (only ▸ List.mem_cons_self) y value, made⟩
  obtain ⟨xs, values, made⟩ := validated.inputs_of_meaning found meant
  have each := map_schema_of_meaning values known
  obtain ⟨number, kind, inputs⟩ := op
  dsimp only at made each further single
  cases kind with
  | load location schema =>
    cases xs with
    | nil =>
      cases made
      simp only [infer, Dataflow.schema]
    | cons y rest => cases made
  | filter predicate | limit n | project columns | stream command outputSchema =>
    obtain ⟨input, y, rfl, same, made⟩ := single rfl
    cases made
    simp only [infer, Dataflow.schema, RecordOp.schema, same]
  | store location format =>
    obtain ⟨input, y, rfl, same, made⟩ := single rfl
    cases made
    simp only [infer, same]
  | distinct =>
    obtain ⟨input, y, rfl, same, made⟩ := single rfl
    cases made
    simp only [infer, Dataflow.schema, same, shuffledSchema, List.map_cons, List.head?_cons,
      Option.bind_some]
  | group keys =>
    obtain ⟨input, y, rfl, same, made⟩ := single rfl
    cases made
    simp only [infer, Dataflow.schema, same, shuffledSchema, List.map_cons, List.head?_cons,
      Option.bind_some, Option.map_some, Option.getD_some, List.map_nil, List.length_singleton]
  | coGroup keys =>
    cases made
    have width := (validated.keysFit found rfl).count
    have several := validated.two_inputs found rfl
    dsimp only at width several
    simp only [infer, Dataflow.schema, shuffledSchema, zip_schemas p.schema each, List.length_map,
      List.length_zip, width, Nat.min_self]
    cases keys with
    | nil => simp at width; omega
    | cons own others =>
      cases inputs with
      | nil => simp at several
      | cons first rest => rfl
  | join keys joinType =>
    cases made
    have width := (validated.keysFit found rfl).count
    dsimp only at width
    simp only [infer, Dataflow.schema, shuffledSchema, zip_schemas p.schema each, List.map_map]
    have second : (keys.zip inputs).map Prod.snd = inputs := List.map_snd_zip (by omega)
    conv_lhs => rw [← second, List.map_map]
    rfl
  | aggregate calls =>
    obtain ⟨group, number', keys, source, y, rfl, there, value, rfl⟩ :=
      validated.source_of_meaning owned found rfl meant
    simp only [infer, there, Dataflow.schema]
    rw [further group List.mem_cons_self _ there source List.mem_cons_self y value]

/-- The schema that is inferred for an operator is that of what it computes. -/
theorem schema_of_meaning (validated : p.Validated order) (owned : p.AggregatesOwnGroups)
    (found : p.op? id = some op) (meant : p.meaning id = some x) : p.schema id = x.schema := by
  induction rank : order.idxOf id using Nat.strongRecOn generalizing id op x with
  | ind bound ih =>
    have known {user input : Nat} {reader : PlanOp} {y : Dataflow} (at_ : p.op? user = some reader)
        (reads : input ∈ reader.inputs) (below : order.idxOf user ≤ bound)
        (value : p.meaning input = some y) : p.schema input = y.schema := by
      obtain ⟨_, there⟩ := validated.numbered.exists_op (validated.input_lt at_ reads)
      have lower := validated.position_lt at_ reads
      exact ih (order.idxOf input) (by omega) there value rfl
    rw [validated.schema_eq found]
    refine validated.infer_of_meaning owned found meant ?_ fun group reads reader there => ?_
    · exact fun input reads y value => known found reads (Nat.le_of_eq rank) value
    · intro input reads' y value
      have lower := validated.position_lt found reads
      exact known there reads' (by omega) value

/-- The keys of a shuffle have the type that follows from what its inputs compute. -/
theorem keyType_of_meaning (validated : p.Validated order) (owned : p.AggregatesOwnGroups)
    (found : p.op? id = some op) (shuffle : op.kind.isShuffle = true) (meant : p.meaning id = some x) :
    ∃ kind inputs, x = .shuffle kind inputs ∧ inputs ≠ [] ∧
      p.keyType op = shuffledKeyType kind (inputs.map fun input => (input.1, input.2.schema)) := by
  have known : ∀ input ∈ op.inputs, ∀ y, p.meaning input = some y → p.schema input = y.schema := by
    intro input reads y value
    obtain ⟨_, there⟩ := validated.numbered.exists_op (validated.input_lt found reads)
    exact validated.schema_of_meaning owned there value
  cases kind : op.kind with
  | distinct =>
    obtain ⟨input, y, only, value, made⟩ :=
      validated.input_of_meaning found (by rw [kind]; rfl) meant
    rw [kind] at made
    cases made
    exact ⟨.distinct, [([], y)], rfl, by simp, by rw [keyType, kind]; rfl⟩
  | group keys =>
    obtain ⟨input, y, only, value, made⟩ :=
      validated.input_of_meaning found (by rw [kind]; rfl) meant
    rw [kind] at made
    cases made
    refine ⟨.group, [(keys, y)], rfl, by simp, ?_⟩
    rw [keyType, kind, only]
    simp only [shuffledKeyType, List.map_cons, List.map_nil, KeyType.agreed_singleton,
      known input (only ▸ List.mem_cons_self) y value]
  | coGroup keys | join keys joinType =>
    obtain ⟨xs, values, made⟩ := validated.inputs_of_meaning found meant
    have keyed : op.kind.keyLists? = some keys := by rw [kind]; rfl
    have width := (validated.keysFit found keyed).count
    have several := validated.two_inputs found keyed
    have length := values.length_eq
    rw [kind] at made
    cases made
    refine ⟨_, keys.zip xs, rfl, ?_, ?_⟩
    · rw [← List.length_pos_iff, List.length_zip]
      omega
    · rw [keyType, kind]
      simp only [shuffledKeyType, zip_schemas p.schema (map_schema_of_meaning values known),
        List.map_map]
      rfl
  | _ => rw [kind] at shuffle; cases shuffle

/-- The last shuffle of an operator can be read off what it computes. -/
theorem lastShuffle_of_meaning (validated : p.Validated order) (owned : p.AggregatesOwnGroups)
    (found : p.op? id = some op) (meant : p.meaning id = some x) {kind : PackageKind}
    {inputs : List (List String × Dataflow)} (last : x.lastShuffle? = some (kind, inputs)) :
    ∃ shuffle, p.LastShuffle id shuffle ∧ inputs ≠ [] ∧
      p.keyType shuffle = shuffledKeyType kind (inputs.map fun input => (input.1, input.2.schema)) := by
  induction rank : order.idxOf id using Nat.strongRecOn generalizing id op x with
  | ind bound ih =>
    by_cases shuffle : op.kind.isShuffle = true
    · obtain ⟨_, _, rfl, fed, type⟩ := validated.keyType_of_meaning owned found shuffle meant
      cases last
      exact ⟨op, .here found shuffle, fed, type⟩
    · have passes : op.kind.isShuffle = false := by simpa using shuffle
      -- What is no shuffle reads one input, or none if it is a load.
      have before (one : op.kind.admits 1 = true) (same : ∀ y,
          Dataflow.ofOperator? op.kind [y] = some x → x.lastShuffle? = y.lastShuffle?) :
          ∃ shuffle, p.LastShuffle id shuffle ∧ inputs ≠ [] ∧ p.keyType shuffle =
            shuffledKeyType kind (inputs.map fun input => (input.1, input.2.schema)) := by
        obtain ⟨input, y, only, value, made⟩ := validated.input_of_meaning found one meant
        have reads : input ∈ op.inputs := only ▸ List.mem_cons_self
        have lower := validated.position_lt found reads
        obtain ⟨_, there⟩ := validated.numbered.exists_op (validated.input_lt found reads)
        obtain ⟨last', earlier, both⟩ :=
          ih (order.idxOf input) (by omega) there value ((same y made).symm.trans last) rfl
        exact ⟨last', .before found passes only earlier, both⟩
      cases kindOf : op.kind with
      | load location schema =>
        obtain ⟨xs, _, made⟩ := validated.inputs_of_meaning found meant
        rw [kindOf] at made
        cases xs with
        | nil =>
          cases made
          cases last
        | cons y rest => cases made
      | filter predicate | limit n | project columns | stream command outputSchema
        | store location format =>
        refine before (by rw [kindOf]; rfl) fun y made => ?_
        rw [kindOf] at made
        cases made
        rfl
      | aggregate calls =>
        refine before (by rw [kindOf]; rfl) fun y made => ?_
        rw [kindOf] at made
        exact Dataflow.lastShuffle?_aggregate made
      | group keys | distinct | coGroup keys | join keys joinType =>
        rw [kindOf] at passes
        cases passes

end Plan.Validated

end Wavefront
