import Wavefront.Optimization.SchemaFlow
import Wavefront.Proofs.Traversal
set_option autoImplicit false

/-!
Columns by name. Which columns projections, groups, joins and calls have is said on lists of columns
alone. Main statements: the schemas that flow through a graph have these columns, and its keys are of
the types of these columns.
-/
namespace Wavefront

/-- The first column of a name. -/
def Field.first? (name : String) : List Field → Option Field
  | [] => none
  | column :: others => if column.name = name then some column else first? name others

/-- The columns of some names, in the order of the names. A name that no column has leaves all of them
unknown. -/
def Field.select? (columns : List Field) : List String → Option (List Field)
  | [] => some []
  | name :: names =>
    (first? name columns).bind fun column => (select? columns names).map (column :: ·)

/-- The columns of all inputs from left to right, unknown if those of one input are. -/
def Schema.beside? : List (Option Schema) → Option Schema
  | [] => some ⟨[]⟩
  | first :: rest =>
    first.bind fun s => (beside? rest).map fun others => ⟨s.fields ++ others.fields⟩

/-- The schema of groups: the columns of the keys, or one column if there are no keys, and one bag of
values an input. -/
def Schema.grouped? (keys : List String) (first : Option Schema) (inputs : Nat) : Option Schema :=
  let columns :=
    if keys = [] then some [⟨"group", .utf8, false⟩]
    else first.bind fun s => Field.select? s.fields keys
  columns.map fun columns =>
    ⟨columns ++ (List.range inputs).map fun i => ⟨"values_" ++ toString i, .binary, true⟩⟩

/-- Counts and sums are whole numbers unless floats are summed, means are floats, extremes are of the
type of the column, and collected values are bytes. -/
def AggregateCall.type? (call : AggregateCall) (columns : List Field) : Option DataType :=
  let read := call.column.bind fun name => (Field.first? name columns).map Field.dataType
  match call.function with
  | .count | .countDistinct => some .int64
  | .sum => some (if read = some .float32 ∨ read = some .float64 then .float64 else .int64)
  | .avg => some .float64
  | .min | .max => read
  | .collect => some .binary

/-- The columns that some calls compute over others, unknown if the type of one of them is. -/
def AggregateCall.columns? (columns : List Field) : List AggregateCall → Option (List Field)
  | [] => some []
  | call :: calls =>
    (call.type? columns).bind fun dataType =>
      (columns? columns calls).map (⟨call.resultName, dataType, true⟩ :: ·)

/-- The schema of calls computed on groups: the columns of the keys, then those of the calls. -/
def Schema.aggregated? (keys : List String) (calls : List AggregateCall) (grouped : Option Schema) :
    Option Schema :=
  grouped.bind fun s => (Field.select? s.fields keys).bind fun own =>
    (AggregateCall.columns? s.fields calls).map fun computed => ⟨own ++ computed⟩

/-- The type of keys that are the values of one column. -/
def KeyType.ofColumn (column : Field) : KeyType :=
  match column.dataType with
  | .boolean => .boolean
  | .int32 => .int32
  | .int64 => .int64
  | .float32 => .float32
  | .float64 => .float64
  | .utf8 => .utf8
  | .binary => .bytes

/-- The type of keys over some columns: texts if there is none, the type of a single column if it is
known, and tuples of several. -/
def KeyType.ofColumns (keys : List String) (schema : Option Schema) : KeyType :=
  match keys with
  | [] => .utf8
  | [key] => ((schema.bind fun s => Field.first? key s.fields).map ofColumn).getD .bytes
  | _ => .tuple

/-- The type that all inputs agree on, and bytes if they do not. -/
def KeyType.agreed : List KeyType → KeyType
  | [] => .bytes
  | first :: rest => if ∀ other ∈ rest, other = first then first else .bytes

@[simp] theorem KeyType.agreed_singleton (t : KeyType) : agreed [t] = t := rfl

theorem Schema.field?_eq (s : Schema) (name : String) : s.field? name = Field.first? name s.fields := by
  unfold Schema.field?
  induction s.fields with
  | nil => rfl
  | cons column others ih =>
    rw [List.find?_cons, Field.first?, ih]
    by_cases same : column.name = name
    · rw [if_pos same, beq_iff_eq.mpr same]
    · rw [if_neg same, beq_false_of_ne same]

theorem Schema.mapM_field? (s : Schema) (names : List String) :
    names.mapM s.field? = Field.select? s.fields names := by
  induction names with
  | nil => rfl
  | cons name names ih => rw [Traversal.mapM_cons, ih, s.field?_eq, Field.select?]

/-- A projection has the columns that it names. -/
theorem Schema.project?_eq (s : Schema) (names : List String) :
    s.project? names = (Field.select? s.fields names).map Schema.mk := by
  rw [Schema.project?, s.mapM_field?]

/-- Known schemas side by side have the columns of all of them. -/
theorem Schema.mapM_concat {α : Type} (known : α → Option Schema) (inputs : List α) :
    (inputs.mapM known).map Schema.concat = Schema.beside? (inputs.map known) := by
  induction inputs with
  | nil => rfl
  | cons input rest ih =>
    rw [Traversal.mapM_cons, List.map_cons, Schema.beside?, ← ih, Option.map_bind]
    simp only [Function.comp_def, Option.map_map, Schema.concat, List.flatMap_cons]

theorem KeyType.ofDataType_eq (column : Field) : KeyType.ofDataType column.dataType = .ofColumn column := by
  rw [KeyType.ofColumn]
  cases column.dataType <;> rfl

namespace Optimization

/-- The flow makes of groups the columns of their keys and bags. -/
theorem groupedSchema_eq (keys : List String) (value : Option Schema) (inputs : Nat) :
    groupedSchema keys value inputs = Schema.grouped? keys value inputs := by
  unfold groupedSchema Schema.grouped?
  cases keys with
  | nil => rfl
  | cons key rest =>
    cases value with
    | none => rfl
    | some value =>
      simp only [List.isEmpty_cons, Bool.false_eq_true, ↓reduceIte, reduceCtorEq, Option.bind_some,
        keyFields?, value.mapM_field?, bind, pure]
      cases Field.select? value.fields (key :: rest) <;> rfl

theorem callType?_eq (s : Schema) (call : AggregateCall) : callType? s call = call.type? s.fields := by
  have read : (call.column.bind s.field?).map Field.dataType =
      call.column.bind fun name => (Field.first? name s.fields).map Field.dataType := by
    cases call.column with
    | none => rfl
    | some name => rw [Option.bind_some, Option.bind_some, s.field?_eq]
  rw [callType?, AggregateCall.type?, ← read]
  cases call.function with
  | sum =>
    cases call.column.bind s.field? with
    | none => rfl
    | some column =>
      obtain ⟨name, dataType, nullable⟩ := column
      cases dataType <;> rfl
  | _ => rfl

theorem mapM_callType? (s : Schema) (calls : List AggregateCall) :
    (calls.mapM fun call => (callType? s call).map fun dataType =>
        (⟨call.resultName, dataType, true⟩ : Field)) = AggregateCall.columns? s.fields calls := by
  induction calls with
  | nil => rfl
  | cons call calls ih =>
    rw [Traversal.mapM_cons, ih, callType?_eq, AggregateCall.columns?, Option.bind_map]
    rfl

/-- The flow makes of calls the columns that they compute. -/
theorem aggregateSchema_eq (keys : List String) (calls : List AggregateCall) (value : Option Schema) :
    aggregateSchema keys calls value = Schema.aggregated? keys calls value := by
  cases value with
  | none => rfl
  | some s =>
    simp only [aggregateSchema, Schema.aggregated?, keyFields?, s.mapM_field?, mapM_callType?, bind, pure,
      Option.bind_some]
    cases Field.select? s.fields keys with
    | none => rfl
    | some own => cases AggregateCall.columns? s.fields calls <;> rfl

/-- The flow gives keys the type of their columns. -/
theorem keyTypeOf_eq {kind : PackageKind} (other : kind ≠ .distinct) (schema : Option Schema)
    (keys : List String) : keyTypeOf (some kind) schema keys = .ofColumns keys schema := by
  have different : some kind ≠ some PackageKind.distinct := fun same => other (Option.some.inj same)
  rcases keys with _ | ⟨key, _ | ⟨second, rest⟩⟩
  · simp only [keyTypeOf, different, ↓reduceIte, KeyType.ofColumns]
  · simp only [keyTypeOf, different, ↓reduceIte, KeyType.ofColumns, Schema.field?_eq,
      KeyType.ofDataType_eq]
  · simp only [keyTypeOf, different, ↓reduceIte, KeyType.ofColumns]

theorem commonKeyType_eq {types : List KeyType} (some_ : types ≠ []) :
    commonKeyType types = some (.agreed types) := by
  cases types with
  | nil => exact absurd rfl some_
  | cons first rest => simp [commonKeyType, KeyType.agreed]

end Optimization

end Wavefront
