import Mathlib.Data.List.Nodup
import Wavefront.Config.Setting
set_option autoImplicit false

/-!
Look-ups in lists of pairs and in property maps. A map answers with the text that was set last, and a
number that was written down in decimal reads back. Main statement: in the map of a configuration every
setting that has a text is found under its key.
-/
namespace Wavefront

theorem lookup_cons_ite {κ α : Type} [BEq κ] [LawfulBEq κ] [DecidableEq κ] (key other : κ) (x : α)
    (rest : List (κ × α)) :
    ((key, x) :: rest).lookup other = if other = key then some x else rest.lookup other := by
  by_cases same : other = key
  · rw [same, List.lookup_cons_self, if_pos rfl]
  · rw [List.lookup_cons, beq_false_of_ne same, if_neg same]

/-- Filtering by keys hides the keys that are dropped. -/
theorem lookup_filter {κ α : Type} [BEq κ] [LawfulBEq κ] [DecidableEq κ] (keep : κ → Bool)
    (entries : List (κ × α)) (key : κ) :
    (entries.filter fun e => keep e.1).lookup key = if keep key then entries.lookup key else none := by
  induction entries with
  | nil => simp
  | cons head rest ih =>
    obtain ⟨other, x⟩ := head
    rw [List.filter_cons, lookup_cons_ite]
    by_cases kept : keep other = true
    · rw [if_pos kept, lookup_cons_ite, ih]
      by_cases same : key = other
      · rw [if_pos same, if_pos same, same, if_pos kept]
      · rw [if_neg same, if_neg same]
    · rw [if_neg kept, ih]
      by_cases same : key = other
      · rw [same, if_neg kept, if_neg kept]
      · rw [if_neg same]

/-- Where no key comes twice, look-ups find all that is there. -/
theorem lookup_eq_some_iff_mem {κ α : Type} [BEq κ] [LawfulBEq κ] [DecidableEq κ]
    {entries : List (κ × α)} (distinct : (entries.map Prod.fst).Nodup) {key : κ} {x : α} :
    entries.lookup key = some x ↔ (key, x) ∈ entries := by
  induction entries with
  | nil => simp
  | cons head rest ih =>
    obtain ⟨other, y⟩ := head
    rw [List.map_cons, List.nodup_cons] at distinct
    rw [lookup_cons_ite, List.mem_cons, Prod.mk.injEq]
    by_cases same : key = other
    · subst same
      have later : (key, x) ∉ rest := fun member =>
        distinct.1 (List.mem_map.mpr ⟨(key, x), member, rfl⟩)
      rw [if_pos rfl, Option.some.injEq]
      simp only [true_and, later, or_false, eq_comm]
    · rw [if_neg same, ih distinct.2]
      simp only [same, false_and, false_or]

/-- Where no key comes twice the order of the entries does not matter. -/
theorem lookup_reverse {κ α : Type} [BEq κ] [LawfulBEq κ] [DecidableEq κ] {entries : List (κ × α)}
    (distinct : (entries.map Prod.fst).Nodup) (key : κ) :
    entries.reverse.lookup key = entries.lookup key := by
  have distinct' : (entries.reverse.map Prod.fst).Nodup := by
    rw [List.map_reverse]
    exact List.nodup_reverse.mpr distinct
  apply Option.ext
  intro x
  rw [lookup_eq_some_iff_mem distinct', lookup_eq_some_iff_mem distinct, List.mem_reverse]

namespace Properties

theorem lookup_place (name value other : String) (entries : List (String × String)) :
    (Ascending.place Prod.fst (name, value) entries).lookup other =
      if other = name then some value else entries.lookup other := by
  induction entries with
  | nil => exact lookup_cons_ite name other value []
  | cons head rest ih =>
    obtain ⟨key, old⟩ := head
    simp only [Ascending.place]
    split
    · exact lookup_cons_ite name other value _
    · split
      · rename_i replaced
        obtain rfl : name = key := replaced
        rw [lookup_cons_ite, lookup_cons_ite]
        by_cases same : other = name <;> simp [same]
      · rename_i _ kept
        rw [lookup_cons_ite, lookup_cons_ite, ih]
        by_cases first : other = key
        · simp [first, Ne.symm kept]
        · simp [first]

theorem get?_insert (p : Properties) (name value other : String) :
    (p.insert name value).get? other = if other = name then some value else p.get? other :=
  lookup_place name value other p.entries

theorem get?_insertAll (p : Properties) (entries : List (String × String)) (name : String) :
    (p.insertAll entries).get? name = (entries.reverse.lookup name).or (p.get? name) := by
  induction entries generalizing p with
  | nil => rfl
  | cons entry rest ih =>
    have step : p.insertAll (entry :: rest) = (p.insert entry.1 entry.2).insertAll rest := rfl
    rw [step, ih, get?_insert, List.reverse_cons, List.lookup_append, Option.or_assoc, lookup_cons_ite]
    by_cases same : name = entry.1 <;> simp [same]

theorem get?_insertAll_of_forall_ne (p : Properties) {entries : List (String × String)} {name : String}
    (other : ∀ entry ∈ entries, name ≠ entry.1) : (p.insertAll entries).get? name = p.get? name := by
  have none : entries.reverse.lookup name = none :=
    List.lookup_eq_none_iff.mpr fun entry member => by
      simpa using other entry (List.mem_reverse.mp member)
  rw [get?_insertAll, none, Option.none_or]

theorem nodup_names (p : Properties) : (p.entries.map Prod.fst).Nodup := by
  refine List.pairwise_map.mpr (p.ascending.imp ?_)
  intro entry other before same
  rw [same] at before
  exact String.lt_irrefl _ before

theorem get?_eq_some_iff {p : Properties} {name value : String} :
    p.get? name = some value ↔ (name, value) ∈ p.entries :=
  lookup_eq_some_iff_mem p.nodup_names

/-- Maps with the same look-ups are the same. -/
theorem ext_get? {p q : Properties} (same : ∀ name, p.get? name = q.get? name) : p = q := by
  have perm : p.entries.Perm q.entries := by
    apply (List.perm_ext_iff_of_nodup (List.Nodup.of_map _ p.nodup_names)
      (List.Nodup.of_map _ q.nodup_names)).mpr
    rintro ⟨name, value⟩
    rw [← get?_eq_some_iff, ← get?_eq_some_iff, same]
  have entries : p.entries = q.entries := by
    refine List.Perm.eq_of_pairwise ?_ p.ascending q.ascending perm
    intro a b _ _ before after
    exact absurd (String.lt_trans before after) (String.lt_irrefl _)
  cases p
  exact (Properties.mk.injEq ..).mpr entries

end Properties

namespace Text

theorem isDigit_of_mem_toString {n : Nat} {c : Char} (member : c ∈ (toString n).toList) :
    c.isDigit = true := by
  have digits : (toString n).toList = Nat.toDigits 10 n := Nat.toList_repr
  rw [digits] at member
  exact Nat.isDigit_of_mem_toDigits (by decide) (by decide) member

theorem notMem_toString {c : Char} (other : c.isDigit = false) (n : Nat) : c ∉ (toString n).toList := by
  intro member
  rw [isDigit_of_mem_toString member] at other
  cases other

theorem digitsValue_toString (n : Nat) : digitsValue (toString n).toList = n := by
  have digits : (toString n).toList = Nat.toDigits 10 n := Nat.toList_repr
  rw [digits]
  exact Nat.ofDigitChars_ten_toDigits

theorem toList_toString_ne_nil (n : Nat) : (toString n).toList ≠ [] := by
  have digits : (toString n).toList = Nat.toDigits 10 n := Nat.toList_repr
  rw [digits]
  exact Nat.toDigits_ne_nil

/-- A number that is written in decimal reads back. -/
theorem numeral?_toString {bound n : Nat} (fits : n < bound) : numeral? bound (toString n) = some n := by
  have all : (toString n).toList.all Char.isDigit = true :=
    List.all_eq_true.mpr fun c => isDigit_of_mem_toString
  rw [numeral?]
  split
  · rename_i signed
    exact absurd (signed ▸ List.mem_cons_self) (notMem_toString (by decide) n)
  · simp only [all, digitsValue_toString, fits, List.isEmpty_eq_false_iff.mpr (toList_toString_ne_nil n),
      Bool.not_true, Bool.or_self, Bool.false_eq_true, if_false, if_true]

/-- A text without blanks has none to drop. -/
theorem trim_eq_self {s : String} (solid : ∀ c ∈ s.toList, isBlank c = false) : trim s = s := by
  have front : s.toList.dropWhile isBlank = s.toList := by
    cases chars : s.toList with
    | nil => rfl
    | cons c rest => exact List.dropWhile_cons_of_neg (by simp [solid c (by simp [chars])])
  have back : s.toList.reverse.dropWhile isBlank = s.toList.reverse := by
    cases chars : s.toList.reverse with
    | nil => rfl
    | cons c rest =>
      have member : c ∈ s.toList := by
        rw [← List.mem_reverse, chars]
        exact List.mem_cons_self
      exact List.dropWhile_cons_of_neg (by simp [solid c member])
  rw [trim, trimChars, front, back, List.reverse_reverse, String.ofList_toList]

theorem isBlank_eq_false_of_isDigit {c : Char} (digit : c.isDigit = true) : isBlank c = false := by
  have low : 48 ≤ c.toNat ∧ c.toNat ≤ 57 := by
    simpa [Char.isDigit, UInt32.le_iff_toNat_le] using digit
  simp only [isBlank, Bool.or_eq_false_iff, Bool.and_eq_false_iff, decide_eq_false_iff_not,
    beq_eq_false_iff_ne]
  omega

theorem trim_toString (n : Nat) : trim (toString n) = toString n :=
  trim_eq_self fun _ member => isBlank_eq_false_of_isDigit (isDigit_of_mem_toString member)

/-- Numbers that are written alike are the same. -/
theorem toString_injective {a b : Nat} (same : toString a = toString b) : a = b := by
  have read := numeral?_toString (Nat.lt_succ_of_le (Nat.le_max_left a b))
  rw [same, numeral?_toString (Nat.lt_succ_of_le (Nat.le_max_right a b))] at read
  exact (Option.some.inj read).symm

end Text

namespace Setting

theorem ofKey?_key (s : Setting) : ofKey? s.key = some s := by cases s <;> rfl

theorem key_of_ofKey? {key : String} {s : Setting} (owner : ofKey? key = some s) : s.key = key := by
  simpa using List.find?_some owner

theorem key_injective {s t : Setting} (same : s.key = t.key) : s = t :=
  Option.some.inj (by rw [← ofKey?_key s, same, ofKey?_key t])

end Setting

namespace RunConfig

theorem lookup_settings (c : RunConfig) (s : Setting) (settings : List Setting) :
    (settings.filterMap fun t => (c.text? t).map fun text => (t.key, text)).lookup s.key =
      if s ∈ settings then c.text? s else none := by
  induction settings with
  | nil => rfl
  | cons first rest ih =>
    rw [List.filterMap_cons]
    by_cases same : s = first
    · subst same
      cases text : c.text? s with
      | none => simp [ih, text]
      | some text => simp
    · have different : s.key ≠ first.key := fun keys => same (Setting.key_injective keys)
      cases c.text? first <;> simp [ih, same, lookup_cons_ite, different]

theorem get?_toProperties (c : RunConfig) (s : Setting) :
    c.toProperties.get? s.key = (c.text? s).or (c.properties.get? s.key) := by
  rw [toProperties, Properties.get?_insertAll, settingEntries, ← List.filterMap_reverse, lookup_settings,
    if_pos (List.mem_reverse.mpr s.mem_all)]

end RunConfig

end Wavefront
