import Wavefront.Proofs.Lookup
import Wavefront.Proofs.Traversal
set_option autoImplicit false

/-!
Configurations and their property maps. Main statement: a configuration whose extra properties leave the
keys of settings alone is read back from its map, and every map that is accepted is read as such a
configuration; a map is refused exactly if a value in it cannot be read as that of its setting, and of
several the one of the least key is reported. A map holds each setting that has a text.
-/
namespace Wavefront

/-- A text is a numeral: digits, with or without a plus sign, of a number below a bound. -/
def Text.IsNumeral (bound : Nat) (s : String) : Prop :=
  ∃ digits, (s.toList = digits ∨ s.toList = '+' :: digits) ∧ digits ≠ [] ∧
    (∀ c ∈ digits, c.isDigit = true) ∧ digitsValue digits < bound

/-- How a switch is spelled. -/
def switchWords : List String := ["true", "1", "yes", "false", "0", "no"]

namespace Setting

/-- A value can be read as that of a setting. Numbers and switches may have blanks around them. -/
def Accepts : Setting → String → Prop
  | .lastInputChunkSize, value | .pollIntervalMs, value =>
    Text.IsNumeral Text.wordBound (Text.trim value)
  | .defaultParallelism, value => Text.IsNumeral Text.halfWordBound (Text.trim value)
  | .disableCombiner, value => Text.lower (Text.trim value) ∈ switchWords
  | .tempDir, _ | .jobTracker, _ | .defaultFs, _ | .queue, _ => True

/-- What is reported of a value that cannot be read. -/
def fault (s : Setting) (value : String) : ConfigFault :=
  match s with
  | .disableCombiner => .notASwitch s.key value
  | _ => .notANumber s.key value

/-- How a configuration writes the setting that is read from a value. -/
def normal? : Setting → String → Option String
  | .lastInputChunkSize, value | .pollIntervalMs, value =>
    (word64? (Text.trim value)).map fun n => toString n.toNat
  | .defaultParallelism, value => (word32? (Text.trim value)).map fun n => toString n.toNat
  | .disableCombiner, value => (switch? value).map switchText
  | .tempDir, value | .jobTracker, value | .defaultFs, value | .queue, value => some value

end Setting

/-- The extra properties have no key of a setting. -/
def RunConfig.Separate (c : RunConfig) : Prop := ∀ s : Setting, c.properties.get? s.key = none

/-- What becomes of a configuration that is made into a property map. -/
structure RunConfig.Flattens (c : RunConfig) : Prop where
  restored : c.Separate → RunConfig.ofProperties c.toProperties = .ok c
  /-- Whatever the extra properties are, the map holds what the configuration itself says. -/
  holds : ∀ s text, c.text? s = some text → c.toProperties.get? s.key = some text
  passes : ∀ key, Setting.ofKey? key = none → c.toProperties.get? key = c.properties.get? key

/-- What becomes of a property map that is read as a configuration. -/
structure Properties.Configures (p : Properties) : Prop where
  accepted : (∃ c, RunConfig.ofProperties p = .ok c) ↔
    ∀ (s : Setting) (value : String), p.get? s.key = some value → s.Accepts value
  separate : ∀ c, RunConfig.ofProperties p = .ok c → c.Separate
  restored : ∀ c, RunConfig.ofProperties p = .ok c → RunConfig.ofProperties c.toProperties = .ok c
  refused : ∀ fault, RunConfig.ofProperties p = .error fault ↔
    ∃ (s : Setting) (value : String), p.get? s.key = some value ∧ ¬ s.Accepts value ∧
      fault = s.fault value ∧
      ∀ (t : Setting) (other : String), p.get? t.key = some other → ¬ t.Accepts other → s.key ≤ t.key

namespace Text

theorem isSome_numeral? {bound : Nat} {s : String} :
    (numeral? bound s).isSome = true ↔ IsNumeral bound s := by
  have read (digits : List Char) :
      (if digits.isEmpty || !digits.all Char.isDigit then none
        else if digitsValue digits < bound then some (digitsValue digits) else none).isSome = true ↔
      digits ≠ [] ∧ (∀ c ∈ digits, c.isDigit = true) ∧ digitsValue digits < bound := by
    by_cases empty : digits = []
    · simp [empty]
    · by_cases all : digits.all Char.isDigit = true
      · have each := List.all_eq_true.mp all
        by_cases fits : digitsValue digits < bound
        · simpa [empty, fits, all] using each
        · simp [empty, fits, all]
      · have some : ¬ ∀ c ∈ digits, c.isDigit = true := fun each => all (List.all_eq_true.mpr each)
        simp [empty, all, some]
  rw [numeral?, read, IsNumeral]
  split
  · rename_i rest signed
    constructor
    · exact fun spelled => ⟨rest, .inr signed, spelled⟩
    · rintro ⟨digits, plain | same, nonempty, all, fits⟩
      · have sign := all '+' (plain ▸ signed ▸ List.mem_cons_self)
        exact absurd sign (by decide)
      · obtain rfl := (List.cons.inj (signed.symm.trans same)).2
        exact ⟨nonempty, all, fits⟩
  · rename_i unsigned
    constructor
    · exact fun spelled => ⟨s.toList, .inl rfl, spelled⟩
    · rintro ⟨digits, rfl | signed, spelled⟩
      · exact spelled
      · exact absurd signed (unsigned digits)

end Text

theorem isSome_switch? {value : String} :
    (switch? value).isSome = true ↔ Text.lower (Text.trim value) ∈ switchWords := by
  simp only [switch?, switchWords]
  split
  · rename_i yes
    rcases yes with word | word | word <;> simp [word]
  · rename_i other
    split
    · rename_i no
      rcases no with word | word | word <;> simp [word]
    · rename_i neither
      simp_all

theorem word64?_toString (n : UInt64) : word64? (Text.trim (toString n.toNat)) = some n := by
  have fits : n.toNat < Text.wordBound := n.toNat_lt
  rw [Text.trim_toString, word64?, Text.numeral?_toString fits, Option.map_some, UInt64.ofNat_toNat]

theorem word32?_toString (n : UInt32) : word32? (Text.trim (toString n.toNat)) = some n := by
  have fits : n.toNat < Text.halfWordBound := n.toNat_lt
  rw [Text.trim_toString, word32?, Text.numeral?_toString fits, Option.map_some, UInt32.ofNat_toNat]

theorem switch?_switchText (b : Bool) : switch? (switchText b) = some b := by cases b <;> decide

namespace Setting

theorem isSome_normal? {s : Setting} {value : String} :
    (s.normal? value).isSome = true ↔ s.Accepts value := by
  cases s <;> simp only [normal?, Accepts, word64?, word32?, Option.isSome_map, Option.isSome_some,
    Text.isSome_numeral?, isSome_switch?]

instance (s : Setting) (value : String) : Decidable (s.Accepts value) :=
  decidable_of_iff _ isSome_normal?

theorem exists_normal? {s : Setting} {value : String} (accepted : s.Accepts value) :
    ∃ text, s.normal? value = some text :=
  Option.isSome_iff_exists.mp (isSome_normal?.mpr accepted)

theorem normal?_eq_none {s : Setting} {value : String} :
    s.normal? value = none ↔ ¬ s.Accepts value := by
  rw [← isSome_normal?, Option.not_isSome_iff_eq_none]

/-- What a configuration writes of a setting reads as itself. -/
theorem normal?_text (c : RunConfig) (s : Setting) : (c.text? s).bind s.normal? = c.text? s := by
  cases s with
  | lastInputChunkSize | pollIntervalMs =>
    simp only [RunConfig.text?, Option.bind_some, normal?, word64?_toString, Option.map_some]
  | defaultParallelism =>
    simp only [RunConfig.text?, Option.bind_some, normal?, word32?_toString, Option.map_some]
  | disableCombiner =>
    simp only [RunConfig.text?, Option.bind_some, normal?, switch?_switchText, Option.map_some]
  | tempDir => rfl
  | jobTracker => exact Option.bind_fun_some (c.text? .jobTracker)
  | defaultFs => exact Option.bind_fun_some (c.text? .defaultFs)
  | queue => exact Option.bind_fun_some (c.text? .queue)

end Setting

namespace RunConfig

/-- A configuration is what it writes and its extra properties. -/
theorem ext_text {c d : RunConfig} (text : ∀ s, c.text? s = d.text? s)
    (properties : c.properties = d.properties) : c = d := by
  have words {m n : UInt64} (same : some (toString m.toNat) = some (toString n.toNat)) : m = n :=
    UInt64.toNat_inj.mp (Text.toString_injective (Option.some.inj same))
  have halves {m n : UInt32} (same : some (toString m.toNat) = some (toString n.toNat)) : m = n :=
    UInt32.toNat_inj.mp (Text.toString_injective (Option.some.inj same))
  have switches {a b : Bool} (same : some (switchText a) = some (switchText b)) : a = b := by
    cases a <;> cases b <;> first | rfl | exact absurd same (by decide)
  have chunk := words (text .lastInputChunkSize)
  have combiner := switches (text .disableCombiner)
  have poll := words (text .pollIntervalMs)
  have dir := Option.some.inj (text .tempDir)
  have tracker := text .jobTracker
  have fs := text .defaultFs
  have queue := text .queue
  have parallelism := halves (text .defaultParallelism)
  obtain ⟨_, _, _, _, ⟨_, _, _, _⟩, _⟩ := c
  obtain ⟨_, _, _, _, ⟨_, _, _, _⟩, _⟩ := d
  simp only [text?] at *
  simp only [*]

/-- A setting takes what its value is read as, and all else stays. -/
theorem setText_accepted (c : RunConfig) {s : Setting} {value text : String}
    (read : s.normal? value = some text) :
    ∃ d, c.setText s value = .ok d ∧ d.properties = c.properties ∧
      ∀ t, d.text? t = if t = s then some text else c.text? t := by
  cases s with
  | lastInputChunkSize | pollIntervalMs | defaultParallelism =>
    simp only [Setting.normal?, Option.map_eq_some_iff] at read
    obtain ⟨n, number, rfl⟩ := read
    simp only [setText, withNumber, number]
    refine ⟨_, rfl, rfl, fun t => ?_⟩
    cases t <;> rfl
  | disableCombiner =>
    simp only [Setting.normal?, Option.map_eq_some_iff] at read
    obtain ⟨b, spelled, rfl⟩ := read
    simp only [setText, spelled]
    refine ⟨_, rfl, rfl, fun t => ?_⟩
    cases t <;> rfl
  | tempDir | jobTracker | defaultFs | queue =>
    simp only [Setting.normal?, Option.some.injEq] at read
    subst read
    refine ⟨_, rfl, rfl, fun t => ?_⟩
    cases t <;> rfl

theorem setText_refused (c : RunConfig) {s : Setting} {value : String} (refused : ¬ s.Accepts value) :
    c.setText s value = .error (s.fault value) := by
  rw [← Setting.normal?_eq_none] at refused
  cases s with
  | lastInputChunkSize | pollIntervalMs | defaultParallelism | disableCombiner =>
    simp only [Setting.normal?, Option.map_eq_none_iff] at refused
    simp only [setText, withNumber, refused, Setting.fault]
  | tempDir | jobTracker | defaultFs | queue => cases refused

/-- What a configuration makes of entries of distinct names that can all be read: an entry of a setting
goes to that setting, and every other one to the extra properties. -/
structure Takes (entries : List (String × String)) (c d : RunConfig) : Prop where
  text : ∀ s, d.text? s = ((entries.lookup s.key).bind s.normal?).or (c.text? s)
  extra : ∀ key, Setting.ofKey? key = none →
    d.properties.get? key = (entries.lookup key).or (c.properties.get? key)
  key : ∀ s : Setting, d.properties.get? s.key = c.properties.get? s.key

theorem Takes.cons {entry : String × String} {rest : List (String × String)} {c d e : RunConfig}
    (fresh : entry.1 ∉ rest.map Prod.fst) (first : Takes [entry] c d) (later : Takes rest d e) :
    Takes (entry :: rest) c e := by
  obtain ⟨key, value⟩ := entry
  have own : rest.lookup key = none := by
    refine List.lookup_eq_none_iff.mpr fun other member => bne_iff_ne.mpr ?_
    exact fun same => fresh (List.mem_map.mpr ⟨other, member, same.symm⟩)
  refine ⟨fun s => ?_, fun other free => ?_, fun s => ?_⟩
  · rw [later.text, first.text, lookup_cons_ite, lookup_cons_ite]
    by_cases same : s.key = key
    · rw [if_pos same, if_pos same, same, own, Option.bind_none, Option.none_or]
    · rw [if_neg same, if_neg same, List.lookup_nil, Option.bind_none, Option.none_or]
  · rw [later.extra other free, first.extra other free, lookup_cons_ite, lookup_cons_ite]
    by_cases same : other = key
    · rw [if_pos same, if_pos same, same, own, Option.none_or]
    · rw [if_neg same, if_neg same, List.lookup_nil, Option.none_or]
  · rw [later.key, first.key]

/-- An entry can be read. -/
def Readable (entry : String × String) : Prop := ∀ s : Setting, s.key = entry.1 → s.Accepts entry.2

theorem setProperty_readable (c : RunConfig) {entry : String × String} (readable : Readable entry) :
    ∃ d, c.setProperty entry.1 entry.2 = .ok d ∧ Takes [entry] c d := by
  obtain ⟨key, value⟩ := entry
  cases owner : Setting.ofKey? key with
  | some s =>
    obtain rfl := Setting.key_of_ofKey? owner
    obtain ⟨text, read⟩ := Setting.exists_normal? (readable s rfl)
    obtain ⟨d, taken, properties, texts⟩ := c.setText_accepted read
    refine ⟨d, by simp only [setProperty, owner, taken], fun t => ?_, fun other free => ?_, fun t => ?_⟩
    · rw [texts, lookup_cons_ite]
      by_cases same : t = s
      · subst same
        rw [if_pos rfl, if_pos rfl, Option.bind_some, read, Option.some_or]
      · have different : t.key ≠ s.key := fun keys => same (Setting.key_injective keys)
        rw [if_neg same, if_neg different, List.lookup_nil, Option.bind_none, Option.none_or]
    · have different : other ≠ s.key := fun same => by
        rw [same, Setting.ofKey?_key] at free
        cases free
      rw [properties, lookup_cons_ite, if_neg different, List.lookup_nil, Option.none_or]
    · rw [properties]
  | none =>
    have different (t : Setting) : t.key ≠ key := fun same => by
      rw [← same, Setting.ofKey?_key] at owner
      cases owner
    refine ⟨{ c with properties := c.properties.insert key value }, by simp only [setProperty, owner],
      fun t => ?_, fun other _ => ?_, fun t => ?_⟩
    · rw [lookup_cons_ite, if_neg (different t), List.lookup_nil, Option.bind_none, Option.none_or]
      cases t <;> rfl
    · rw [Properties.get?_insert, lookup_cons_ite]
      by_cases same : other = key
      · rw [if_pos same, if_pos same, Option.some_or]
      · rw [if_neg same, if_neg same, List.lookup_nil, Option.none_or]
    · rw [Properties.get?_insert, if_neg (different t)]

/-- Entries that can all be read make a configuration. -/
theorem foldlM_setProperty {entries : List (String × String)} (distinct : (entries.map Prod.fst).Nodup)
    (readable : ∀ entry ∈ entries, Readable entry) (c : RunConfig) :
    ∃ d, entries.foldlM (fun c entry => c.setProperty entry.1 entry.2) c = .ok d ∧ Takes entries c d := by
  induction entries generalizing c with
  | nil => exact ⟨c, rfl, fun _ => rfl, fun _ _ => rfl, fun _ => rfl⟩
  | cons entry rest ih =>
    rw [List.map_cons, List.nodup_cons] at distinct
    obtain ⟨d, set, first⟩ := c.setProperty_readable (readable entry List.mem_cons_self)
    obtain ⟨e, folded, later⟩ := ih distinct.2 (fun other member =>
      readable other (List.mem_cons_of_mem _ member)) d
    exact ⟨e, by rw [List.foldlM_cons, set]; exact folded, first.cons distinct.1 later⟩

/-- The first entry that cannot be read is reported. -/
theorem foldlM_setProperty_refused {before after : List (String × String)} {s : Setting} {value : String}
    (distinct : (before.map Prod.fst).Nodup) (readable : ∀ entry ∈ before, Readable entry)
    (refused : ¬ s.Accepts value) (c : RunConfig) :
    (before ++ (s.key, value) :: after).foldlM (fun c entry => c.setProperty entry.1 entry.2) c =
      .error (s.fault value) := by
  obtain ⟨d, folded, _⟩ := foldlM_setProperty distinct readable c
  have set : d.setProperty s.key value = .error (s.fault value) := by
    simp only [setProperty, Setting.ofKey?_key, setText_refused d refused]
  have stopped : ((s.key, value) :: after).foldlM (fun c entry => c.setProperty entry.1 entry.2) d =
      .error (s.fault value) := by
    rw [List.foldlM_cons, set]
    rfl
  rw [List.foldlM_append, folded]
  exact stopped

theorem ofProperties_accepted {p : Properties}
    (accepted : ∀ (s : Setting) (value : String), p.get? s.key = some value → s.Accepts value) :
    ∃ c, ofProperties p = .ok c ∧ Takes p.entries standard c := by
  refine foldlM_setProperty p.nodup_names (fun entry member s own => ?_) standard
  exact accepted s entry.2 (Properties.get?_eq_some_iff.mpr (own ▸ member))

/-- The least key whose value cannot be read is reported. -/
theorem ofProperties_refused {p : Properties} {s : Setting} {value : String}
    (here : p.get? s.key = some value) (refused : ¬ s.Accepts value)
    (least : ∀ (t : Setting) (other : String), p.get? t.key = some other → ¬ t.Accepts other →
      s.key ≤ t.key) : ofProperties p = .error (s.fault value) := by
  obtain ⟨before, after, split⟩ := List.append_of_mem (Properties.get?_eq_some_iff.mp here)
  have ascending := p.ascending
  have distinct := p.nodup_names
  rw [split] at ascending distinct
  rw [List.map_append] at distinct
  rw [ofProperties, split]
  refine foldlM_setProperty_refused distinct.of_append_left (fun entry member t own => ?_) refused standard
  have lower : entry.1 < s.key :=
    (List.pairwise_append.mp ascending).2.2 entry member _ List.mem_cons_self
  refine Decidable.byContradiction fun bad => ?_
  have found : p.get? t.key = some entry.2 := by
    rw [Properties.get?_eq_some_iff, split, own]
    exact List.mem_append_left _ member
  exact String.not_lt.mpr (least t entry.2 found bad) (own ▸ lower)

/-- Of the settings of a map that cannot be read one has the least key. -/
theorem exists_least_refused {p : Properties} {s : Setting} {value : String}
    (here : p.get? s.key = some value) (refused : ¬ s.Accepts value) :
    ∃ (s : Setting) (value : String), p.get? s.key = some value ∧ ¬ s.Accepts value ∧
      ∀ (t : Setting) (other : String), p.get? t.key = some other → ¬ t.Accepts other → s.key ≤ t.key := by
  have unreadable : ¬ Readable (s.key, value) := fun readable => refused (readable s rfl)
  obtain ⟨before, entry, after, split, readable, bad⟩ :=
    Traversal.exists_first (Properties.get?_eq_some_iff.mp here) unreadable
  simp only [Readable, not_forall] at bad
  obtain ⟨s, own, refused⟩ := bad
  refine ⟨s, entry.2, ?_, refused, fun t other there bad => ?_⟩
  · rw [Properties.get?_eq_some_iff, split, own]
    exact List.mem_append_right _ List.mem_cons_self
  · have ascending := p.ascending
    rw [split] at ascending
    have above := (List.pairwise_cons.mp (List.pairwise_append.mp ascending).2.1).1
    rw [Properties.get?_eq_some_iff, split, List.mem_append, List.mem_cons] at there
    rcases there with first | same | later
    · exact absurd (readable _ first t rfl) bad
    · have equal : t.key = s.key := (congrArg Prod.fst same).trans own.symm
      exact equal ▸ String.le_refl _
    · have higher : s.key < t.key := own ▸ above _ later
      exact String.not_lt.mp (String.lt_asymm higher)

theorem get?_toProperties_of_free (c : RunConfig) {key : String} (free : Setting.ofKey? key = none) :
    c.toProperties.get? key = c.properties.get? key := by
  refine Properties.get?_insertAll_of_forall_ne c.properties fun entry member => ?_
  obtain ⟨s, _, written⟩ := List.mem_filterMap.mp member
  obtain ⟨text, _, rfl⟩ := Option.map_eq_some_iff.mp written
  rintro rfl
  rw [Setting.ofKey?_key] at free
  cases free

theorem text?_standard_of_none {c : RunConfig} {s : Setting} (unset : c.text? s = none) :
    standard.text? s = none := by
  cases s <;> first | rfl | cases unset

/-- The map of a configuration reads as that configuration, if its extra properties are separate. -/
theorem ofProperties_toProperties {c : RunConfig} (separate : c.Separate) :
    ofProperties c.toProperties = .ok c := by
  have own (s : Setting) : c.toProperties.get? s.key = c.text? s := by
    rw [get?_toProperties, separate, Option.or_none]
  have accepted (s : Setting) (value : String) (here : c.toProperties.get? s.key = some value) :
      s.Accepts value := by
    have read := Setting.normal?_text c s
    rw [← own, here, Option.bind_some] at read
    exact Setting.isSome_normal?.mp (Option.isSome_of_eq_some read)
  obtain ⟨d, made, takes⟩ := ofProperties_accepted accepted
  have text (s : Setting) : d.text? s = c.text? s := by
    have found : c.toProperties.entries.lookup s.key = c.text? s := own s
    rw [takes.text, found, Setting.normal?_text]
    cases set : c.text? s with
    | some text => rfl
    | none => rw [Option.none_or, text?_standard_of_none set]
  have extra (key : String) : d.properties.get? key = c.properties.get? key := by
    cases owner : Setting.ofKey? key with
    | some s =>
      obtain rfl := Setting.key_of_ofKey? owner
      rw [takes.key, separate]
      rfl
    | none =>
      rw [takes.extra key owner, ← get?_toProperties_of_free c owner]
      exact Option.or_none
  rw [made, ext_text text (Properties.ext_get? extra)]

theorem flattens (c : RunConfig) : c.Flattens where
  restored := ofProperties_toProperties
  holds s text here := by rw [get?_toProperties, here, Option.some_or]
  passes _ := c.get?_toProperties_of_free

end RunConfig

namespace Properties

theorem accepts_of_ofProperties {p : Properties} {c : RunConfig} (read : RunConfig.ofProperties p = .ok c)
    (s : Setting) (value : String) (here : p.get? s.key = some value) : s.Accepts value := by
  refine Decidable.byContradiction fun refused => ?_
  obtain ⟨t, other, there, bad, least⟩ := RunConfig.exists_least_refused here refused
  rw [RunConfig.ofProperties_refused there bad least] at read
  cases read

theorem separate_of_ofProperties {p : Properties} {c : RunConfig}
    (read : RunConfig.ofProperties p = .ok c) : c.Separate := by
  obtain ⟨d, made, takes⟩ := RunConfig.ofProperties_accepted (accepts_of_ofProperties read)
  obtain rfl := Except.ok.inj (read.symm.trans made)
  exact takes.key

theorem configures (p : Properties) : p.Configures where
  accepted := by
    refine ⟨fun ⟨c, read⟩ => accepts_of_ofProperties read, fun accepted => ?_⟩
    exact (RunConfig.ofProperties_accepted accepted).imp fun _ => And.left
  separate _ := separate_of_ofProperties
  restored _ read := RunConfig.ofProperties_toProperties (separate_of_ofProperties read)
  refused fault := by
    constructor
    · intro read
      have some : ¬ ∀ (s : Setting) (value : String), p.get? s.key = some value → s.Accepts value := by
        intro accepted
        obtain ⟨c, made, _⟩ := RunConfig.ofProperties_accepted accepted
        cases read.symm.trans made
      simp only [not_forall] at some
      obtain ⟨s, value, here, refused⟩ := some
      obtain ⟨t, other, there, bad, least⟩ := RunConfig.exists_least_refused here refused
      have reported := RunConfig.ofProperties_refused there bad least
      exact ⟨t, other, there, bad, Except.error.inj (read.symm.trans reported), least⟩
    · rintro ⟨s, value, here, refused, rfl, least⟩
      exact RunConfig.ofProperties_refused here refused least

end Properties

/-- Configurations survive flattening, whatever they hold and from whatever map they come. -/
theorem RunConfig.flattening_lawful : (∀ c : RunConfig, c.Flattens) ∧ ∀ p : Properties, p.Configures :=
  ⟨flattens, Properties.configures⟩

/-- A chunk size keeps its number but not its blanks and its plus sign. -/
example : (RunConfig.ofProperties (.ofList [("last.input.chunksize", " +0250 ")])).map
    (·.toProperties.get? "last.input.chunksize") = .ok (some "250") := by
  decide +kernel

/-- Of two values that cannot be read that of the lesser key is reported. -/
example : RunConfig.ofProperties (.ofList [("last.input.chunksize", "-1"), ("exec.nocombiner", "maybe")]) =
    .error (.notASwitch "exec.nocombiner" "maybe") := by
  rfl

end Wavefront
