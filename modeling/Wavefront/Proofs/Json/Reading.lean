import Wavefront.Json.Printer
import Wavefront.Json.Reader
import Wavefront.Proofs.Lookup
set_option autoImplicit false

/-!
The reader of documents undoes the printer. Of the values only those are looked at that the documents of
plans and graphs are made of (`Json.Whole`): every number is a natural number of 64 bits. Main
statement: what such a value is written as reads as that value and nothing is left.
-/
namespace Wavefront

/-- The decimal digits of a number other than zero do not begin with a zero. -/
theorem Text.head?_toDigits_ne {n : Nat} (positive : 0 < n) : (Nat.toDigits 10 n).head? ≠ some '0' := by
  induction n using Nat.strongRecOn with
  | ind n ih =>
    by_cases small : n < 10
    · rw [Nat.toDigits_of_lt_base small]
      have each : ∀ k : Fin 10, 0 < k.val → [k.val.digitChar].head? ≠ some '0' := by decide
      exact each ⟨n, small⟩ positive
    · have large : 10 ≤ n := Nat.not_lt.mp small
      rw [Nat.toDigits_of_base_le (by decide) large, List.head?_append_of_ne_nil _ Nat.toDigits_ne_nil]
      exact ih (n / 10) (by omega) (by omega)

namespace Json

/-- The documents whose numbers are natural numbers of 64 bits. -/
inductive Whole : Json → Prop
  | null : Whole .null
  | bool (b : Bool) : Whole (.bool b)
  | nat {n : Nat} (fits : n < Text.wordBound) : Whole (.nat n)
  | str (s : String) : Whole (.str s)
  | arr {items : List Json} (each : ∀ j ∈ items, Whole j) : Whole (.arr items)
  | obj {members : List (String × Json)} (each : ∀ m ∈ members, Whole m.2) : Whole (.obj members)

/-! ### Quoted texts -/

theorem unit?_control {n : Nat} (control : n < 32) :
    unit? '0' '0' (hexDigit (n / 16)) (hexDigit (n % 16)) = some n := by
  have each : ∀ k : Fin 32, unit? '0' '0' (hexDigit (k.val / 16)) (hexDigit (k.val % 16)) =
      some k.val := by decide
  exact each ⟨n, control⟩

/-- A character is read from its escape. -/
theorem quoted?_escapeChar (c : Char) (rest : List Char) :
    quoted? (escapeChar c ++ rest) = (quoted? rest).map fun (cs, left) => (c :: cs, left) := by
  have spelled {n : Nat} (code : c.toNat = n) : c = Char.ofNat n := by rw [← code, Char.ofNat_toNat]
  unfold escapeChar
  split
  · next quote => rw [quote]; rfl
  split
  · next backslash => rw [backslash]; rfl
  split
  · next newLine => rw [newLine]; rfl
  split
  · next carriageReturn => rw [carriageReturn]; rfl
  split
  · next tab => rw [tab]; rfl
  split
  · next backspace => rw [spelled backspace]; rfl
  split
  · next formFeed => rw [spelled formFeed]; rfl
  split
  · next control =>
    -- a control character is no part of a pair of units
    have high : ¬ (0xD800 ≤ c.toNat ∧ c.toNat ≤ 0xDBFF) := by omega
    have low : ¬ (0xDC00 ≤ c.toNat ∧ c.toNat ≤ 0xDFFF) := by omega
    simp only [List.cons_append, List.nil_append]
    rw [quoted?, unit?_control control]
    dsimp only
    rw [if_neg high, if_neg low, Char.ofNat_toNat]
  · next quote backslash _ _ _ _ _ plain =>
    rw [List.singleton_append, quoted?]
    · exact if_neg (by simp [plain, backslash])
    all_goals simp [quote, backslash]

theorem quoted?_escape (cs rest : List Char) :
    quoted? (cs.flatMap escapeChar ++ '"' :: rest) = some (cs, rest) := by
  induction cs with
  | nil => rfl
  | cons c cs ih => rw [List.flatMap_cons, List.append_assoc, quoted?_escapeChar, ih, Option.map_some]

theorem quote_append (s : String) (rest : List Char) :
    quote s ++ rest = '"' :: (s.toList.flatMap escapeChar ++ '"' :: rest) := by
  simp [quote]

/-! ### Numbers -/

/-- What may follow a value: its document ends, or a part of it does. -/
def Ended (rest : List Char) : Prop := ∀ c ∈ rest.head?, c = ',' ∨ c = ']' ∨ c = '}'

theorem Ended.nil : Ended [] := nofun

/-- Digits that do not begin with a zero, or are one zero, read as the number that they spell. -/
theorem number?_append {digits rest : List Char} (all : ∀ c ∈ digits, c.isDigit = true)
    (nonempty : digits ≠ []) (lead : digits.head? = some '0' → digits.length = 1)
    (ended : Ended rest) :
    number? (digits ++ rest) = (wholeNumber? false digits).map fun n => (n, rest) := by
  have stops : ∀ c ∈ rest.head?, c.isDigit = false := by
    intro c first
    rcases ended c first with rfl | rfl | rfl <;> rfl
  have whole : (digits ++ rest).takeWhile Char.isDigit = digits := by
    rw [List.takeWhile_append_of_pos all]
    cases rest with
    | nil => simp
    | cons c rest => simp [stops c rfl]
  have left : (digits ++ rest).dropWhile Char.isDigit = rest := by
    rw [List.dropWhile_append_of_pos all]
    cases rest with
    | nil => rfl
    | cons c rest => simp [stops c rfl]
  have unsigned : ∀ cs, digits ++ rest ≠ '-' :: cs := by
    obtain ⟨d, ds, rfl⟩ := List.exists_cons_of_ne_nil nonempty
    rintro cs same
    obtain ⟨rfl, -⟩ := List.cons_eq_cons.mp same
    exact absurd (all '-' List.mem_cons_self) (by decide)
  have written : ¬ (digits.isEmpty = true ∨ (digits.length ≠ 1 ∧ digits.head? = some '0')) := by
    rintro (empty | ⟨long, zero⟩)
    · exact nonempty (List.isEmpty_iff.mp empty)
    · exact long (lead zero)
  rw [number?, whole, left, if_neg written]
  · cases rest with
    | nil => rfl
    | cons c rest => rcases ended c rfl with rfl | rfl | rfl <;> rfl
  · exact unsigned

/-- The text of a number below the bound reads as the number. -/
theorem number?_nat {n : Nat} (fits : n < Text.wordBound) {rest : List Char} (ended : Ended rest) :
    number? (chars (Json.nat n) ++ rest) = some (.int n, rest) := by
  have value : Text.digitsValue (chars (Json.nat n)) = n := Text.digitsValue_toString n
  have lead : (chars (Json.nat n)).head? = some '0' → (chars (Json.nat n)).length = 1 := by
    intro zero
    have digits : chars (Json.nat n) = Nat.toDigits 10 n := Nat.toList_repr
    rcases Nat.eq_zero_or_pos n with rfl | positive
    · rw [digits]
      rfl
    · exact absurd (digits ▸ zero) (Text.head?_toDigits_ne positive)
  have all : ∀ c ∈ chars (Json.nat n), c.isDigit = true := fun c => Text.isDigit_of_mem_toString
  rw [number?_append all (Text.toList_toString_ne_nil n) lead ended, wholeNumber?, value,
    if_neg (by decide), if_pos fits, Option.map_some]

/-! ### Values -/

theorem exists_digit (n : Nat) : ∃ d ds, chars (Json.nat n) = d :: ds ∧ d.isDigit = true := by
  obtain ⟨d, ds, same⟩ := List.exists_cons_of_ne_nil (Text.toList_toString_ne_nil n)
  exact ⟨d, ds, same, Text.isDigit_of_mem_toString (same ▸ List.mem_cons_self)⟩

/-- No value begins with a space, nor as the rest of a list begins. -/
theorem Whole.exists_chars {j : Json} (whole : Whole j) :
    ∃ c rest, chars j = c :: rest ∧ isSpace c = false ∧ c ≠ ']' ∧ c ≠ '}' := by
  cases whole with
  | null => exact ⟨_, _, rfl, by decide⟩
  | bool b => cases b <;> exact ⟨_, _, rfl, by decide⟩
  | str s => exact ⟨_, _, rfl, by decide⟩
  | arr each =>
    rename_i items
    cases items <;> exact ⟨_, _, rfl, by decide⟩
  | obj each =>
    rename_i members
    cases members <;> exact ⟨_, _, rfl, by decide⟩
  | nat fits =>
    rename_i n
    obtain ⟨d, ds, same, digit⟩ := exists_digit n
    have other {c : Char} (is : c.isDigit = false) : d ≠ c := by
      rintro rfl
      rw [digit] at is
      cases is
    exact ⟨d, ds, same, by simp [isSpace, other], other rfl, other rfl⟩

theorem skip_cons {c : Char} (other : isSpace c = false) (rest : List Char) :
    skip (c :: rest) = c :: rest := by
  rw [skip, List.dropWhile_cons_of_neg (by simp [other])]

/-- Where no other value can begin there is a number. -/
theorem value?_number {c : Char} (digit : c.isDigit = true) (fuel : Nat) (rest : List Char) :
    value? (fuel + 1) (c :: rest) = (number? (c :: rest)).map fun (n, left) => (.num n, left) := by
  have other {d : Char} (is : d.isDigit = false) : c ≠ d := by
    rintro rfl
    rw [digit] at is
    cases is
  rw [value?, skip_cons (by simp [isSpace, other])]
  split
  all_goals try rfl
  all_goals
    next same =>
      obtain ⟨rfl, -⟩ := List.cons_eq_cons.mp same
      exact absurd digit (by decide)

section Steps

variable {fuel : Nat} {cs rest left : List Char} {item : Json} {items : List Json}
  {first : String × Json} {members : List (String × Json)}

theorem items?_comma (one : value? fuel cs = some (item, rest))
    (more : items? fuel rest = some (items, left)) :
    items? (fuel + 1) (',' :: cs) = some (item :: items, left) := by
  simp [items?, skip_cons (c := ',') rfl, one, more]

theorem members?_comma (one : member? fuel cs = some (first, rest))
    (more : members? fuel rest = some (members, left)) :
    members? (fuel + 1) (',' :: cs) = some (first :: members, left) := by
  simp [members?, skip_cons (c := ',') rfl, one, more]

theorem member?_quote (name : String) (value : value? fuel cs = some (item, left)) :
    member? (fuel + 1) (quote name ++ ':' :: cs) = some ((name, item), left) := by
  simp [quote_append, member?, skip_cons (c := '"') rfl, quoted?_escape, skip_cons (c := ':') rfl, value]

theorem value?_quote (s : String) :
    value? (fuel + 1) (quote s ++ rest) = some (.str s, rest) := by
  simp [quote_append, value?, skip_cons (c := '"') rfl, quoted?_escape]

theorem value?_bracket (begins : ∃ c text, cs = c :: text ∧ isSpace c = false ∧ c ≠ ']')
    (one : value? fuel cs = some (item, rest)) (more : items? fuel rest = some (items, left)) :
    value? (fuel + 1) ('[' :: cs) = some (.arr (item :: items), left) := by
  obtain ⟨c, text, rfl, other, further⟩ := begins
  simp [value?, skip_cons (c := '[') rfl, skip_cons other, further, one, more]

theorem value?_brace (one : member? fuel ('"' :: cs) = some (first, rest))
    (more : members? fuel rest = some (members, left)) :
    value? (fuel + 1) ('{' :: '"' :: cs) = some (.obj (first :: members), left) := by
  simp [value?, skip_cons (c := '{') rfl, skip_cons (c := '"') rfl, one, more]

end Steps

/-- Whether what a value is written as reads as that value, with twice as many steps as characters. -/
def Reads (j : Json) : Prop :=
  ∀ (fuel : Nat) (rest : List Char), 2 * (chars j).length ≤ fuel → Ended rest →
    value? fuel (chars j ++ rest) = some (j, rest)

theorem Ended.itemChars (items : List Json) (rest : List Char) : Ended (itemChars items ++ rest) := by
  cases items with
  | nil => rintro c ⟨⟩; exact .inr (.inl rfl)
  | cons item others => rintro c ⟨⟩; exact .inl rfl

theorem Ended.memberChars (members : List (String × Json)) (rest : List Char) :
    Ended (memberChars members ++ rest) := by
  cases members with
  | nil => rintro c ⟨⟩; exact .inr (.inr rfl)
  | cons item others => rintro c ⟨⟩; exact .inl rfl

/-- The elements after the first read as such, if each element does. -/
theorem items?_itemChars {items : List Json} (each : ∀ j ∈ items, Reads j) {fuel : Nat}
    (rest : List Char) (enough : 2 * (itemChars items).length ≤ fuel) :
    items? fuel (itemChars items ++ rest) = some (items, rest) := by
  induction items generalizing fuel with
  | nil =>
    obtain ⟨fuel, rfl⟩ := Nat.exists_eq_add_one.mpr (Nat.lt_of_lt_of_le Nat.two_pos enough)
    rfl
  | cons item others ih =>
    simp only [itemChars, List.cons_append, List.length_cons, List.length_append] at enough
    obtain ⟨fuel, rfl⟩ := Nat.exists_eq_add_one.mpr (show 0 < fuel by omega)
    rw [itemChars, List.cons_append, List.cons_append, List.append_assoc]
    exact items?_comma
      (each item List.mem_cons_self fuel _ (by omega) (.itemChars others rest))
      (ih (fun j member => each j (List.mem_cons_of_mem item member)) (by omega))

theorem member?_append {name : String} {value : Json} (reads : Reads value) {fuel : Nat}
    {rest : List Char} (enough : 2 * (quote name ++ ':' :: chars value).length ≤ fuel)
    (ended : Ended rest) :
    member? fuel (quote name ++ (':' :: chars value ++ rest)) = some ((name, value), rest) := by
  simp only [List.length_append, List.length_cons] at enough
  obtain ⟨fuel, rfl⟩ := Nat.exists_eq_add_one.mpr (show 0 < fuel by omega)
  exact member?_quote name (reads fuel rest (by omega) ended)

/-- The members after the first read as such, if the value of each does. -/
theorem members?_memberChars {members : List (String × Json)} (each : ∀ m ∈ members, Reads m.2)
    {fuel : Nat} (rest : List Char) (enough : 2 * (memberChars members).length ≤ fuel) :
    members? fuel (memberChars members ++ rest) = some (members, rest) := by
  induction members generalizing fuel with
  | nil =>
    obtain ⟨fuel, rfl⟩ := Nat.exists_eq_add_one.mpr (Nat.lt_of_lt_of_le Nat.two_pos enough)
    rfl
  | cons first others ih =>
    obtain ⟨name, value⟩ := first
    simp only [memberChars, List.cons_append, List.length_cons, List.length_append] at enough
    obtain ⟨fuel, rfl⟩ := Nat.exists_eq_add_one.mpr (show 0 < fuel by omega)
    have own : Reads value := each (name, value) List.mem_cons_self
    rw [memberChars, List.cons_append, List.cons_append, List.cons_append, List.append_assoc,
      List.append_assoc]
    exact members?_comma
      (member?_append own (by simp only [List.length_append, List.length_cons]; omega)
        (.memberChars others rest))
      (ih (fun m member => each m (List.mem_cons_of_mem _ member)) (by omega))

/-- A value that is written takes at least one step to read. -/
theorem Whole.reads_of_succ {j : Json} (whole : Whole j)
    (step : ∀ (fuel : Nat) (rest : List Char), 2 * (chars j).length ≤ fuel + 1 → Ended rest →
      value? (fuel + 1) (chars j ++ rest) = some (j, rest)) : Reads j := by
  intro fuel rest enough ended
  obtain ⟨c, cs, same, -⟩ := whole.exists_chars
  have some : 0 < fuel := by
    rw [same, List.length_cons] at enough
    omega
  obtain ⟨fuel, rfl⟩ := Nat.exists_eq_add_one.mpr some
  exact step fuel rest enough ended

/-- What a value is written as reads as that value. -/
theorem Whole.reads {j : Json} (whole : Whole j) : Reads j := by
  induction whole with
  | null => exact reads_of_succ .null fun fuel rest _ _ => rfl
  | bool b => exact reads_of_succ (.bool b) fun fuel rest _ _ => by cases b <;> rfl
  | @nat n fits =>
    refine reads_of_succ (.nat fits) fun fuel rest _ ended => ?_
    have read := number?_nat fits ended
    obtain ⟨d, ds, same, digit⟩ := exists_digit n
    rw [same, List.cons_append] at read ⊢
    rw [value?_number digit, read]
    rfl
  | str s => exact reads_of_succ (.str s) fun fuel rest _ _ => value?_quote s
  | @arr items each ih =>
    refine reads_of_succ (.arr each) fun fuel rest enough _ => ?_
    cases items with
    | nil => rfl
    | cons item others =>
      simp only [chars, List.cons_append, List.length_cons, List.length_append] at enough
      obtain ⟨c, cs, same, other, further, -⟩ := (each item List.mem_cons_self).exists_chars
      rw [chars, List.cons_append, List.cons_append, List.append_assoc]
      exact value?_bracket ⟨c, _, by rw [same]; rfl, other, further⟩
        (ih item List.mem_cons_self fuel _ (by omega) (.itemChars others rest))
        (items?_itemChars (fun j member => ih j (List.mem_cons_of_mem item member)) rest (by omega))
  | @obj members each ih =>
    refine reads_of_succ (.obj each) fun fuel rest enough _ => ?_
    cases members with
    | nil => rfl
    | cons first others =>
      obtain ⟨name, value⟩ := first
      simp only [chars, List.cons_append, List.length_cons, List.length_append] at enough
      have own : Reads value := ih (name, value) List.mem_cons_self
      have begun : member? fuel (quote name ++ (':' :: chars value ++ (memberChars others ++ rest))) =
          some ((name, value), memberChars others ++ rest) :=
        member?_append own (by simp only [List.length_append, List.length_cons]; omega)
          (.memberChars others rest)
      rw [chars, List.cons_append, List.cons_append, List.cons_append, List.append_assoc,
        List.append_assoc]
      rw [quote_append] at begun ⊢
      exact value?_brace begun
        (members?_memberChars (fun m member => ih m (List.mem_cons_of_mem _ member)) rest (by omega))

/-- The reader of documents undoes the printer. -/
theorem Whole.parse?_render {j : Json} (whole : Whole j) : parse? j.render = some j := by
  have length : j.render.length = (chars j).length := by rw [render, String.length_ofList]
  have read := whole.reads (2 * j.render.length + 2) [] (by omega) .nil
  rw [List.append_nil] at read
  rw [parse?, render, String.toList_ofList]
  rw [render] at read
  rw [read]
  rfl

end Json

/-- The bytes of an array, listed from some place on. -/
theorem byteList_loop (bytes : ByteArray) (i : Nat) (listed : List UInt8) :
    ByteArray.toList.loop bytes i listed = listed.reverse ++ bytes.data.toList.drop i := by
  fun_induction ByteArray.toList.loop bytes i listed with
  | case1 i listed inside ih =>
    have first : bytes.data.toList.drop i = bytes.get! i :: bytes.data.toList.drop (i + 1) := by
      rw [List.drop_eq_getElem_cons (h := inside), ByteArray.get!,
        getElem!_pos bytes.data i inside]
      rfl
    rw [ih, first, List.reverse_cons, List.append_assoc, List.singleton_append]
  | case2 i listed outside =>
    rw [List.drop_eq_nil_of_le (Nat.not_lt.mp outside), List.append_nil]

theorem utf8_ofList (cs : List Char) :
    (String.ofList cs).toUTF8.toList = cs.flatMap String.utf8EncodeChar := by
  rw [ByteArray.toList, byteList_loop, String.toUTF8, String.toByteArray_ofList, List.utf8Encode]
  simp

theorem utf8_injective {s t : String} (same : s.toUTF8.toList = t.toUTF8.toList) : s = t := by
  rw [ByteArray.toList, ByteArray.toList, byteList_loop, byteList_loop] at same
  exact String.toByteArray_inj.mp (ByteArray.ext (Array.toList_inj.mp (by simpa using same)))

end Wavefront
