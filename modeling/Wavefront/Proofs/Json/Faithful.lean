import Wavefront.Json.Decode
import Wavefront.Proofs.Json.Reading
set_option autoImplicit false

/-!
Document forms that can be read back. A value is written faithfully (`Json.Faithful`) if its document
form reads as the value, is not `null`, and is a document that the printer can write and the reader can
read. The lemmas say how faithful forms are put together: lists, choices without content, and the fields
of records, of which those that may be absent are written as `null`.
-/
namespace Wavefront.Json
open Wavefront.Text

variable {α : Type} {encode : α → Json} {decode : Json → Option α}

theorem str_ne_null (s : String) : Json.str s ≠ .null := nofun

theorem arr_ne_null (items : List Json) : Json.arr items ≠ .null := nofun

theorem obj_ne_null (members : List (String × Json)) : Json.obj members ≠ .null := nofun

/-- Whether the document form of a value says what the value is. -/
structure Faithful (encode : α → Json) (decode : Json → Option α) (x : α) : Prop where
  whole : Whole (encode x)
  /-- What is written as `null` is absent. -/
  present : encode x ≠ .null
  decodes : decode (encode x) = some x

namespace Faithful

theorem text (s : String) : Faithful .str text? s := ⟨.str s, str_ne_null s, rfl⟩

theorem word {n : Nat} (fits : n < wordBound) : Faithful Json.nat word? n := ⟨.nat fits, nofun, if_pos fits⟩

theorem halfWord {n : Nat} (fits : n < halfWordBound) : Faithful Json.nat halfWord? n :=
  ⟨.nat (Nat.lt_trans fits (by decide)), nofun, if_pos fits⟩

theorem bare {name : α → String} {cases : List (String × α)} (tagged : Bool) {x : α}
    (found : cases.lookup (name x) = some x) :
    Faithful (fun x => .str (name x)) (bareCase? cases tagged) x :=
  ⟨.str _, str_ne_null _, found⟩

theorem list {xs : List α} (each : ∀ x ∈ xs, Faithful encode decode x) :
    Faithful (Json.list encode) (list? decode) xs := by
  refine ⟨.arr (List.forall_mem_map.mpr fun x member => (each x member).whole), arr_ne_null _, ?_⟩
  rw [Json.list, list?]
  induction xs with
  | nil => rfl
  | cons x rest ih =>
    rw [List.map_cons, List.mapM_cons, (each x List.mem_cons_self).decodes,
      ih fun y member => each y (List.mem_cons_of_mem x member)]
    rfl

theorem strings (xs : List String) : Faithful Json.strings strings? xs := list fun s _ => text s

theorem reads {x : α} (faithful : Faithful encode decode x) :
    (parse? (encode x).render).bind decode = some x := by
  rw [faithful.whole.parse?_render, Option.bind_some, faithful.decodes]

theorem render_injective {x y : α} (first : Faithful encode decode x)
    (second : Faithful encode decode y) (same : (encode x).render = (encode y).render) : x = y := by
  have read := first.reads
  rw [same, second.reads] at read
  exact (Option.some.inj read).symm

end Faithful

/-! ### Fields of records -/

theorem Whole.fields_nil : Whole (.obj []) := .obj nofun

theorem Whole.fields_cons {name : String} {value : Json} {rest : List (String × Json)}
    (whole : Whole value) (others : Whole (.obj rest)) : Whole (.obj ((name, value) :: rest)) := by
  cases others with
  | obj each => exact .obj (List.forall_mem_cons.mpr ⟨whole, each⟩)

theorem Whole.option {x : Option α} (each : ∀ y ∈ x, Faithful encode decode y) :
    Whole (option encode x) := by
  cases x with
  | none => exact .null
  | some y => exact (each y rfl).whole

theorem option?_option {x : Option α} (each : ∀ y ∈ x, Faithful encode decode y) :
    option? decode (option encode x) = some x := by
  cases x with
  | none => rfl
  | some y =>
    have own := each y rfl
    rw [Json.option, option?]
    · rw [own.decodes, Option.map_some]
    · exact own.present

@[simp] theorem recordUpTo?_obj (defaulted : Nat) (names : List String)
    (members : List (String × Json)) :
    recordUpTo? defaulted names (.obj members) = some members := rfl

@[simp] theorem record?_obj (names : List String) (members : List (String × Json)) :
    record? names (.obj members) = some members := rfl

@[simp] theorem field?_cons (key name : String) (value : Json) (rest : List (String × Json))
    (decode : Json → Option α) :
    field? ((key, value) :: rest) name decode =
      if key = name then decode value else field? rest name decode := by
  by_cases same : key = name <;> simp [field?, member, same]

@[simp] theorem optional?_cons (key name : String) (value : Json) (rest : List (String × Json))
    (decode : Json → Option α) :
    optional? ((key, value) :: rest) name decode =
      if key = name then option? decode value else optional? rest name decode := by
  by_cases same : key = name <;> simp [optional?, member, same]

end Wavefront.Json
