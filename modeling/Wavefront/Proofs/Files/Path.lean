import Mathlib.Data.List.Infix
import Wavefront.Files.Path
import Wavefront.Text.Blank
set_option autoImplicit false

/-!
Names on paths. A slash between two paths puts the names of the second after those of the first. Main
statement: the parent of a path leads where the path leads less its last name, where single dots count
for nothing.
-/
namespace Wavefront.Path

@[simp] theorem parts_nil : parts [] = [[]] := rfl

@[simp] theorem parts_slash (rest : List Char) : parts ('/' :: rest) = [] :: parts rest := rfl

theorem parts_cons {c : Char} (letter : c ≠ '/') (rest : List Char) :
    parts (c :: rest) = match parts rest with
      | [] => [[c]]
      | part :: others => (c :: part) :: others :=
  parts.eq_3 c rest letter

theorem parts_ne_nil (cs : List Char) : parts cs ≠ [] := by
  fun_cases parts cs <;> simp

/-- A slash ends a part. -/
theorem parts_append_slash (first second : List Char) :
    parts (first ++ '/' :: second) = parts first ++ parts second := by
  induction first with
  | nil => rfl
  | cons c rest ih =>
    by_cases slash : c = '/'
    · subst slash
      rw [List.cons_append, parts_slash, parts_slash, ih, List.cons_append]
    · rw [List.cons_append, parts_cons slash, parts_cons slash, ih]
      cases found : parts rest with
      | nil => exact absurd found (parts_ne_nil rest)
      | cons part others => rfl

theorem parts_eq_singleton {cs : List Char} (unbroken : '/' ∉ cs) : parts cs = [cs] := by
  induction cs with
  | nil => rfl
  | cons c rest ih =>
    obtain ⟨letter, others⟩ := not_or.mp (mt List.mem_cons.mpr unbroken)
    rw [parts_cons (Ne.symm letter), ih others]

theorem not_mem_of_mem_parts {cs part : List Char} (member : part ∈ parts cs) : '/' ∉ part := by
  induction cs generalizing part with
  | nil =>
    rw [parts_nil, List.mem_singleton] at member
    simp [member]
  | cons c rest ih =>
    by_cases slash : c = '/'
    · subst slash
      rw [parts_slash, List.mem_cons] at member
      rcases member with rfl | later
      · exact List.not_mem_nil
      · exact ih later
    · rw [parts_cons slash] at member
      cases found : parts rest with
      | nil => exact absurd found (parts_ne_nil rest)
      | cons first others =>
        rw [found] at member ih
        rcases List.mem_cons.mp member with rfl | later
        · simpa [Ne.symm slash] using ih List.mem_cons_self
        · exact ih (List.mem_cons_of_mem _ later)

def namesOf (cs : List Char) : List String :=
  ((parts cs).filter fun part => !part.isEmpty).map String.ofList

theorem names_eq (path : String) : names path = namesOf path.toList := rfl

theorem namesOf_append_slash (first second : List Char) :
    namesOf (first ++ '/' :: second) = namesOf first ++ namesOf second := by
  rw [namesOf, parts_append_slash, List.filter_append, List.map_append, namesOf, namesOf]

theorem namesOf_unbroken {cs : List Char} (unbroken : '/' ∉ cs) :
    namesOf cs = if cs = [] then [] else [String.ofList cs] := by
  rw [namesOf, parts_eq_singleton unbroken]
  cases cs <;> simp

theorem slash_notMem_of_mem_names {path name : String} (member : name ∈ names path) :
    '/' ∉ name.toList := by
  obtain ⟨part, among, rfl⟩ := List.mem_map.mp member
  rw [String.toList_ofList]
  exact not_mem_of_mem_parts (List.mem_of_mem_filter among)

theorem names_append_slash (first second : String) :
    names (first ++ "/" ++ second) = names first ++ names second := by
  have chars : (first ++ "/" ++ second).toList = first.toList ++ '/' :: second.toList := by simp
  rw [names_eq, chars, namesOf_append_slash, names_eq, names_eq]

/-- What a name is joined to is the end of a path. -/
theorem join_append (front : String) {path : String} (some : path ≠ "") (name : String) :
    join (front ++ path) name = front ++ join path name := by
  have chars : path.toList ≠ [] := by simpa using some
  have last : (front ++ path).toList.getLast? = path.toList.getLast? := by
    rw [String.toList_append, List.getLast?_append_of_ne_nil _ chars]
  have whole : (front ++ path).isEmpty = false := by simp [some]
  have part : path.isEmpty = false := by simp [some]
  rw [join, join, last, whole, part, Bool.or_false]
  split
  · rw [String.append_assoc]
  · simp only [String.append_assoc]

/-- Joining puts the names of one path after those of another. -/
theorem names_join (path name : String) : names (join path name) = names path ++ names name := by
  rw [join]
  split
  next joined =>
    rcases Bool.or_eq_true_iff.mp joined with slash | empty
    · obtain ⟨front, split⟩ := List.getLast?_eq_some_iff.mp (eq_of_beq slash)
      have chars : (path ++ name).toList = front ++ '/' :: name.toList := by simp [split]
      rw [names_eq, chars, namesOf_append_slash, names_eq, names_eq, split, namesOf_append_slash]
      simp [namesOf_unbroken]
    · rw [String.isEmpty_iff.mp empty, String.empty_append]
      rfl
  next => exact names_append_slash path name

/-- The names on a path that lead further down. -/
def steps (path : String) : List String := (names path).filter (· != ".")

def stepsOf (cs : List Char) : List String := (namesOf cs).filter (· != ".")

theorem steps_eq (path : String) : steps path = stepsOf path.toList := rfl

theorem stepsOf_append_slash (first second : List Char) :
    stepsOf (first ++ '/' :: second) = stepsOf first ++ stepsOf second := by
  rw [stepsOf, namesOf_append_slash, List.filter_append, stepsOf, stepsOf]

/-- What trimming leaves of a reversed path is a start of the path, with the same steps. -/
theorem trimReversed_spec (cs : List Char) :
    trimReversed cs <:+ cs ∧ stepsOf (trimReversed cs).reverse = stepsOf cs.reverse ∧
      (∀ name ∈ namesOf (trimReversed cs).reverse, name ∈ namesOf cs.reverse) ∧
      (trimReversed cs = [] → cs = []) := by
  induction cs using trimReversed.induct with
  | case1 c rest ih =>
    obtain ⟨suffix, same, among, some⟩ := ih
    have chars : ('/' :: c :: rest).reverse = (c :: rest).reverse ++ '/' :: [] := by simp
    rw [trimReversed, chars, stepsOf_append_slash, namesOf_append_slash]
    refine ⟨suffix.trans (List.suffix_cons _ _), ?_, ?_, fun none => absurd (some none) (List.cons_ne_nil _ _)⟩
    · simpa [stepsOf, namesOf] using same
    · exact fun name member => List.mem_append_left _ (among name member)
  | case2 rest ih =>
    obtain ⟨suffix, same, among, some⟩ := ih
    have slash : ('/' :: rest).reverse = rest.reverse ++ '/' :: [] := by simp
    have chars : ('.' :: '/' :: rest).reverse = rest.reverse ++ '/' :: ['.'] := by simp
    rw [slash, stepsOf_append_slash] at same
    rw [slash, namesOf_append_slash] at among
    rw [trimReversed, chars, stepsOf_append_slash, namesOf_append_slash]
    refine ⟨suffix.trans (List.suffix_cons _ _), same.trans ?_, fun name member => ?_,
      fun none => absurd (some none) (List.cons_ne_nil _ _)⟩
    · rfl
    · have before := among name member
      simp only [namesOf, parts_nil] at before
      exact List.mem_append_left _ (by simpa [namesOf] using before)
  | case3 cs slashes dots =>
    rw [trimReversed.eq_3 cs slashes dots]
    exact ⟨List.suffix_rfl, rfl, fun _ member => member, id⟩

/-- The last name on a path is split off at the last slash. -/
theorem namesOf_reverse (cs : List Char) :
    namesOf cs.reverse = namesOf (cs.dropWhile (· != '/')).reverse ++
      namesOf (cs.takeWhile (· != '/')).reverse := by
  have whole := List.takeWhile_append_dropWhile (p := (· != '/')) (l := cs)
  cases left : cs.dropWhile (· != '/') with
  | nil =>
    rw [left, List.append_nil] at whole
    rw [whole]
    rfl
  | cons c rest =>
    obtain rfl : c = '/' := by
      have stop := List.head?_dropWhile_not (· != '/') cs
      rw [left] at stop
      simpa using stop
    have chars : cs.reverse = rest.reverse ++ '/' :: (cs.takeWhile (· != '/')).reverse := by
      rw [left] at whole
      conv_lhs => rw [← whole]
      simp
    have slash : ('/' :: rest).reverse = rest.reverse ++ '/' :: [] := by simp
    rw [chars, slash, namesOf_append_slash, namesOf_append_slash, namesOf_unbroken List.not_mem_nil,
      if_pos rfl, List.append_nil]

theorem slash_notMem_takeWhile (cs : List Char) : '/' ∉ (cs.takeWhile (· != '/')).reverse := by
  intro member
  have letter := List.all_eq_true.mp List.all_takeWhile '/' (List.mem_reverse.mp member)
  simp at letter

/-- The last name of a path, where it leads further down, is its last step. -/
theorem namesOf_of_last {cs : List Char} (some : cs.takeWhile (· != '/') ≠ [])
    (further : cs.takeWhile (· != '/') ≠ ['.']) :
    namesOf cs.reverse = namesOf (cs.dropWhile (· != '/')).reverse ++
        [String.ofList (cs.takeWhile (· != '/')).reverse] ∧
      String.ofList (cs.takeWhile (· != '/')).reverse ≠ "." := by
  refine ⟨?_, fun dot => further ?_⟩
  · rw [namesOf_reverse, namesOf_unbroken (slash_notMem_takeWhile cs),
      if_neg (by simpa using some)]
  · have chars := congrArg String.toList dot
    rw [String.toList_ofList] at chars
    exact List.reverse_eq_iff.mp chars

/-- A path that ends in a name, unless it is one of the paths that lead nowhere further. -/
def Trimmed (path : String) : Prop :=
  path = "" ∨ path = "/" ∨ path = "." ∨ (names path).getLastD "." ≠ "."

/-- A trimmed path either leads nowhere further or ends in a name. -/
theorem takeWhile_trimReversed (cs : List Char) :
    trimReversed cs = [] ∨ trimReversed cs = ['/'] ∨ trimReversed cs = ['.'] ∨
      (trimReversed cs).takeWhile (· != '/') ≠ [] ∧
        (trimReversed cs).takeWhile (· != '/') ≠ ['.'] := by
  induction cs using trimReversed.induct with
  | case1 c rest ih => rwa [trimReversed]
  | case2 rest ih => rwa [trimReversed]
  | case3 cs slashes dots =>
    rw [trimReversed.eq_3 cs slashes dots]
    match cs, slashes, dots with
    | [], _, _ => exact .inl rfl
    | [c], _, _ =>
      by_cases slash : c = '/'
      · exact .inr (.inl (by rw [slash]))
      · by_cases dot : c = '.'
        · exact .inr (.inr (.inl (by rw [dot])))
        · refine .inr (.inr (.inr ?_))
          simp [slash, dot]
    | c :: d :: rest, slashes, dots =>
      have letter : c ≠ '/' := fun slash => slashes d rest (by rw [slash])
      refine .inr (.inr (.inr ⟨by simp [letter], fun only => ?_⟩))
      by_cases slash : d = '/'
      · simp only [List.takeWhile_cons, slash] at only
        refine dots rest ?_
        simp [letter] at only
        rw [only, slash]
      · simp [letter, slash] at only

/-- A path that lies directly below another one. -/
structure LiesIn (path parent : String) : Prop where
  steps : steps parent = (steps path).dropLast
  isAbsolute : isAbsolute parent = isAbsolute path
  shorter : parent.length < path.length
  start : parent.toList <+: path.toList
  names : ∀ name ∈ names parent, name ∈ names path
  trimmed : Trimmed parent

/-- A path that leads somewhere lies in its parent. -/
theorem exists_parent {path : String} (somewhere : steps path ≠ []) :
    ∃ parent, parent? path = some parent ∧ LiesIn path parent := by
  obtain ⟨suffix, same, among, _⟩ := trimReversed_spec path.toList.reverse
  have form := takeWhile_trimReversed path.toList.reverse
  generalize cut : trimReversed path.toList.reverse = cs at suffix same among form
  rw [List.reverse_reverse] at same among
  -- The paths that lead nowhere further have no steps.
  rw [steps_eq, ← same] at somewhere
  obtain ⟨some, further⟩ : cs.takeWhile (· != '/') ≠ [] ∧ cs.takeWhile (· != '/') ≠ ['.'] := by
    rcases form with rfl | rfl | rfl | last
    · exact absurd rfl somewhere
    · exact absurd rfl somewhere
    · exact absurd (by decide) somewhere
    · exact last
  obtain ⟨split, last⟩ := namesOf_of_last some further
  obtain ⟨suffix', same', among', kept⟩ := trimReversed_spec (cs.dropWhile (· != '/'))
  have form' := takeWhile_trimReversed (cs.dropWhile (· != '/'))
  generalize cut' : trimReversed (cs.dropWhile (· != '/')) = above at suffix' same' among' kept form'
  have nonempty : cs ≠ [] := by
    rintro rfl
    exact some rfl
  have named : cs ≠ ['/'] := by
    rintro rfl
    exact some rfl
  refine ⟨String.ofList above.reverse, ?_, ?_, ?_, ?_, ?_, ?_, ?_⟩
  · simp only [parent?, cut]
    rw [if_neg (not_or.mpr ⟨nonempty, named⟩), cut']
  · rw [steps_eq, steps_eq, String.toList_ofList, same', ← same, stepsOf, stepsOf, split,
      List.filter_append, List.filter_cons_of_pos (by simpa using last), List.filter_nil,
      List.dropLast_concat]
  · have first : path.toList.head? = cs.reverse.head? := by
      obtain ⟨rest, whole⟩ := List.reverse_prefix.mpr suffix
      rw [List.reverse_reverse] at whole
      rw [← whole, List.head?_append_of_ne_nil _ (by simpa using nonempty)]
    rw [Path.isAbsolute, Path.isAbsolute, String.toList_ofList, first]
    by_cases none : above = []
    · have unbroken : '/' ∉ cs.reverse := by
        have whole := List.takeWhile_append_dropWhile (p := (· != '/')) (l := cs)
        rw [kept none, List.append_nil] at whole
        exact whole ▸ slash_notMem_takeWhile cs
      rw [none, Bool.eq_iff_iff, beq_iff_eq, beq_iff_eq]
      exact iff_of_false (by simp) fun slash => unbroken (List.mem_of_mem_head? slash)
    · obtain ⟨rest, whole⟩ := List.reverse_prefix.mpr (suffix'.trans (List.dropWhile_suffix _))
      rw [← whole, List.head?_append_of_ne_nil _ (by simpa using none)]
  · have shorter : (cs.dropWhile (· != '/')).length < cs.length := by
      have whole := congrArg List.length
        (List.takeWhile_append_dropWhile (p := (· != '/')) (l := cs))
      rw [List.length_append] at whole
      have positive := List.length_pos_of_ne_nil some
      omega
    have bound := suffix.length_le
    have bound' := suffix'.length_le
    rw [List.length_reverse, String.length_toList] at bound
    rw [← String.length_toList, String.toList_ofList, List.length_reverse]
    omega
  · rw [String.toList_ofList, ← List.reverse_suffix, List.reverse_reverse]
    exact (suffix'.trans (List.dropWhile_suffix _)).trans suffix
  · rw [names_eq, names_eq, String.toList_ofList]
    exact fun name member => among name (split ▸ List.mem_append_left _ (among' name member))
  · rcases form' with rfl | rfl | rfl | ⟨some', further'⟩
    · exact .inl rfl
    · exact .inr (.inl rfl)
    · exact .inr (.inr (.inl rfl))
    · obtain ⟨split', last'⟩ := namesOf_of_last some' further'
      refine .inr (.inr (.inr ?_))
      rw [names_eq, String.toList_ofList, split', List.getLastD_concat]
      exact last'

/-- The steps of a parent are the first steps of the path. -/
theorem steps_prefix_of_parent? {path parent : String} (found : parent? path = some parent) :
    steps parent <+: steps path := by
  simp only [parent?] at found
  split at found
  · cases found
  · obtain ⟨_, same, _⟩ := trimReversed_spec path.toList.reverse
    obtain ⟨_, same', _⟩ := trimReversed_spec ((trimReversed path.toList.reverse).dropWhile (· != '/'))
    rw [List.reverse_reverse] at same
    rw [← Option.some.inj found, steps_eq, steps_eq, String.toList_ofList, same', ← same, stepsOf, stepsOf,
      namesOf_reverse (trimReversed path.toList.reverse), List.filter_append]
    exact List.prefix_append _ _

/-- The lineage of a path leads through the first steps of the path. -/
theorem steps_prefix_of_mem_go {fuel : Nat} {path other : String} (member : other ∈ lineage.go fuel path) :
    steps other <+: steps path ∧ (steps other ≠ [] → isAbsolute other = isAbsolute path) := by
  induction fuel generalizing path with
  | zero => cases member
  | succ fuel ih =>
    rw [lineage.go] at member
    split at member
    · cases member
    · rcases List.mem_cons.mp member with rfl | above
      · exact ⟨List.prefix_rfl, fun _ => rfl⟩
      · cases found : parent? path with
        | none =>
          rw [found] at above
          cases above
        | some parent =>
          rw [found] at above
          obtain ⟨front, absolute⟩ := ih above
          have whole := front.trans (steps_prefix_of_parent? found)
          refine ⟨whole, fun somewhere => ?_⟩
          have further : steps path ≠ [] := fun nowhere =>
            somewhere (List.prefix_nil.mp (nowhere ▸ whole))
          obtain ⟨parent', found', lies⟩ := exists_parent further
          obtain rfl := Option.some.inj (found.symm.trans found')
          rw [absolute somewhere, lies.isAbsolute]

theorem steps_prefix_of_mem_lineage {path other : String} (member : other ∈ lineage path) :
    steps other <+: steps path ∧ (steps other ≠ [] → isAbsolute other = isAbsolute path) :=
  steps_prefix_of_mem_go member

theorem steps_append_slash (first second : String) :
    steps (first ++ "/" ++ second) = steps first ++ steps second := by
  rw [steps, names_append_slash, List.filter_append, steps, steps]

theorem isAbsolute_append {path : String} (some : path ≠ "") (rest : String) :
    isAbsolute (path ++ rest) = isAbsolute path := by
  have chars : path.toList ≠ [] := by simpa using some
  rw [isAbsolute, isAbsolute, String.toList_append, List.head?_append_of_ne_nil _ chars]

theorem namesOf_dropWhile_slash (cs : List Char) :
    namesOf (cs.dropWhile (· == '/')).reverse = namesOf cs.reverse := by
  induction cs with
  | nil => rfl
  | cons c rest ih =>
    by_cases slash : c = '/'
    · have chars : (c :: rest).reverse = rest.reverse ++ '/' :: [] := by simp [slash]
      rw [List.dropWhile_cons_of_pos (by simp [slash]), ih, chars, namesOf_append_slash,
        namesOf_unbroken List.not_mem_nil, if_pos rfl, List.append_nil]
    · rw [List.dropWhile_cons_of_neg (by simp [slash])]

theorem steps_trimEnd (path : String) : steps (Text.trimEnd '/' path) = steps path := by
  rw [steps, names_eq, Text.trimEnd, String.toList_ofList, namesOf_dropWhile_slash, List.reverse_reverse,
    steps, names_eq]

/-- A path starts where it starts without the slashes at its end, if something follows these. -/
theorem isAbsolute_trimEnd {path : String} (some : path ≠ "") (rest : String) :
    isAbsolute (Text.trimEnd '/' path ++ "/" ++ rest) = isAbsolute path := by
  have chars : path.toList ≠ [] := by simpa using some
  have whole := List.takeWhile_append_dropWhile (p := (· == '/')) (l := path.toList.reverse)
  by_cases none : Text.trimEnd '/' path = ""
  · -- Then there are only slashes.
    have all : path.toList.reverse.dropWhile (· == '/') = [] := by
      have chars := congrArg String.toList none
      rw [Text.trimEnd, String.toList_ofList] at chars
      simpa using chars
    rw [all, List.append_nil] at whole
    obtain ⟨c, others, split⟩ := List.exists_cons_of_ne_nil chars
    have slash : c = '/' := by
      have member : c ∈ path.toList.reverse := by simp [split]
      rw [← whole] at member
      simpa using List.all_eq_true.mp List.all_takeWhile c member
    rw [none, isAbsolute, isAbsolute, split, slash]
    simp
  · rw [String.append_assoc, isAbsolute_append none, isAbsolute, isAbsolute, Text.trimEnd,
      String.toList_ofList]
    have split : path.toList = (path.toList.reverse.dropWhile (· == '/')).reverse ++
        (path.toList.reverse.takeWhile (· == '/')).reverse := by
      rw [← List.reverse_append, whole, List.reverse_reverse]
    have left : (path.toList.reverse.dropWhile (· == '/')).reverse ≠ [] := by
      intro empty
      refine none ?_
      rw [Text.trimEnd, empty]
    conv_rhs => rw [split]
    rw [List.head?_append_of_ne_nil _ left]

/-- What is added at the end of a path without a slash goes into its last name. -/
theorem exists_names_append (path : String) : ∃ front last, ∀ suffix : String, suffix ≠ "" →
    '/' ∉ suffix.toList → names (path ++ suffix) = front ++ [last ++ suffix] := by
  refine ⟨namesOf (path.toList.reverse.dropWhile (· != '/')).reverse,
    String.ofList (path.toList.reverse.takeWhile (· != '/')).reverse, fun suffix some unbroken => ?_⟩
  have letters : ∀ c ∈ suffix.toList.reverse, (c != '/') = true := by
    intro c member
    rw [bne_iff_ne]
    rintro rfl
    exact unbroken (List.mem_reverse.mp member)
  have chars : (path ++ suffix).toList.reverse = suffix.toList.reverse ++ path.toList.reverse := by simp
  have last : (suffix.toList.reverse ++ path.toList.reverse.takeWhile (· != '/')).reverse =
      (path.toList.reverse.takeWhile (· != '/')).reverse ++ suffix.toList := by simp
  have split := namesOf_reverse (path ++ suffix).toList.reverse
  rw [List.reverse_reverse, chars, List.dropWhile_append_of_pos letters,
    List.takeWhile_append_of_pos letters, last] at split
  have joined : '/' ∉ (path.toList.reverse.takeWhile (· != '/')).reverse ++ suffix.toList :=
    fun slash => (List.mem_append.mp slash).elim (slash_notMem_takeWhile _) unbroken
  rw [names_eq, split, namesOf_unbroken joined, if_neg (by simp [some]), String.ofList_append,
    String.ofList_toList]

/-- A path that can be followed downwards: within the limits on characters and names, and without double
dots. -/
structure Passable (path : String) : Prop where
  zero : path.toList.contains (Char.ofNat 0) = false
  short : path.utf8ByteSize < 4096
  names : ∀ name ∈ names path, name ≠ ".." ∧ name.utf8ByteSize ≤ 255

/-- A path that can be followed to a name at its end. -/
structure Plain (path : String) : Prop extends Passable path where
  last : (Path.names path).getLastD "." ≠ "."

instance (path : String) : Decidable (Passable path) :=
  decidable_of_iff (path.toList.contains (Char.ofNat 0) = false ∧ path.utf8ByteSize < 4096 ∧
      ∀ name ∈ Path.names path, name ≠ ".." ∧ name.utf8ByteSize ≤ 255)
    ⟨fun all => ⟨all.1, all.2.1, all.2.2⟩, fun passable => ⟨passable.zero, passable.short, passable.names⟩⟩

instance (path : String) : Decidable (Plain path) :=
  decidable_of_iff (Passable path ∧ (Path.names path).getLastD "." ≠ ".")
    ⟨fun all => ⟨all.1, all.2⟩, fun plain => ⟨plain.toPassable, plain.last⟩⟩

/-- Two paths that can be followed can be followed one after the other, if together they are not too long. -/
theorem Passable.append_slash {first second : String} (passable : Passable first)
    (passable' : Passable second) (short : first.utf8ByteSize + second.utf8ByteSize < 4095) :
    Passable (first ++ "/" ++ second) := by
  refine ⟨?_, ?_, fun name member => ?_⟩
  · have zero := passable.zero
    have zero' := passable'.zero
    simp only [String.toList_append, List.contains_eq_mem, List.mem_append,
      decide_eq_false_iff_not] at zero zero' ⊢
    rintro ((before | slash) | after)
    · exact zero before
    · exact absurd slash (by decide)
    · exact zero' after
  · have slash : "/".utf8ByteSize = 1 := by decide
    rw [String.utf8ByteSize_append, String.utf8ByteSize_append, slash]
    omega
  · rw [names_append_slash] at member
    exact (List.mem_append.mp member).elim (passable.names name) (passable'.names name)

theorem Plain.append_slash {first second : String} (passable : Passable first) (plain : Plain second)
    (short : first.utf8ByteSize + second.utf8ByteSize < 4095) : Plain (first ++ "/" ++ second) := by
  refine ⟨passable.append_slash plain.toPassable short, ?_⟩
  have some : names second ≠ [] := fun none => plain.last (by rw [none]; rfl)
  rw [names_append_slash, List.getLastD_eq_getLast?, List.getLast?_append_of_ne_nil _ some,
    ← List.getLastD_eq_getLast?]
  exact plain.last

/-- A path with a passable way on can be followed itself. -/
theorem Passable.of_start {path start : String} (passable : Passable path)
    (front : start.toList <+: path.toList) (among : ∀ name ∈ Path.names start, name ∈ Path.names path) :
    Passable start := by
  obtain ⟨rest, whole⟩ := front
  refine ⟨?_, ?_, fun name member => passable.names name (among name member)⟩
  · have zero := passable.zero
    rw [← whole] at zero
    simp only [List.contains_eq_mem, decide_eq_false_iff_not] at zero ⊢
    exact fun member => zero (List.mem_append_left _ member)
  · have split : path = start ++ String.ofList rest := by
      rw [← String.toList_inj, String.toList_append, String.toList_ofList, whole]
    have short := passable.short
    rw [split, String.utf8ByteSize_append] at short
    omega

theorem LiesIn.passable {path parent : String} (lies : LiesIn path parent) (passable : Passable path) :
    Passable parent :=
  passable.of_start lies.start lies.names

theorem Passable.of_join {path name : String} (passable : Passable (join path name)) : Passable path := by
  refine passable.of_start ?_ fun other member => ?_
  · rw [join]
    split
    · rw [String.toList_append]
      exact List.prefix_append _ _
    · rw [String.toList_append, String.toList_append, List.append_assoc]
      exact List.prefix_append _ _
  · rw [names_join]
    exact List.mem_append_left _ member

theorem Plain.trimmed {path : String} (plain : Plain path) : Trimmed path :=
  .inr (.inr (.inr plain.last))

/-- The last name of a path is its last step. -/
theorem exists_last {path : String} (last : (names path).getLastD "." ≠ ".") :
    ∃ name ≠ ".", names path = (names path).dropLast ++ [name] ∧
      steps path = ((names path).dropLast.filter (· != ".")) ++ [name] := by
  rcases List.eq_nil_or_concat (names path) with none | ⟨front, name, split⟩
  · rw [none] at last
    exact absurd rfl last
  · rw [List.concat_eq_append] at split
    rw [split, List.getLastD_concat] at last
    refine ⟨name, last, by rw [split, List.dropLast_concat], ?_⟩
    rw [steps, split, List.dropLast_concat, List.filter_append,
      List.filter_cons_of_pos (by simpa using last), List.filter_nil]

/-- A name that is joined to a path is one more step, and the path then ends in that name. -/
theorem join_spec {path : String} (some : path ≠ "") (name : String)
    (unbroken : '/' ∉ name.toList)
    (further : name ≠ "" ∧ name ≠ ".") :
    names (join path name) = names path ++ [name] ∧ steps (join path name) = steps path ++ [name] ∧
      isAbsolute (join path name) = isAbsolute path ∧ endsInSlash (join path name) = false := by
  have single : names name = [name] := by
    rw [names_eq, namesOf_unbroken unbroken, if_neg (by simpa using further.1), String.ofList_toList]
  have joined : names (join path name) = names path ++ [name] := by rw [names_join, single]
  refine ⟨joined, ?_, ?_, ?_⟩
  · rw [steps, joined, List.filter_append, List.filter_cons_of_pos (by simpa using further.2),
      List.filter_nil, ← steps]
  · have chars : path.toList ≠ [] := by simpa using some
    rw [isAbsolute, isAbsolute, join]
    split
    · rw [String.toList_append, List.head?_append_of_ne_nil _ chars]
    · rw [String.toList_append, String.toList_append, List.append_assoc,
        List.head?_append_of_ne_nil _ chars]
  · have chars : name.toList ≠ [] := by simpa using further.1
    have last : (join path name).toList.getLast? = name.toList.getLast? := by
      rw [join]
      split
      · rw [String.toList_append, List.getLast?_append_of_ne_nil _ chars]
      · rw [String.toList_append, List.getLast?_append_of_ne_nil _ chars]
    rw [endsInSlash, last, Bool.eq_false_iff, ne_eq, beq_iff_eq]
    exact fun slash => unbroken (List.mem_of_getLast? slash)

end Wavefront.Path
