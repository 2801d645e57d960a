import Wavefront.Proofs.Files.System
set_option autoImplicit false

/-!
What the operations on a tree do along any path, double dots among its steps. Main statements: where an
operation succeeds, it changes what is found at the endpoint of its path and below, and nowhere else; and
whatever is there still lies in a directory.
-/
namespace Wavefront.FileTree

/-- The place that some steps lead to from another one. -/
def follow (p : Place) (steps : List String) : Place :=
  steps.foldl (fun p step => if step = ".." then above p else p ++ [step]) p

/-- The place that a path leads to, whatever is there. -/
def endpoint (path : String) : Place := follow (origin path) (Path.steps path)

/-- A path leads through a place where a front of its steps ends. -/
def LeadsThrough (path : String) (p : Place) : Prop :=
  ∃ front, front ≠ [] ∧ front <+: Path.steps path ∧ follow (origin path) front = p

/-- Whatever is in the tree lies in a directory. -/
def Sound (t : FileTree) : Prop :=
  ∀ (p : Place) (name : String), t.get? (p ++ [name]) ≠ none → t.get? p = some .directory

/-- The second tree has what the first has, except that things within a place may be missing. -/
structure Loses (t : FileTree) (p : Place) (t' : FileTree) : Prop where
  found : ∀ q, t'.get? q = t.get? q ∨ isWithin q p = true ∧ t'.get? q = none
  sound : t.Sound → t'.Sound

/-- The second tree has what the first has, except that some places without anything have become
directories. -/
structure Grows (t : FileTree) (among : Place → Prop) (t' : FileTree) : Prop where
  found : ∀ q, t'.get? q = t.get? q ∨ among q ∧ t.get? q = none ∧ t'.get? q = some .directory
  sound : t.Sound → t'.Sound

/-- What a path leads to has been removed: things within its endpoint are missing, and the path leads to
nothing any more. -/
structure Erases (t : FileTree) (path : String) (t' : FileTree) : Prop extends
    t.Loses (endpoint path) t' where
  gone : (t'.find path).isOk = false

/-- What was at one place is at another one instead, with all that was below it. -/
structure Moves (t : FileTree) (source target : Place) (t' : FileTree) : Prop where
  named : source.Named
  named' : target.Named
  there : t.get? source ≠ none
  found : ∀ q, t'.get? q =
    if target <+: q then t.get? (source ++ q.drop target.length)
    else if source <+: q then none else t.get? q
  sound : t'.Sound

variable {t t' : FileTree} {p q : Place} {path : String}

theorem Loses.refl (t : FileTree) (p : Place) : t.Loses p t := ⟨fun _ => .inl rfl, id⟩

theorem Grows.refl (t : FileTree) (among : Place → Prop) : t.Grows among t := ⟨fun _ => .inl rfl, id⟩

theorem Grows.mono {among among' : Place → Prop} (grows : t.Grows among t')
    (wider : ∀ q, among q → t.get? q = none → among' q) : t.Grows among' t' :=
  ⟨fun q => (grows.found q).imp_right fun made => ⟨wider q made.1 made.2.1, made.2⟩, grows.sound⟩

theorem Grows.trans {among : Place → Prop} {t'' : FileTree} (first : t.Grows among t')
    (second : t'.Grows among t'') : t.Grows among t'' := by
  refine ⟨fun q => ?_, fun sound => second.sound (first.sound sound)⟩
  rcases first.found q with same | ⟨member, none, made⟩
  · rw [← same]
    exact second.found q
  · rcases second.found q with same | ⟨_, none', _⟩
    · exact .inr ⟨member, none, same.trans made⟩
    · rw [made] at none'
      cases none'

section Walking

theorem follow_append (p : Place) (first second : List String) :
    follow p (first ++ second) = follow (follow p first) second :=
  List.foldl_append

theorem follow_eq_append (p : Place) {steps : List String} (lower : ∀ step ∈ steps, step ≠ "..") :
    follow p steps = p ++ steps := by
  induction steps generalizing p with
  | nil => exact (List.append_nil p).symm
  | cons step rest ih =>
    obtain ⟨first, others⟩ := List.forall_mem_cons.mp lower
    have next : follow p (step :: rest) = follow (p ++ [step]) rest := by
      rw [follow, List.foldl_cons, if_neg first, ← follow]
    rw [next, ih _ others, List.append_assoc, List.singleton_append]

theorem endpoint_eq_place (passable : Path.Passable path) : endpoint path = place path :=
  follow_eq_append _ fun _ member => (ordinary_of_mem_steps passable member).2

/-- A name leads a step further, unless it is a single dot. -/
theorem placeIn_ok {name : String} (found : placeIn p name = .ok q) :
    q = follow p ([name].filter (· != ".")) := by
  unfold placeIn at found
  split at found
  · rename_i dot
    rw [dot]
    exact (Except.ok.inj found).symm
  · rename_i further
    rw [List.filter_cons_of_pos (by simpa using further), List.filter_nil]
    split at found
    · rename_i up
      rw [← Except.ok.inj found, follow, List.foldl_cons, List.foldl_nil, if_pos up]
    · rename_i down
      split at found
      · cases found
      · rw [← Except.ok.inj found, follow, List.foldl_cons, List.foldl_nil, if_neg down]

/-- A walk goes from directory to directory. -/
theorem walk_ok {names : List String} (walked : t.walk p names = .ok q) :
    q = follow p (names.filter (· != ".")) ∧
      (t.get? p = some .directory → t.get? q = some .directory) := by
  induction names generalizing p with
  | nil =>
    obtain rfl := Except.ok.inj walked
    exact ⟨rfl, id⟩
  | cons name rest ih =>
    rw [walk] at walked
    cases next : placeIn p name with
    | error fault =>
      rw [next] at walked
      cases walked
    | ok r =>
      rw [next] at walked
      simp only [bind, Except.bind] at walked
      split at walked
      · rename_i directory
        obtain ⟨ends, there⟩ := ih walked
        refine ⟨?_, fun _ => there directory⟩
        rw [ends, placeIn_ok next, ← follow_append, ← List.filter_append, List.singleton_append]
      · cases walked
      · cases walked

theorem namesOn_ok {names : List String} (read : namesOn path = .ok names) : names = Path.names path := by
  unfold namesOn at read
  repeat' split at read
  all_goals cases read
  rfl

/-- The last name of a path is looked up in a directory. -/
theorem locate_ok {last : String} (located : t.locate path = .ok (p, last)) :
    t.get? p = some .directory ∧ endpoint path = follow p ([last].filter (· != ".")) ∧
      (last ≠ "." → last ∈ Path.names path) := by
  unfold locate at located
  cases read : namesOn path with
  | error fault =>
    rw [read] at located
    cases located
  | ok names =>
    obtain rfl := namesOn_ok read
    rw [read] at located
    simp only [bind, Except.bind] at located
    split at located
    · cases located
    · rename_i r walked
      obtain ⟨rfl, rfl⟩ := Prod.mk.inj (Except.ok.inj located)
      obtain ⟨ends, there⟩ := walk_ok walked
      refine ⟨there (standing_origin t path _ List.prefix_rfl), ?_, fun further => ?_⟩
      · rw [ends, ← follow_append, ← List.filter_append, endpoint, Path.steps]
        rcases List.eq_nil_or_concat (Path.names path) with none | ⟨front, name, split⟩
        · rw [none]
          rfl
        · rw [split, List.concat_eq_append, List.dropLast_concat, List.getLast?_concat, Option.getD_some]
      · cases last : (Path.names path).getLast? with
        | none =>
          rw [last] at further
          exact absurd rfl further
        | some name => exact List.mem_of_getLast? last

/-- What is found is found at the endpoint. -/
theorem find_ok {e : FileEntry} (found : t.find path = .ok (p, e)) :
    p = endpoint path ∧ t.get? p = some e := by
  unfold find at found
  cases located : t.locate path with
  | error fault =>
    rw [located] at found
    cases found
  | ok pair =>
    obtain ⟨r, last⟩ := pair
    rw [located] at found
    simp only [bind, Except.bind] at found
    cases next : placeIn r last with
    | error fault =>
      rw [next] at found
      cases found
    | ok place =>
      rw [next] at found
      simp only at found
      have ends : place = endpoint path := (placeIn_ok next).trans (locate_ok located).2.1.symm
      split at found
      · cases found
      · rename_i here
        obtain ⟨rfl, rfl⟩ := Prod.mk.inj (Except.ok.inj found)
        exact ⟨ends, here⟩
      · rename_i here
        split at found
        · cases found
        · obtain ⟨rfl, rfl⟩ := Prod.mk.inj (Except.ok.inj found)
          exact ⟨ends, here⟩

/-- A path that names a place names its endpoint, in a directory. -/
theorem namedPlace_ok {dots : FileFault} (named : t.namedPlace path dots = .ok p) :
    p = endpoint path ∧ p.Named ∧ t.get? p.dropLast = some .directory := by
  unfold namedPlace at named
  cases located : t.locate path with
  | error fault =>
    rw [located] at named
    cases named
  | ok pair =>
    obtain ⟨r, last⟩ := pair
    rw [located] at named
    simp only [bind, Except.bind] at named
    obtain ⟨directory, ends, among⟩ := locate_ok located
    split at named
    · cases named
    · rename_i ordinary
      obtain ⟨further, down⟩ := not_or.mp ordinary
      have next := placeIn_ok named
      have slash : last ≠ "/" := fun same =>
        Path.slash_notMem_of_mem_names (among further) (by rw [same]; decide)
      have whole : p = r ++ [last] := by
        rw [next, List.filter_cons_of_pos (by simpa using further), List.filter_nil, follow,
          List.foldl_cons, List.foldl_nil, if_neg down]
      refine ⟨next.trans ends.symm, ?_, ?_⟩
      · rw [whole]
        exact ⟨last, List.mem_append_right _ List.mem_cons_self, slash, down⟩
      · rw [whole, List.dropLast_concat]
        exact directory

end Walking

section Within

theorem isWithin_eq_true : isWithin q p = true ↔ p <+: q ∧ isOutside q = isOutside p := by
  rw [isWithin, Bool.and_eq_true, List.isPrefixOf_iff_prefix, beq_iff_eq]

theorem isWithin_of_prefix {r : Place} (within : isWithin q p = true) (some : q ≠ []) (below : q <+: r) :
    isWithin r p = true := by
  obtain ⟨higher, side⟩ := isWithin_eq_true.mp within
  obtain ⟨rest, rfl⟩ := below
  refine isWithin_eq_true.mpr ⟨higher.trans (List.prefix_append _ _), ?_⟩
  rw [← side, isOutside, isOutside, List.head?_append_of_ne_nil _ some]

theorem isWithin_or_isWithin {r : Place} (first : isWithin r p = true) (second : isWithin r q = true) :
    isWithin p q = true ∨ isWithin q p = true := by
  obtain ⟨above, side⟩ := isWithin_eq_true.mp first
  obtain ⟨above', side'⟩ := isWithin_eq_true.mp second
  rcases List.prefix_or_prefix_of_prefix above above' with higher | higher
  · exact .inr (isWithin_eq_true.mpr ⟨higher, side'.symm.trans side⟩)
  · exact .inl (isWithin_eq_true.mpr ⟨higher, side.symm.trans side'⟩)

instance (p : Place) : Decidable p.Named :=
  inferInstanceAs (Decidable (∃ name ∈ p, name ≠ "/" ∧ name ≠ ".."))

end Within

section Soundness

/-- Above whatever is there are directories. -/
theorem Sound.directory_above (sound : t.Sound) (there : t.get? q ≠ none) (higher : p <+: q)
    (other : p ≠ q) : t.get? p = some .directory := by
  induction q using List.reverseRecOn with
  | nil => exact absurd (List.prefix_nil.mp higher) other
  | append_singleton r name ih =>
    have here := sound r name there
    have above := (List.prefix_concat_iff.mp higher).resolve_left other
    by_cases same : p = r
    · rw [same, here]
    · exact ih (by rw [here]; exact Option.some_ne_none _) above same

theorem Sound.vacant (sound : t.Sound) (none : t.get? p = none) : t.Vacant p := by
  intro q below
  by_contra there
  by_cases same : p = q
  · exact there (same ▸ none)
  · rw [sound.directory_above there below same] at none
    cases none

theorem Sound.none_below_file {text : String} (sound : t.Sound) (file : t.get? p = some (.file text))
    (below : p <+: q) (other : q ≠ p) : t.get? q = none := by
  by_contra there
  rw [sound.directory_above there below (Ne.symm other)] at file
  cases file

theorem sound_of_entries (held : ∀ e ∈ t.entries, t.get? e.1.dropLast = some .directory) : t.Sound := by
  intro p name there
  by_cases named : Place.Named (p ++ [name])
  · obtain ⟨e, found⟩ := Option.ne_none_iff_exists'.mp there
    have directory := held _ (mem_of_get? named found)
    rwa [List.dropLast_concat] at directory
  · exact get?_of_not_named fun above => named (above.below (List.prefix_append _ _))

theorem sound_put (sound : t.Sound) (named : p.Named) (directory : t.get? p.dropLast = some .directory) :
    (t.put p .directory).Sound := by
  intro r name there
  rw [get?_put named] at there ⊢
  split
  · rfl
  · by_cases last : r ++ [name] = p
    · rw [← last, List.dropLast_concat] at directory
      exact directory
    · rw [if_neg last] at there
      exact sound r name there

theorem sound_remove (sound : t.Sound) (named : p.Named) : (t.remove p).Sound := by
  intro r name there
  rw [get?_remove named] at there ⊢
  have outside : ¬ p <+: r ++ [name] := fun within => there (if_pos within)
  rw [if_neg outside] at there
  rw [if_neg fun within => outside (within.trans (List.prefix_append _ _))]
  exact sound r name there

theorem get?_clear_any (t : FileTree) (p q : Place) :
    (t.clear p).get? q = if q.Named ∧ isBelow q p = true then none else t.get? q := by
  by_cases named : q.Named
  · rw [get?_of_named named, clear, lookup_filter (fun key => !isBelow key p), get?_of_named named]
    by_cases below : isBelow q p = true <;> simp [named, below]
  · rw [get?_of_not_named named, get?_of_not_named named, if_neg fun both => named both.1]

theorem sound_clear (sound : t.Sound) (p : Place) : (t.clear p).Sound := by
  intro r name there
  rw [get?_clear_any] at there ⊢
  have kept : ¬ (Place.Named (r ++ [name]) ∧ isBelow (r ++ [name]) p = true) :=
    fun both => there (if_pos both)
  have outside : ¬ (Place.Named r ∧ isBelow r p = true) := by
    rintro ⟨named, below⟩
    rw [isBelow, Bool.and_eq_true, bne_iff_ne] at below
    have within := isWithin_of_prefix below.2 named.ne_nil (List.prefix_append r [name])
    refine kept ⟨named.below (List.prefix_append _ _), ?_⟩
    rw [isBelow, within, Bool.and_true, bne_iff_ne]
    rintro rfl
    have bound := (isWithin_eq_true.mp below.2).1.length_le
    rw [List.length_append, List.length_singleton] at bound
    omega
  rw [if_neg kept] at there
  rw [if_neg outside]
  exact sound r name there

end Soundness

section Effects

theorem loses_remove (named : p.Named) : t.Loses p (t.remove p) := by
  refine ⟨fun q => ?_, fun sound => sound_remove sound named⟩
  rw [get?_remove named]
  by_cases within : p <+: q
  · exact .inr ⟨(isWithin_iff named).mpr within, if_pos within⟩
  · exact .inl (if_neg within)

theorem loses_clear (t : FileTree) (p : Place) : t.Loses p (t.clear p) := by
  refine ⟨fun q => ?_, fun sound => sound_clear sound p⟩
  rw [get?_clear_any]
  by_cases below : q.Named ∧ isBelow q p = true
  · refine .inr ⟨?_, if_pos below⟩
    have within := below.2
    rw [isBelow, Bool.and_eq_true] at within
    exact within.2
  · exact .inl (if_neg below)

theorem isOk_find_of_none (none : t.get? (endpoint path) = none) : (t.find path).isOk = false := by
  cases found : t.find path with
  | error fault => rfl
  | ok pair =>
    obtain ⟨same, there⟩ := find_ok found
    rw [same, none] at there
    cases there

theorem erases_remove (named : (endpoint path).Named) : t.Erases path (t.remove (endpoint path)) where
  toLoses := loses_remove named
  gone := isOk_find_of_none (by rw [get?_remove named, if_pos List.prefix_rfl])

theorem removeFile_ok (removed : t.removeFile path = .ok t') : t.Erases path t' := by
  unfold removeFile at removed
  cases named : t.namedPlace path .isADirectory with
  | error fault =>
    rw [named] at removed
    cases removed
  | ok p =>
    obtain ⟨rfl, ordinary, _⟩ := namedPlace_ok named
    rw [named] at removed
    simp only [bind, Except.bind] at removed
    repeat' split at removed
    all_goals cases removed
    exact erases_remove ordinary

theorem removeEmptyDirectory_ok (removed : t.removeEmptyDirectory path = .ok t') :
    (endpoint path).Named ∧ t' = t.remove (endpoint path) := by
  unfold removeEmptyDirectory at removed
  cases named : t.namedPlace path .invalid with
  | error fault =>
    rw [named] at removed
    cases removed
  | ok p =>
    obtain ⟨rfl, ordinary, _⟩ := namedPlace_ok named
    rw [named] at removed
    simp only [bind, Except.bind] at removed
    repeat' split at removed
    all_goals cases removed
    exact ⟨ordinary, rfl⟩

/-- A path that names nothing to remove leads to nothing. -/
theorem removeEmptyDirectory_notFound (missing : t.removeEmptyDirectory path = .error .notFound) :
    (t.find path).isOk = false := by
  unfold removeEmptyDirectory namedPlace at missing
  rw [find]
  cases located : t.locate path with
  | error fault => rfl
  | ok pair =>
    obtain ⟨r, last⟩ := pair
    rw [located] at missing
    simp only [bind, Except.bind] at missing ⊢
    cases next : placeIn r last with
    | error fault => rfl
    | ok p =>
      rw [next] at missing
      by_cases dots : last = "." ∨ last = ".."
      · rw [if_pos dots] at missing
        cases missing
      · rw [if_neg dots] at missing
        cases here : t.get? p with
        | none => simp only [here]; rfl
        | some e =>
          simp only [here] at missing
          cases e with
          | file text => cases missing
          | directory =>
            dsimp only at missing
            split at missing <;> cases missing

/-- A directory that has been removed was cleared before, and then its path led nowhere or to it. -/
theorem removeDirectory_ok (removed : t.removeDirectory path = (t', none)) : t.Erases path t' := by
  unfold removeDirectory at removed
  split at removed
  · cases removed
  · cases removed
  · rename_i p found
    obtain ⟨rfl, directory⟩ := find_ok found
    simp only at removed
    split at removed
    · rename_i t'' emptied
      obtain ⟨ordinary, rfl⟩ := removeEmptyDirectory_ok emptied
      cases removed
      rw [remove_clear]
      exact erases_remove ordinary
    · rename_i missing
      cases removed
      exact ⟨loses_clear t _, removeEmptyDirectory_notFound missing⟩
    · cases removed

/-- A directory that could not be removed may have been cleared. -/
theorem removeDirectory_error {fault : FileFault} (failed : t.removeDirectory path = (t', some fault)) :
    t.Loses (endpoint path) t' := by
  unfold removeDirectory at failed
  split at failed
  · cases failed
    exact .refl t _
  · cases failed
    exact .refl t _
  · rename_i p found
    obtain ⟨rfl, directory⟩ := find_ok found
    simp only at failed
    split at failed
    · cases failed
    · cases failed
    · cases failed
      exact loses_clear t _

/-- In a directory that is there a place without anything becomes a directory. -/
theorem makeDirectory_ok (made : t.makeDirectory path = .ok t') : t.Grows (· = endpoint path) t' := by
  unfold makeDirectory at made
  cases found : t.namedPlace path .alreadyExists with
  | error fault =>
    rw [found] at made
    cases made
  | ok p =>
    obtain ⟨rfl, named, directory⟩ := namedPlace_ok found
    rw [found] at made
    simp only [bind, Except.bind] at made
    cases here : t.get? (endpoint path) with
    | some e =>
      rw [here] at made
      cases made
    | none =>
      rw [here] at made
      cases made
      refine ⟨fun q => ?_, fun sound => sound_put sound named directory⟩
      rw [get?_put named]
      by_cases same : q = endpoint path
      · exact .inr ⟨same, same ▸ here, if_pos same⟩
      · exact .inl (if_neg same)

/-- What is moved into a directory lies in directories. -/
theorem sound_move {source target : Place} (sound : t.Sound) (apart : Place.Apart source target)
    (directory : t.get? target.dropLast = some .directory)
    (found : ∀ q, t'.get? q =
      if target <+: q then t.get? (source ++ q.drop target.length)
      else if source <+: q then none else t.get? q) : t'.Sound := by
  intro r name there
  rw [found] at there ⊢
  by_cases within : target <+: r ++ [name]
  · rw [if_pos within] at there
    rcases List.prefix_concat_iff.mp within with last | above
    · have lower : ¬ target <+: r := fun higher => by
        have bound := higher.length_le
        rw [last, List.length_append, List.length_singleton] at bound
        omega
      have other : ¬ source <+: r := fun higher =>
        apart.1 (last ▸ higher.trans (List.prefix_append r [name]))
      rw [if_neg lower, if_neg other]
      rwa [last, List.dropLast_concat] at directory
    · obtain ⟨rest, rfl⟩ := above
      rw [if_pos (List.prefix_append _ _), List.drop_left]
      rw [List.append_assoc, List.drop_left, ← List.append_assoc] at there
      exact sound _ name there
  · rw [if_neg within] at there
    have outside : ¬ source <+: r ++ [name] := fun higher => there (if_pos higher)
    rw [if_neg outside] at there
    rw [if_neg fun higher => within (higher.trans (List.prefix_append _ _)),
      if_neg fun higher => outside (higher.trans (List.prefix_append _ _))]
    exact sound r name there

/-- A directory is moved with all it holds. -/
theorem moveDirectory_ok {source target : Place} (sound : t.Sound) (named : source.Named)
    (named' : target.Named) (apart : Place.Apart source target)
    (moved : t.moveDirectory source target = .ok t') (q : Place) :
    t'.get? q = if target <+: q then t.get? (source ++ q.drop target.length)
      else if source <+: q then none else t.get? q := by
  unfold moveDirectory at moved
  split at moved
  · rename_i vacant
    cases moved
    exact get?_move named named' (sound.vacant vacant) q
  · cases moved
  · split at moved
    · cases moved
      have vacant : (t.remove target).Vacant target := fun r within => by
        rw [get?_remove named', if_pos within]
      rw [get?_move named named' vacant, get?_remove named', get?_remove named',
        if_neg (apart.outside (List.prefix_append _ _))]
      split
      · rfl
      · rfl
    · cases moved

/-- A file is moved, and takes the place of a file. -/
theorem moveFile_ok {source target : Place} {text : String} (sound : t.Sound) (named : source.Named)
    (named' : target.Named) (apart : Place.Apart source target)
    (file : t.get? source = some (.file text)) (moved : t.moveFile source target text = .ok t')
    (q : Place) :
    t'.get? q = if target <+: q then t.get? (source ++ q.drop target.length)
      else if source <+: q then none else t.get? q := by
  unfold moveFile at moved
  split at moved
  · cases moved
  · rename_i free
    cases moved
    have none_below {q : Place} (within : target <+: q) (other : q ≠ target) : t.get? q = none := by
      cases here : t.get? target with
      | none => exact sound.vacant here q within
      | some e =>
        cases e with
        | directory => exact absurd here free
        | file _ => exact sound.none_below_file here within other
    rw [get?_put named', get?_remove named]
    by_cases within : target <+: q
    · rw [if_pos within]
      by_cases same : q = target
      · rw [if_pos same, same, List.drop_length, List.append_nil, file]
      · rw [if_neg same, if_neg (apart.symm.outside within), none_below within same]
        obtain ⟨rest, rfl⟩ := within
        rw [List.drop_left]
        refine (sound.none_below_file file (List.prefix_append _ _) fun same' => same ?_).symm
        rw [List.append_right_eq_self.mp same', List.append_nil]
    · have other : q ≠ target := fun same => within (same ▸ List.prefix_rfl)
      rw [if_neg within, if_neg other]

/-- What one path names is moved to where another one names. -/
theorem rename_ok {source target : String} (sound : t.Sound)
    (apart : ¬ isWithin (endpoint target) (endpoint source) = true ∧
      ¬ isWithin (endpoint source) (endpoint target) = true)
    (renamed : t.rename source target = .ok t') :
    t.Moves (endpoint source) (endpoint target) t' := by
  unfold rename at renamed
  cases first : t.namedPlace source .busy with
  | error fault =>
    rw [first] at renamed
    cases renamed
  | ok p =>
    rw [first] at renamed
    simp only [bind, Except.bind] at renamed
    cases second : t.namedPlace target .busy with
    | error fault =>
      rw [second] at renamed
      cases renamed
    | ok q =>
      rw [second] at renamed
      obtain ⟨rfl, named, _⟩ := namedPlace_ok first
      obtain ⟨rfl, named', directory⟩ := namedPlace_ok second
      have apart : Place.Apart (endpoint source) (endpoint target) :=
        ⟨fun within => apart.1 ((isWithin_iff named).mpr within),
          fun within => apart.2 ((isWithin_iff named').mpr within)⟩
      have other : endpoint source ≠ endpoint target := fun same => apart.1 (same ▸ List.prefix_rfl)
      dsimp only at renamed
      cases here : t.get? (endpoint source) with
      | none =>
        rw [here] at renamed
        cases renamed
      | some e =>
        suffices found : ∀ q, t'.get? q = if endpoint target <+: q then
            t.get? (endpoint source ++ q.drop (endpoint target).length)
            else if endpoint source <+: q then none else t.get? q from
          ⟨named, named', here ▸ Option.some_ne_none e, found, sound_move sound apart directory found⟩
        simp only [here, if_neg other] at renamed
        cases e with
        | directory =>
          dsimp only at renamed
          split at renamed
          · cases renamed
          · split at renamed
            · cases renamed
            · exact moveDirectory_ok sound named named' apart renamed
        | file text =>
          dsimp only at renamed
          split at renamed
          · cases renamed
          · exact moveFile_ok sound named named' apart here renamed

end Effects

end Wavefront.FileTree
