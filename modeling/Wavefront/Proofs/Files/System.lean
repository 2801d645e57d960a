import Wavefront.Proofs.Files.Path
import Wavefront.Proofs.Files.Tree
import Wavefront.Proofs.Step
import Wavefront.Run.Committer
set_option autoImplicit false

/-!
Trees as a file system, on paths that can be followed downwards. Main statements: directories are made
along such a path unless a file is in the way, and nothing else changes; what a path leads to is found,
written, moved and removed at its place.
-/
namespace Wavefront.FileTree

/-- The place that a path leads to, where it can be followed downwards. -/
def place (path : String) : Place := origin path ++ Path.steps path

variable {t : FileTree} {path : String}

section Places

variable {p : Place}

theorem origin_not_named (path : String) : ¬ Place.Named (origin path) := by
  rintro ⟨name, member, slash, _⟩
  rw [origin] at member
  split at member
  · exact slash (List.mem_singleton.mp member)
  · cases member

theorem standing_origin (t : FileTree) (path : String) : t.Standing (origin path) := fun _ above =>
  get?_of_not_named fun named => origin_not_named path (named.below above)

theorem ordinary_of_mem_steps (passable : Path.Passable path) {name : String}
    (member : name ∈ Path.steps path) : name ≠ "/" ∧ name ≠ ".." := by
  have among := List.mem_of_mem_filter member
  refine ⟨fun slash => ?_, (passable.names name among).1⟩
  exact Path.slash_notMem_of_mem_names among (by rw [slash]; decide)

theorem named_place (passable : Path.Passable path) (somewhere : Path.steps path ≠ []) :
    Place.Named (place path) := by
  obtain ⟨name, member⟩ := List.exists_mem_of_ne_nil _ somewhere
  exact ⟨name, List.mem_append_right _ member, ordinary_of_mem_steps passable member⟩

theorem Standing.concat {name : String} (standing : t.Standing p)
    (here : t.get? (p ++ [name]) = some .directory) : t.Standing (p ++ [name]) := fun q above => by
  rcases List.prefix_concat_iff.mp above with rfl | higher
  · exact here
  · exact standing q higher

end Places

theorem steps_ne_nil (plain : Path.Plain path) : Path.steps path ≠ [] := by
  obtain ⟨name, _, _, split⟩ := Path.exists_last plain.last
  rw [split]
  exact List.append_ne_nil_of_right_ne_nil _ (List.cons_ne_nil _ _)

theorem dropLast_place_of_liesIn {parent : String} (plain : Path.Plain path)
    (lies : Path.LiesIn path parent) : place parent = (place path).dropLast := by
  rw [place, place, List.dropLast_append_of_ne_nil (steps_ne_nil plain), lies.steps, origin, origin,
    lies.isAbsolute]

/-- What is there is walked along, up to where something is missing. -/
theorem walk_cases {names : List String} {p : Place}
    (within : ∀ name ∈ names, name ≠ ".." ∧ name.utf8ByteSize ≤ 255) (standing : t.Standing p)
    (free : t.Open (p ++ names.filter (· != "."))) :
    (t.walk p names = .ok (p ++ names.filter (· != ".")) ∧
        t.Standing (p ++ names.filter (· != "."))) ∨
      (t.walk p names = .error .notFound ∧ ¬ t.Standing (p ++ names.filter (· != "."))) := by
  induction names generalizing p with
  | nil =>
    rw [List.filter_nil, List.append_nil]
    exact .inl ⟨rfl, standing⟩
  | cons name rest ih =>
    obtain ⟨⟨lower, short⟩, others⟩ := List.forall_mem_cons.mp within
    by_cases dot : name = "."
    · have skipped : (name :: rest).filter (· != ".") = rest.filter (· != ".") :=
        List.filter_cons_of_neg (by simp [dot])
      rw [skipped] at free ⊢
      have walked : t.walk p (name :: rest) = t.walk p rest := by
        rw [walk, placeIn, if_pos dot]
        simp only [bind, Except.bind]
        rw [standing p List.prefix_rfl]
      rw [walked]
      exact ih others standing free
    · have taken : (name :: rest).filter (· != ".") = name :: rest.filter (· != ".") :=
        List.filter_cons_of_pos (by simp [dot])
      rw [taken, List.append_cons] at free ⊢
      have next : placeIn p name = .ok (p ++ [name]) := by
        rw [placeIn, if_neg dot, if_neg lower, if_neg (Nat.not_lt.mpr short)]
      cases found : t.get? (p ++ [name]) with
      | none =>
        refine .inr ⟨?_, fun standing => ?_⟩
        · rw [walk, next]
          simp only [bind, Except.bind, found]
          rfl
        · rw [standing _ (List.prefix_append _ _)] at found
          cases found
      | some entry =>
        cases entry with
        | file text => exact absurd found (free _ (List.prefix_append _ _) text)
        | directory =>
          have walked : t.walk p (name :: rest) = t.walk (p ++ [name]) rest := by
            rw [walk, next]
            simp only [bind, Except.bind, found]
          rw [walked]
          exact ih others (standing.concat found) free

theorem namesOn_eq (passable : Path.Passable path) (some : path ≠ "") :
    namesOn path = .ok (Path.names path) := by
  rw [namesOn, if_neg (by simpa using passable.zero),
    if_neg (by simpa [String.isEmpty_iff] using some), if_neg (Nat.not_le.mpr passable.short)]

/-- The place of a path is looked up in the directory above it. -/
theorem locate_cases (plain : Path.Plain path) (free : t.Open (place path).dropLast) :
    ∃ name, name ≠ "." ∧ placeIn (place path).dropLast name = .ok (place path) ∧ name ≠ ".." ∧
      ((t.locate path = .ok ((place path).dropLast, name) ∧ t.Standing (place path).dropLast) ∨
        (t.locate path = .error .notFound ∧ ¬ t.Standing (place path).dropLast)) := by
  obtain ⟨name, further, split, steps⟩ := Path.exists_last plain.last
  have member : name ∈ Path.names path := by
    rw [split]
    exact List.mem_append_right _ List.mem_cons_self
  have some : path ≠ "" := by
    rintro rfl
    cases member
  have above : (place path).dropLast =
      origin path ++ (Path.names path).dropLast.filter (· != ".") := by
    rw [place, steps, ← List.append_assoc, List.dropLast_concat]
  have last : (Path.names path).getLast?.getD "." = name := by
    rw [split, List.getLast?_concat, Option.getD_some]
  obtain ⟨lower, short⟩ := plain.names name member
  refine ⟨name, further, ?_, lower, ?_⟩
  · rw [placeIn, if_neg further, if_neg lower, if_neg (Nat.not_lt.mpr short), above, place, steps,
      List.append_assoc]
  · rw [above] at free ⊢
    rcases walk_cases (fun name member => plain.names name (List.dropLast_subset _ member))
      (standing_origin t path) free with ⟨walked, standing⟩ | ⟨lost, missing⟩
    · refine .inl ⟨?_, standing⟩
      rw [locate, namesOn_eq plain.toPassable some]
      simp only [bind, Except.bind, walked, last]
      rfl
    · refine .inr ⟨?_, missing⟩
      rw [locate, namesOn_eq plain.toPassable some]
      simp only [bind, Except.bind, lost]

/-- A path names its place if the directory above the place is there. -/
theorem namedPlace_cases (plain : Path.Plain path) (free : t.Open (place path).dropLast)
    (dots : FileFault) :
    (t.namedPlace path dots = .ok (place path) ∧ t.Standing (place path).dropLast) ∨
      (t.namedPlace path dots = .error .notFound ∧ ¬ t.Standing (place path).dropLast) := by
  obtain ⟨name, further, next, lower, ⟨found, standing⟩ | ⟨lost, missing⟩⟩ := locate_cases plain free
  · refine .inl ⟨?_, standing⟩
    rw [namedPlace, found]
    simp only [bind, Except.bind]
    rw [if_neg (not_or.mpr ⟨further, lower⟩)]
    exact next
  · refine .inr ⟨?_, missing⟩
    rw [namedPlace, lost]
    rfl

theorem namedPlace_eq (plain : Path.Plain path) (standing : t.Standing (place path).dropLast)
    (dots : FileFault) : t.namedPlace path dots = .ok (place path) := by
  rcases namedPlace_cases plain standing.free dots with ⟨named, _⟩ | ⟨_, missing⟩
  · exact named
  · exact absurd standing missing

theorem find_standing (plain : Path.Plain path) (standing : t.Standing (place path)) :
    t.find path = .ok (place path, .directory) := by
  have above := standing.above (List.dropLast_prefix _)
  obtain ⟨name, _, next, _, ⟨found, _⟩ | ⟨_, missing⟩⟩ := locate_cases plain above.free
  · rw [find, found]
    simp only [bind, Except.bind, next]
    rw [standing _ List.prefix_rfl]
    rfl
  · exact absurd above missing

theorem find_vacant (plain : Path.Plain path) (free : t.Open (place path))
    (vacant : t.Vacant (place path)) : t.find path = .error .notFound := by
  obtain ⟨name, _, next, _, ⟨found, _⟩ | ⟨lost, _⟩⟩ :=
    locate_cases plain (free.above (List.dropLast_prefix _))
  · rw [find, found]
    simp only [bind, Except.bind, next]
    rw [vacant _ List.prefix_rfl]
    rfl
  · rw [find, lost]
    rfl

theorem not_prefix_dropLast {p q : Place} (some : p ≠ []) (within : p <+: q) : ¬ q <+: p.dropLast := by
  intro above
  have bound := (within.trans above).length_le
  rw [List.length_dropLast] at bound
  have positive := List.length_pos_of_ne_nil some
  omega

theorem prefix_iff_dropLast {p q : Place} (some : p ≠ []) : q <+: p ↔ q = p ∨ q <+: p.dropLast := by
  conv_lhs => rw [← List.dropLast_append_getLast some]
  rw [List.prefix_concat_iff, List.dropLast_append_getLast some]

theorem makeDirectory_vacant (plain : Path.Plain path) (standing : t.Standing (place path).dropLast)
    (none : t.get? (place path) = none) :
    t.makeDirectory path = .ok (t.put (place path) .directory) := by
  rw [makeDirectory, namedPlace_eq plain standing]
  simp only [bind, Except.bind]
  rw [none]
  rfl

theorem makeDirectory_standing (plain : Path.Plain path) (standing : t.Standing (place path)) :
    t.makeDirectory path = .error .alreadyExists := by
  rw [makeDirectory, namedPlace_eq plain (standing.above (List.dropLast_prefix _))]
  simp only [bind, Except.bind]
  rw [standing _ List.prefix_rfl]
  rfl

theorem makeDirectory_missing (plain : Path.Plain path) (free : t.Open (place path))
    (missing : ¬ t.Standing (place path).dropLast) : t.makeDirectory path = .error .notFound := by
  rcases namedPlace_cases plain (free.above (List.dropLast_prefix _)) .alreadyExists with
    ⟨_, standing⟩ | ⟨lost, _⟩
  · exact absurd standing missing
  · rw [makeDirectory, lost]
    rfl

theorem hasDirectory_standing (plain : Path.Plain path) (standing : t.Standing (place path)) :
    t.hasDirectory path = true := by
  rw [hasDirectory, find_standing plain standing]

theorem hasDirectory_missing (plain : Path.Plain path) (free : t.Open (place path))
    (missing : ¬ t.Standing (place path).dropLast) : t.hasDirectory path = false := by
  obtain ⟨name, _, _, _, ⟨_, standing⟩ | ⟨lost, _⟩⟩ :=
    locate_cases plain (free.above (List.dropLast_prefix _))
  · exact absurd standing missing
  · rw [hasDirectory, find, lost]
    rfl

/-- A file is written where no directory is, in a directory that is there. -/
theorem writeFile_eq (plain : Path.Plain path) (ending : Path.endsInSlash path = false)
    (standing : t.Standing (place path).dropLast) (free : t.get? (place path) ≠ some .directory)
    (text : String) : t.writeFile path text = .ok (t.put (place path) (.file text)) := by
  rw [writeFile, namedPlace_eq plain standing]
  simp only [bind, Except.bind, ending]
  cases found : t.get? (place path) with
  | none => rfl
  | some entry =>
    cases entry with
    | directory => exact absurd found free
    | file _ => rfl

/-- A directory is moved to a vacant place in a directory that is there. -/
theorem rename_eq {target : String} (plain : Path.Plain path) (plain' : Path.Plain target)
    (standing : t.Standing (place path)) (standing' : t.Standing (place target).dropLast)
    (vacant : t.Vacant (place target)) (apart : Place.Apart (place path) (place target)) :
    t.rename path target = .ok (t.move (place path) (place target)) := by
  have named := named_place plain.toPassable (steps_ne_nil plain)
  have named' := named_place plain'.toPassable (steps_ne_nil plain')
  have inside : isBelow (place target) (place path) = false := by
    rw [Bool.eq_false_iff, ne_eq, isBelow_iff named]
    exact fun below => apart.1 below.1
  have around : isBelow (place path) (place target) = false := by
    rw [Bool.eq_false_iff, ne_eq, isBelow_iff named']
    exact fun below => apart.2 below.1
  have other : place path ≠ place target := fun same => apart.1 (same ▸ List.prefix_rfl)
  rw [rename, namedPlace_eq plain (standing.above (List.dropLast_prefix _))]
  simp only [bind, Except.bind]
  rw [namedPlace_eq plain' standing']
  dsimp only
  rw [standing _ List.prefix_rfl]
  simp only [inside, around, Bool.false_eq_true, if_false, if_neg other, moveDirectory,
    vacant _ List.prefix_rfl]

/-- A directory is removed with all it holds. -/
theorem removeDirectory_eq (plain : Path.Plain path) (standing : t.Standing (place path)) :
    t.removeDirectory path = (t.remove (place path), none) := by
  have named := named_place plain.toPassable (steps_ne_nil plain)
  have kept : (t.clear (place path)).Standing (place path) := fun q above => by
    rw [get?_clear named, if_neg (fun below => below.2 (below.1.eq_of_length_le above.length_le).symm)]
    exact standing q above
  have removed : (t.clear (place path)).removeEmptyDirectory path = .ok (t.remove (place path)) := by
    rw [removeEmptyDirectory, namedPlace_eq plain (kept.above (List.dropLast_prefix _))]
    simp only [bind, Except.bind]
    rw [kept _ List.prefix_rfl]
    simp only [isEmptyAt_clear, remove_clear, if_true]
    rfl
  rw [removeDirectory, find_standing plain standing]
  simp only [removed]

/-- The second tree has directories along a place, and is otherwise as the first. -/
def Paved (t : FileTree) (p : Place) (t' : FileTree) : Prop :=
  ∀ q, t'.get? q = if q <+: p then some .directory else t.get? q

namespace Paved

variable {p : Place} {t' : FileTree}

theorem standing (paved : t.Paved p t') : t'.Standing p := fun q above => by rw [paved q, if_pos above]

theorem of_standing (standing : t.Standing p) : t.Paved p t := fun q => by
  by_cases above : q <+: p
  · rw [if_pos above, standing q above]
  · rw [if_neg above]

/-- The last step of a way is made in the directory before it. -/
theorem of_put (named : p.Named) (standing : t.Standing p.dropLast) :
    t.Paved p (t.put p .directory) := fun q => by
  rw [get?_put named]
  by_cases last : q = p
  · rw [if_pos last, if_pos (last ▸ List.prefix_rfl)]
  · rw [if_neg last]
    by_cases above : q <+: p
    · rw [if_pos above]
      exact standing q (((prefix_iff_dropLast named.ne_nil).mp above).resolve_left last)
    · rw [if_neg above]

theorem trans {p' : Place} {t'' : FileTree} (paved : t.Paved p t') (further : t'.Paved p' t'')
    (above : p <+: p') : t.Paved p' t'' := fun q => by
  rw [further q]
  by_cases here : q <+: p'
  · rw [if_pos here, if_pos here]
  · rw [if_neg here, if_neg here, paved q, if_neg fun higher => here (higher.trans above)]

theorem free {p' : Place} (paved : t.Paved p t') (free : t.Open p') : t'.Open p' :=
  fun q above text file => by
    rw [paved q] at file
    split at file
    · cases file
    · exact free q above text file

end Paved

section Acts

variable {m : Type → Type} [Monad m] {W : Type} [Stateful m W]

theorem change_act (f : FileTree → Except FileFault FileTree) (t : FileTree) (w : W) :
    (change f : Step (StateT FileTree m) FileFault Unit).act (t, w) =
      match f t with
      | .ok t' => (.ok (), (t', w))
      | .error fault => (.error fault, (t, w)) := by
  rw [change, Step.act, ExceptT.run_mk, StateT.act_eq]
  simp only [StateT.run]
  cases f t <;> simp only [Stateful.act_pure]

theorem partialChange_act (f : FileTree → FileTree × Option FileFault) (t : FileTree) (w : W) :
    (partialChange f : Step (StateT FileTree m) FileFault Unit).act (t, w) =
      match f t with
      | (t', none) => (.ok (), (t', w))
      | (t', some fault) => (.error fault, (t', w)) := by
  rw [partialChange, Step.act, ExceptT.run_mk, StateT.act_eq]
  simp only [StateT.run]
  rcases f t with ⟨t', _ | fault⟩ <;> simp only [Stateful.act_pure]

theorem isPresent_act (path : String) (t : FileTree) (w : W) :
    Stateful.act ((fileSystem : FileSystem (StateT FileTree m)).isPresent path) (t, w) =
      ((t.find path).isOk, (t, w)) :=
  act_reads (fun t : FileTree => (t.find path).isOk) t w

theorem isDirectory_act (path : String) (t : FileTree) (w : W) :
    Stateful.act ((fileSystem : FileSystem (StateT FileTree m)).isDirectory path) (t, w) =
      (t.hasDirectory path, (t, w)) :=
  act_reads (fun t : FileTree => t.hasDirectory path) t w

variable [LawfulMonad m]

/-- A directory is made, or it is there. -/
theorem ensureDirectory_act (path : String) (t : FileTree) (w : W) :
    ((fileSystem : FileSystem (StateT FileTree m)).ensureDirectory path).act (t, w) =
      match t.makeDirectory path with
      | .ok t' => (.ok (), (t', w))
      | .error fault => (if t.hasDirectory path then .ok () else .error fault, (t, w)) := by
  have made : ((fileSystem : FileSystem (StateT FileTree m)).makeDirectory path).act (t, w) = _ :=
    change_act (fun t => t.makeDirectory path) t w
  rw [FileSystem.ensureDirectory, Step.act_tryCatch, made]
  cases t.makeDirectory path with
  | ok t' => rfl
  | error fault =>
    have asked := Step.act_liftM (ε := FileFault)
      ((fileSystem : FileSystem (StateT FileTree m)).isDirectory path) (t, w)
    rw [isDirectory_act] at asked
    refine (Step.act_bind_ok asked).trans ?_
    cases t.hasDirectory path
    · exact Step.act_throw fault _
    · exact Step.act_pure _ _

/-- In a directory that is there a directory is made, unless it is there too. -/
theorem ensureDirectory_paves (plain : Path.Plain path) (free : t.Open (place path))
    (standing : t.Standing (place path).dropLast) (w : W) :
    ∃ t', ((fileSystem : FileSystem (StateT FileTree m)).ensureDirectory path).act (t, w) =
      (.ok (), (t', w)) ∧ t.Paved (place path) t' := by
  have named := named_place plain.toPassable (steps_ne_nil plain)
  rw [ensureDirectory_act]
  cases found : t.get? (place path) with
  | none =>
    rw [makeDirectory_vacant plain standing found]
    exact ⟨_, rfl, .of_put named standing⟩
  | some entry =>
    cases entry with
    | file text => exact absurd found (free _ List.prefix_rfl text)
    | directory =>
      have whole : t.Standing (place path) := fun q above => by
        rcases (prefix_iff_dropLast named.ne_nil).mp above with rfl | higher
        · exact found
        · exact standing q higher
      rw [makeDirectory_standing plain whole]
      simp only [hasDirectory_standing plain whole, if_true]
      exact ⟨t, rfl, .of_standing whole⟩

/-- All directories on a way are made that no file stands in. -/
theorem ensureLineage_paves {fuel : Nat} (enough : path.length < fuel)
    (passable : Path.Passable path) (trimmed : Path.Trimmed path) (free : t.Open (place path)) (w : W) :
    ∃ t', ((fileSystem : FileSystem (StateT FileTree m)).ensureLineage
        (Path.lineage.go fuel path)).act (t, w) = (.ok (), (t', w)) ∧ t.Paved (place path) t' := by
  -- The parent of a path is shorter, so the fuel lasts up to where the path starts.
  induction fuel generalizing path t with
  | zero => exact absurd enough (Nat.not_lt_zero _)
  | succ fuel ih =>
    have nowhere (ensured : ((fileSystem : FileSystem (StateT FileTree m)).ensureDirectory path).act
        (t, w) = (.ok (), (t, w))) (above : List String) :
        ((fileSystem : FileSystem (StateT FileTree m)).ensureLineage (path :: above)).act (t, w) =
          (.ok (), (t, w)) := by
      rw [FileSystem.ensureLineage, Step.act_tryCatch, ensured]
    rcases trimmed with rfl | rfl | rfl | last
    · exact ⟨t, Step.act_pure _ _, .of_standing (standing_origin t "")⟩
    · exact ⟨t, nowhere (by rw [ensureDirectory_act]; rfl) _, .of_standing (standing_origin t "/")⟩
    · exact ⟨t, nowhere (by rw [ensureDirectory_act]; rfl) _, .of_standing (standing_origin t ".")⟩
    · have plain : Path.Plain path := ⟨passable, last⟩
      obtain ⟨parent, found, lies⟩ := Path.exists_parent (steps_ne_nil plain)
      have above := dropLast_place_of_liesIn plain lies
      have some : ¬ path.isEmpty = true := by
        rw [String.isEmpty_iff]
        rintro rfl
        exact absurd rfl last
      have opened : Path.lineage.go (fuel + 1) path = path :: Path.lineage.go fuel parent := by
        rw [Path.lineage.go, if_neg some, found]
      rw [opened, FileSystem.ensureLineage, Step.act_tryCatch]
      by_cases standing : t.Standing (place path).dropLast
      · obtain ⟨t', made, paved⟩ := ensureDirectory_paves (m := m) plain free standing w
        exact ⟨t', by rw [made], paved⟩
      · have missed : ((fileSystem : FileSystem (StateT FileTree m)).ensureDirectory path).act (t, w) =
            (.error .notFound, (t, w)) := by
          rw [ensureDirectory_act, makeDirectory_missing plain free standing]
          simp only [hasDirectory_missing plain free standing, Bool.false_eq_true, if_false]
        have shorter := lies.shorter
        obtain ⟨t₁, made, paved⟩ := ih (by omega) (lies.passable passable) lies.trimmed
          (free.above (above ▸ List.dropLast_prefix _))
        rw [above] at paved
        obtain ⟨t', made', paved'⟩ := ensureDirectory_paves (m := m) plain (paved.free free)
          paved.standing w
        refine ⟨t', ?_, paved.trans paved' (List.dropLast_prefix _)⟩
        rw [missed]
        exact (Step.act_bind_ok made).trans made'

theorem createDirectories_paves (passable : Path.Passable path) (trimmed : Path.Trimmed path)
    (free : t.Open (place path)) (w : W) :
    ∃ t', ((fileSystem : FileSystem (StateT FileTree m)).createDirectories path).act (t, w) =
      (.ok (), (t', w)) ∧ t.Paved (place path) t' :=
  ensureLineage_paves (Nat.lt_succ_self _) passable trimmed free w

/-- The directory that a path lies in is made. -/
theorem createParent_paves (plain : Path.Plain path) (free : t.Open (place path)) (w : W) :
    ∃ t', (Committer.createParent (fileSystem : FileSystem (StateT FileTree m)) path).act (t, w) =
      (.ok (), (t', w)) ∧ t.Paved (place path).dropLast t' := by
  obtain ⟨parent, found, lies⟩ := Path.exists_parent (steps_ne_nil plain)
  rw [← dropLast_place_of_liesIn plain lies]
  obtain ⟨t', made, paved⟩ := createDirectories_paves (m := m) (lies.passable plain.toPassable)
    lies.trimmed (free.above (dropLast_place_of_liesIn plain lies ▸ List.dropLast_prefix _)) w
  refine ⟨t', ?_, paved⟩
  rw [Committer.createParent, found]
  show (Committer.explained _ _).act _ = _
  rw [Committer.explained, Step.act_adapt, made]
  rfl

end Acts

end Wavefront.FileTree
