import Wavefront.Proofs.Files.System
import Wavefront.Run.Simulation
set_option autoImplicit false

/-!
Outputs in a tree of files: a directory with a marker, or nothing yet. Main statements: a marker makes a
bare place complete, a commit takes what is complete to a bare place, to discard it leaves the place bare,
and none of them touches outputs at other places.
-/
namespace Wavefront.FileTree

/-- Nothing is at a place, and a directory can be made there. -/
structure Bare (t : FileTree) (p : Place) : Prop where
  vacant : t.Vacant p
  free : t.Open p

/-- A place holds a complete output. -/
structure Complete (t : FileTree) (p : Place) : Prop where
  standing : t.Standing p
  marked : t.get? (p ++ [Simulation.marker]) = some (.file "")

/-- The second tree has at a place and below it what the first has, and above it at most more
directories. -/
structure Keeps (t t' : FileTree) (p : Place) : Prop where
  within : ∀ q, p <+: q → t'.get? q = t.get? q
  above : ∀ q, q <+: p → t'.get? q = t.get? q ∨ t'.get? q = some .directory

variable {t t' : FileTree} {p : Place}

namespace Keeps

theorem trans {t'' : FileTree} (first : t.Keeps t' p) (second : t'.Keeps t'' p) : t.Keeps t'' p where
  within q below := (second.within q below).trans (first.within q below)
  above q higher := by
    rcases second.above q higher with same | directory
    · rw [same]
      exact first.above q higher
    · exact .inr directory

theorem bare (keeps : t.Keeps t' p) (bare : t.Bare p) : t'.Bare p where
  vacant q below := (keeps.within q below).trans (bare.vacant q below)
  free q higher text file := by
    rcases keeps.above q higher with same | directory
    · exact bare.free q higher text (same ▸ file)
    · rw [directory] at file
      cases file

theorem complete (keeps : t.Keeps t' p) (complete : t.Complete p) : t'.Complete p where
  standing q higher := by
    rcases keeps.above q higher with same | directory
    · rw [same]
      exact complete.standing q higher
    · exact directory
  marked := (keeps.within _ (List.prefix_append _ _)).trans complete.marked

end Keeps

variable {path : String}

theorem Paved.keeps {q : Place} (paved : t.Paved q t') (outside : ¬ p <+: q) : t.Keeps t' p where
  within r below := by
    rw [paved r, if_neg fun above => outside (below.trans above)]
  above r _ := by
    rw [paved r]
    split
    · exact .inr rfl
    · exact .inl rfl

theorem keeps_put {q : Place} {e : FileEntry} (named : q.Named) (apart : Place.Apart q p) :
    t.Keeps (t.put q e) p where
  within r below := by
    have other : r ≠ q := by
      rintro rfl
      exact apart.2 below
    rw [get?_put named, if_neg other]
  above r higher := by
    have other : r ≠ q := by
      rintro rfl
      exact apart.1 higher
    rw [get?_put named, if_neg other]
    exact .inl rfl

theorem keeps_remove {q : Place} (named : q.Named) (apart : Place.Apart q p) :
    t.Keeps (t.remove q) p where
  within r below := by
    rw [get?_remove named, if_neg (apart.symm.outside below)]
  above r higher := by
    rw [get?_remove named, if_neg fun within => apart.1 (within.trans higher)]
    exact .inl rfl

theorem keeps_move {source target : Place} (named : source.Named) (named' : target.Named)
    (vacant : t.Vacant target) (apart : Place.Apart source p) (apart' : Place.Apart target p) :
    t.Keeps (t.move source target) p where
  within r below := by
    rw [get?_move named named' vacant, if_neg (apart'.symm.outside below),
      if_neg (apart.symm.outside below)]
  above r higher := by
    rw [get?_move named named' vacant, if_neg fun within => apart'.1 (within.trans higher),
      if_neg fun within => apart.1 (within.trans higher)]
    exact .inl rfl

theorem Complete.isOk_find (plain : Path.Plain path) (complete : t.Complete (place path)) :
    (t.find path).isOk = true := by
  rw [find_standing plain complete.standing]
  rfl

theorem Bare.isOk_find (plain : Path.Plain path) (bare : t.Bare (place path)) :
    (t.find path).isOk = false := by
  rw [find_vacant plain bare.free bare.vacant]
  rfl

theorem bare_remove (named : p.Named) (standing : t.Standing p) : (t.remove p).Bare p where
  vacant q below := by rw [get?_remove named, if_pos below]
  free q higher text file := by
    rw [get?_remove named] at file
    split at file
    · cases file
    · rw [standing q higher] at file
      cases file

/-- A place that has been moved away is bare. -/
theorem bare_move {source target : Place} (named : source.Named) (named' : target.Named)
    (vacant : t.Vacant target) (standing : t.Standing source) (apart : Place.Apart source target) :
    (t.move source target).Bare source where
  vacant q below := by
    rw [get?_move named named' vacant, if_neg (apart.outside below), if_pos below]
  free q higher text file := by
    rw [get?_move named named' vacant, if_neg fun within => apart.2 (within.trans higher)] at file
    split at file
    · cases file
    · rw [standing q higher] at file
      cases file

/-- What has been moved is complete where it is now. -/
theorem complete_move {source target : Place} (named : source.Named) (named' : target.Named)
    (vacant : t.Vacant target) (standing : t.Standing target.dropLast)
    (complete : t.Complete source) (apart : Place.Apart source target) :
    (t.move source target).Complete target where
  standing q higher := by
    rw [get?_move named named' vacant]
    rcases (prefix_iff_dropLast named'.ne_nil).mp higher with rfl | above
    · rw [if_pos List.prefix_rfl, List.drop_length, List.append_nil]
      exact complete.standing source List.prefix_rfl
    · rw [if_neg fun within => not_prefix_dropLast named'.ne_nil within above,
        if_neg fun within => apart.1 (within.trans higher)]
      exact standing q above
  marked := by
    rw [get?_move named named' vacant, if_pos (List.prefix_append _ _), List.drop_left]
    exact complete.marked

section Acts

variable {m : Type → Type} [Monad m] [LawfulMonad m] {W : Type} [Stateful m W]

theorem asked_isPresent {ε : Type} (path : String) (t : FileTree) (w : W) :
    (liftM ((fileSystem : FileSystem (StateT FileTree m)).isPresent path) :
        Step (StateT FileTree m) ε Bool).act (t, w) = (.ok (t.find path).isOk, (t, w)) := by
  rw [Step.act_liftM, isPresent_act]

/-- A job that succeeds leaves its marker at a bare place. -/
theorem writeMarker_act (plain : Path.Plain path)
    (within : Path.Passable (Path.join path Simulation.marker)) (bare : t.Bare (place path)) (w : W) :
    ∃ t', (Simulation.writeMarker (fileSystem : FileSystem (StateT FileTree m)) path).act (t, w) =
        (.ok (), (t', w)) ∧ t'.Complete (place path) ∧
      ∀ p, Place.Apart (place path) p → t.Keeps t' p := by
  have some : path ≠ "" := by
    rintro rfl
    exact plain.last rfl
  obtain ⟨names, steps, absolute, ending⟩ :=
    Path.join_spec some Simulation.marker (by decide) (by decide)
  have marked : place (Path.join path Simulation.marker) = place path ++ [Simulation.marker] := by
    rw [place, place, origin, origin, absolute, steps, List.append_assoc]
  have markedPlain : Path.Plain (Path.join path Simulation.marker) :=
    ⟨within, by rw [names, List.getLastD_concat]; decide⟩
  have named := named_place within (steps_ne_nil markedPlain)
  rw [marked] at named
  obtain ⟨t₁, made, paved⟩ := createDirectories_paves (m := m) plain.toPassable plain.trimmed bare.free w
  have outside : ¬ place path ++ [Simulation.marker] <+: place path := fun higher => by
    have bound := higher.length_le
    rw [List.length_append, List.length_singleton] at bound
    omega
  have written : ((fileSystem : FileSystem (StateT FileTree m)).writeFile
      (Path.join path Simulation.marker) "").act (t₁, w) =
        (.ok (), (t₁.put (place path ++ [Simulation.marker]) (.file ""), w)) := by
    refine (change_act (fun t => t.writeFile (Path.join path Simulation.marker) "") t₁ w).trans ?_
    have missing : t₁.get? (place path ++ [Simulation.marker]) = none := by
      rw [paved _, if_neg outside]
      exact bare.vacant _ (List.prefix_append _ _)
    rw [writeFile_eq markedPlain ending (by rw [marked, List.dropLast_concat]; exact paved.standing)
      (by rw [marked, missing]; exact (Option.some_ne_none _).symm), marked]
  refine ⟨t₁.put (place path ++ [Simulation.marker]) (.file ""), ?_, ⟨fun q higher => ?_, ?_⟩,
    fun p away => ?_⟩
  · rw [Simulation.writeMarker, Step.act_adapt, Step.act_bind_ok made, written]
    rfl
  · have other : q ≠ place path ++ [Simulation.marker] := by
      rintro rfl
      exact outside higher
    rw [get?_put named, if_neg other]
    exact paved.standing q higher
  · rw [get?_put named, if_pos rfl]
  · exact (paved.keeps away.2).trans
      (keeps_put named (away.below (List.prefix_append _ _)))

/-- What is complete is committed to a bare place. -/
theorem commit_act (job : Job) (plain : Path.Plain job.staging) (plain' : Path.Plain job.destination)
    (complete : t.Complete (place job.staging)) (bare : t.Bare (place job.destination))
    (apart : Place.Apart (place job.staging) (place job.destination)) (w : W) :
    ∃ t', ((Committer.onFiles (fileSystem : FileSystem (StateT FileTree m))).commit job).act (t, w) =
        (.ok (), (t', w)) ∧ t'.Bare (place job.staging) ∧ t'.Complete (place job.destination) ∧
      ∀ p, Place.Apart (place job.staging) p → Place.Apart (place job.destination) p →
        t.Keeps t' p := by
  have named := named_place plain.toPassable (steps_ne_nil plain)
  have named' := named_place plain'.toPassable (steps_ne_nil plain')
  obtain ⟨t₁, made, paved⟩ := createParent_paves (m := m) plain' bare.free w
  have outside : ∀ {p : Place}, Place.Apart (place job.destination) p →
      ¬ p <+: (place job.destination).dropLast :=
    fun apart higher => apart.2 (higher.trans (List.dropLast_prefix _))
  have complete₁ := (paved.keeps (outside apart.symm)).complete complete
  have vacant₁ : t₁.Vacant (place job.destination) := fun q below => by
    rw [paved q, if_neg (not_prefix_dropLast named'.ne_nil below)]
    exact bare.vacant q below
  have there := asked_isPresent (m := m) (ε := CommitFault) job.staging t w
  rw [complete.isOk_find plain] at there
  have absent := asked_isPresent (m := m) (ε := CommitFault) job.destination t w
  rw [bare.isOk_find plain'] at absent
  have cleared : (Committer.clearDestination (fileSystem : FileSystem (StateT FileTree m)) job).act
      (t, w) = (.ok (), (t, w)) := by
    rw [Committer.clearDestination, Step.act_bind_ok absent]
    exact Step.act_pure _ _
  have renamed : ((fileSystem : FileSystem (StateT FileTree m)).rename job.staging
      job.destination).act (t₁, w) =
        (.ok (), (t₁.move (place job.staging) (place job.destination), w)) := by
    refine (change_act (fun t => t.rename job.staging job.destination) t₁ w).trans ?_
    rw [rename_eq plain plain' complete₁.standing paved.standing vacant₁ apart]
  refine ⟨t₁.move (place job.staging) (place job.destination), ?_,
    bare_move named named' vacant₁ complete₁.standing apart,
    complete_move named named' vacant₁ paved.standing complete₁ apart, fun p away away' => ?_⟩
  · rw [Committer.onFiles, Step.act_bind_ok there]
    refine (Step.act_bind_ok cleared).trans ((Step.act_bind_ok made).trans ?_)
    rw [Committer.explained, Step.act_adapt, renamed]
    rfl
  · exact (paved.keeps (outside away')).trans (keeps_move named named' vacant₁ away away')

/-- What is at a final destination is not replaced. -/
theorem commit_act_of_taken (job : Job) (staged : (t.find job.staging).isOk = true)
    (taken : (t.find job.destination).isOk = true) (final : job.temporary = false) (w : W) :
    ((Committer.onFiles (fileSystem : FileSystem (StateT FileTree m))).commit job).act (t, w) =
      (.error (.destinationExists job.destination), (t, w)) := by
  have there := asked_isPresent (m := m) (ε := CommitFault) job.staging t w
  rw [staged] at there
  have occupied := asked_isPresent (m := m) (ε := CommitFault) job.destination t w
  rw [taken] at occupied
  have refused : (Committer.clearDestination (fileSystem : FileSystem (StateT FileTree m)) job).act
      (t, w) = (.error (.destinationExists job.destination), (t, w)) := by
    rw [Committer.clearDestination, Step.act_bind_ok occupied]
    simp only [final, if_true, Bool.false_eq_true, if_false]
    exact Step.act_throw _ _
  rw [Committer.onFiles, Step.act_bind_ok there]
  exact Step.act_bind_error refused

/-- A temporary output that is discarded leaves its place bare. -/
theorem discard_act (job : Job) (plain : Path.Plain job.destination)
    (settled : t.Complete (place job.destination) ∨ t.Bare (place job.destination)) (w : W) :
    ∃ t', ((Committer.onFiles (fileSystem : FileSystem (StateT FileTree m))).discard job).act (t, w) =
        (.ok (), (t', w)) ∧
      (if job.temporary then t'.Bare (place job.destination) else t' = t) ∧
      ∀ p, Place.Apart (place job.destination) p → t.Keeps t' p := by
  have named := named_place plain.toPassable (steps_ne_nil plain)
  rw [Committer.onFiles]
  dsimp only
  cases temporary : job.temporary with
  | false => exact ⟨t, Step.act_pure _ _, rfl, fun _ _ => ⟨fun _ _ => rfl, fun _ _ => .inl rfl⟩⟩
  | true =>
    have asked := asked_isPresent (m := m) (ε := CommitFault) job.destination t w
    rcases settled with complete | bare
    · rw [complete.isOk_find plain] at asked
      have found := Step.act_liftM (ε := FileFault)
        ((fileSystem : FileSystem (StateT FileTree m)).isDirectory job.destination) (t, w)
      rw [isDirectory_act, hasDirectory_standing plain complete.standing] at found
      have removed : ((fileSystem : FileSystem (StateT FileTree m)).remove job.destination).act
          (t, w) = (.ok (), (t.remove (place job.destination), w)) := by
        refine (Step.act_bind_ok found).trans ?_
        refine (partialChange_act (fun t => t.removeDirectory job.destination) t w).trans ?_
        rw [removeDirectory_eq plain complete.standing]
      refine ⟨t.remove (place job.destination), ?_, bare_remove named complete.standing,
        fun p away => keeps_remove named away⟩
      refine (Step.act_bind_ok asked).trans ?_
      rw [if_pos rfl, Committer.explained, Step.act_adapt, removed]
      rfl
    · rw [bare.isOk_find plain] at asked
      exact ⟨t, (Step.act_bind_ok asked).trans (Step.act_pure _ _), bare,
        fun _ _ => ⟨fun _ _ => rfl, fun _ _ => .inl rfl⟩⟩

end Acts

end Wavefront.FileTree
