import Wavefront.Proofs.Files.Effect
set_option autoImplicit false

/-!
What commits keep safe. Files follow a tree where moves and new directories are made as in the tree or not
at all, while a removal that fails may have taken any part of what it was to remove. Main statement: a
commit that succeeds moves what was staged, one that fails leaves it as it was, and neither touches
anything else than a stale temporary output and missing directories on the way to the destination; what is
discarded is at most a temporary output, and after a success it is gone.
-/
namespace Wavefront

open FileTree (endpoint isWithin LeadsThrough)

namespace FileSystem

variable {m : Type → Type} [Monad m] {W : Type} [Stateful m W]

/-- An operation that changes the tree of a world as it should or leaves it alone. -/
structure Atomic (view : W → FileTree) (op : Step m FileFault Unit)
    (change : FileTree → Except FileFault FileTree) : Prop where
  done : ∀ w w', op.act w = (.ok (), w') → change (view w) = .ok (view w')
  failed : ∀ w w' fault, op.act w = (.error fault, w') → view w' = view w

/-- A removal that may stop halfway. -/
structure Removal (view : W → FileTree) (op : Step m FileFault Unit) (path : String)
    (removed : FileTree → FileTree → Prop) : Prop where
  done : ∀ w w', op.act w = (.ok (), w') → removed (view w) (view w')
  failed : ∀ w w' fault, op.act w = (.error fault, w') → (view w).Loses (endpoint path) (view w')

/-- The files of a world are those of a tree. Whether something is at a path is told exactly; of the answers
about directories nothing is asked but that they change nothing. -/
structure Follows (fs : FileSystem m) (view : W → FileTree) : Prop where
  isPresent : ∀ path w, (Stateful.act (fs.isPresent path) w).1 = ((view w).find path).isOk ∧
    view (Stateful.act (fs.isPresent path) w).2 = view w
  isDirectory : ∀ path w, view (Stateful.act (fs.isDirectory path) w).2 = view w
  makeDirectory : ∀ path, Atomic view (fs.makeDirectory path) fun t => t.makeDirectory path
  rename : ∀ source target, Atomic view (fs.rename source target) fun t => t.rename source target
  removeFile : ∀ path, Removal view (fs.removeFile path) path fun t t' => t.removeFile path = .ok t'
  removeDirectory : ∀ path,
    Removal view (fs.removeDirectory path) path fun t t' => t.removeDirectory path = (t', none)

end FileSystem

/-- The staging output and the destination of a job do not lie in each other, and the way to the
destination does not lead through the staging output, where it would make directories. -/
structure Job.Separate (job : Job) : Prop where
  inside : isWithin (endpoint job.destination) (endpoint job.staging) = false
  around : isWithin (endpoint job.staging) (endpoint job.destination) = false
  through : ∀ p, LeadsThrough job.destination p → isWithin p (endpoint job.staging) = false

namespace FileTree

/-- What a commit makes of a tree. -/
structure Commits (t : FileTree) (job : Job) (answer : Except CommitFault Unit) (t' : FileTree) :
    Prop where
  /-- All that was staged is at the destination, and nothing else is; nothing is staged any more. -/
  moved : answer = .ok () → t.get? (endpoint job.staging) ≠ none ∧
    (∀ rest, t'.get? (endpoint job.destination ++ rest) = t.get? (endpoint job.staging ++ rest)) ∧
    ∀ rest, t'.get? (endpoint job.staging ++ rest) = none
  kept : ∀ fault, answer = .error fault →
    ∀ q, isWithin q (endpoint job.staging) = true → t'.get? q = t.get? q
  guarded : job.temporary = false → (t.find job.destination).isOk = true →
    t' = t ∧ ∃ fault, answer = .error fault
  /-- Without a success a final output costs nothing at all. -/
  grown : job.temporary = false → ∀ fault, answer = .error fault →
    t.Grows (LeadsThrough job.destination) t'
  framed : ∀ q, isWithin q (endpoint job.staging) = false →
    isWithin q (endpoint job.destination) = false → t'.get? q = t.get? q ∨
      LeadsThrough job.destination q ∧ t.get? q = none ∧ t'.get? q = some .directory
  sound : t'.Sound

/-- What discarding an output makes of a tree. -/
structure Discards (t : FileTree) (job : Job) (answer : Except CommitFault Unit) (t' : FileTree) :
    Prop where
  idle : job.temporary = false → t' = t ∧ answer = .ok ()
  loses : t.Loses (endpoint job.destination) t'
  gone : job.temporary = true → answer = .ok () → (t'.find job.destination).isOk = false

end FileTree

/-- The directories above a destination are on the way to it. -/
theorem FileTree.leadsThrough_of_lineage {path parent other : String}
    (found : Path.parent? path = some parent) (member : other ∈ Path.lineage parent)
    (named : (endpoint other).Named) : LeadsThrough path (endpoint other) := by
  obtain ⟨front, absolute⟩ := Path.steps_prefix_of_mem_lineage member
  have somewhere : Path.steps other ≠ [] := by
    intro nowhere
    rw [endpoint, nowhere] at named
    exact origin_not_named other named
  have further : Path.steps path ≠ [] := by
    intro nowhere
    have above := Path.steps_prefix_of_parent? found
    rw [nowhere, List.prefix_nil] at above
    rw [above, List.prefix_nil] at front
    exact somewhere front
  obtain ⟨parent', found', lies⟩ := Path.exists_parent further
  obtain rfl := Option.some.inj (found.symm.trans found')
  refine ⟨Path.steps other, somewhere, front.trans (Path.steps_prefix_of_parent? found), ?_⟩
  rw [endpoint, origin, origin, absolute somewhere, lies.isAbsolute]

namespace FileTree

/-- A tree in which a job can be moved to its destination: what is staged is as it was, and beyond the
destination at most the way to it is new. -/
structure Readies (t : FileTree) (job : Job) (t' : FileTree) : Prop where
  staged : ∀ q, isWithin q (endpoint job.staging) = true → t'.get? q = t.get? q
  around : ∀ q, isWithin q (endpoint job.destination) = false → t'.get? q = t.get? q ∨
    LeadsThrough job.destination q ∧ t.get? q = none ∧ t'.get? q = some .directory
  sound : t'.Sound

variable {t t₁ t' t'' : FileTree} {job : Job}

/-- Neither clearing the destination nor making the way to it reaches what is staged. -/
theorem readies (separate : job.Separate) (sound : t.Sound) (loses : t.Loses (endpoint job.destination) t₁)
    (grows : t₁.Grows (LeadsThrough job.destination) t') : t.Readies job t' where
  staged q within := by
    rcases grows.found q with same | ⟨through, _⟩
    · rcases loses.found q with same' | ⟨lost, _⟩
      · rw [same, same']
      · rcases isWithin_or_isWithin within lost with inside | inside
        · rw [separate.around] at inside
          cases inside
        · rw [separate.inside] at inside
          cases inside
    · rw [separate.through q through] at within
      cases within
  around q outside := by
    rcases loses.found q with same | ⟨lost, _⟩
    · rw [← same]
      exact grows.found q
    · rw [outside] at lost
      cases lost
  sound := grows.sound (loses.sound sound)

/-- A commit that ends before the move. -/
theorem Readies.commits_error (readies : t.Readies job t') {fault : CommitFault}
    (guarded : job.temporary = false → (t.find job.destination).isOk = true → t' = t)
    (grown : job.temporary = false → t.Grows (LeadsThrough job.destination) t') :
    t.Commits job (.error fault) t' where
  moved success := by cases success
  kept _ _ := readies.staged
  guarded last occupied := ⟨guarded last occupied, fault, rfl⟩
  grown last _ _ := grown last
  framed q _ := readies.around q
  sound := readies.sound

/-- A commit that makes the move. -/
theorem Readies.commits_ok (readies : t.Readies job t') (separate : job.Separate)
    (renamed : t'.rename job.staging job.destination = .ok t'')
    (free : job.temporary = false → (t.find job.destination).isOk = false) :
    t.Commits job (.ok ()) t'' := by
  have apart := And.intro (Bool.eq_false_iff.mp separate.inside) (Bool.eq_false_iff.mp separate.around)
  have moves := rename_ok readies.sound apart renamed
  have within (rest : Place) : isWithin (endpoint job.staging ++ rest) (endpoint job.staging) = true :=
    (isWithin_iff moves.named).mpr (List.prefix_append _ _)
  have outside (rest : Place) : ¬ endpoint job.destination <+: endpoint job.staging ++ rest := by
    intro below
    have other := (isWithin_iff moves.named').mpr below
    exact (isWithin_or_isWithin (within rest) other).elim apart.2 apart.1
  exact {
    moved := fun _ => by
      refine ⟨?_, fun rest => ?_, fun rest => ?_⟩
      · have there := readies.staged _ (within [])
        rw [List.append_nil] at there
        rw [← there]
        exact moves.there
      · rw [moves.found, if_pos (List.prefix_append _ _), List.drop_left, readies.staged _ (within rest)]
      · rw [moves.found, if_neg (outside rest), if_pos (List.prefix_append _ _)]
    kept := fun _ failed => by cases failed
    guarded := fun last occupied => by
      rw [free last] at occupied
      cases occupied
    grown := fun _ _ failed => by cases failed
    framed := fun q out out' => by
      have unmoved : ¬ endpoint job.staging <+: q := by
        rw [← isWithin_iff moves.named, out]
        exact Bool.false_ne_true
      have untaken : ¬ endpoint job.destination <+: q := by
        rw [← isWithin_iff moves.named', out']
        exact Bool.false_ne_true
      rw [moves.found, if_neg untaken, if_neg unmoved]
      exact readies.around q out'
    sound := moves.sound }

end FileTree

namespace FileSystem

variable {m : Type → Type} [Monad m] {W : Type} [Stateful m W] {ε α β : Type}

/-- Whatever a step answers, at most it has made directories in some places. -/
def Builds (view : W → FileTree) (among : Place → Prop) (x : Step m ε α) : Prop :=
  ∀ w, (view w).Grows among (view (x.act w).2)

variable {view : W → FileTree} {among : Place → Prop}

theorem Builds.bind {x : Step m ε α} {f : α → Step m ε β} (first : Builds view among x)
    (second : ∀ a, Builds view among (f a)) : Builds view among (x >>= f) := by
  intro w
  have start := first w
  rw [Step.act_bind]
  rcases taken : x.act w with ⟨e | a, w'⟩
  · rwa [taken] at start
  · rw [taken] at start
    exact start.trans (second a w')

theorem Builds.tryCatch {x : Step m ε α} {handle : ε → Step m ε α} (first : Builds view among x)
    (second : ∀ e, Builds view among (handle e)) : Builds view among (tryCatch x handle) := by
  intro w
  have start := first w
  rw [Step.act_tryCatch]
  rcases taken : x.act w with ⟨e | a, w'⟩
  · rw [taken] at start
    exact start.trans (second e w')
  · rwa [taken] at start

theorem builds_pure (a : α) : Builds view among (pure a : Step m ε α) := fun w => by
  rw [Step.act_pure]
  exact .refl _ _

theorem builds_throw (e : ε) : Builds view among (throw e : Step m ε α) := fun w => by
  rw [Step.act_throw]
  exact .refl _ _

/-- A directory is made at its endpoint or nowhere. -/
theorem Atomic.builds {op : Step m FileFault Unit} {path : String}
    (atomic : Atomic view op fun t => t.makeDirectory path)
    (allowed : (endpoint path).Named → among (endpoint path)) : Builds view among op := by
  intro w
  rcases taken : op.act w with ⟨fault | ⟨⟩, w'⟩
  · rw [atomic.failed w w' fault taken]
    exact .refl _ _
  · refine (FileTree.makeDirectory_ok (atomic.done w w' taken)).mono ?_
    rintro _ rfl none
    refine allowed ?_
    by_contra given
    rw [FileTree.get?_of_not_named given] at none
    cases none

/-- Whatever a removal answers, it has taken at most what it was to remove. -/
theorem Removal.loses {op : Step m FileFault Unit} {path : String} {removed : FileTree → FileTree → Prop}
    (removal : Removal view op path removed)
    (erases : ∀ t t', removed t t' → t.Erases path t') (w : W) :
    (view w).Loses (endpoint path) (view (op.act w).2) ∧
      ((op.act w).1 = .ok () → ((view (op.act w).2).find path).isOk = false) := by
  rcases taken : op.act w with ⟨fault | ⟨⟩, w'⟩
  · exact ⟨removal.failed w w' fault taken, fun success => by cases success⟩
  · have erased := erases _ _ (removal.done w w' taken)
    exact ⟨erased.toLoses, fun _ => erased.gone⟩

variable {fs : FileSystem m} [LawfulMonad m]

theorem Follows.builds_ensureDirectory (follows : fs.Follows view) {path : String}
    (allowed : (endpoint path).Named → among (endpoint path)) :
    Builds view among (fs.ensureDirectory path) := by
  refine ((follows.makeDirectory path).builds allowed).tryCatch fun fault => ?_
  have looked : Builds view among (liftM (fs.isDirectory path) : Step m FileFault Bool) := fun w => by
    rw [Step.act_liftM, follows.isDirectory]
    exact .refl _ _
  refine looked.bind fun there => ?_
  cases there
  · exact builds_throw fault
  · exact builds_pure ()

theorem Follows.builds_ensureLineage (follows : fs.Follows view) {paths : List String}
    (allowed : ∀ path ∈ paths, (endpoint path).Named → among (endpoint path)) :
    Builds view among (fs.ensureLineage paths) := by
  induction paths with
  | nil => exact builds_pure ()
  | cons path above ih =>
    have here := follows.builds_ensureDirectory (allowed path List.mem_cons_self)
    have others := ih fun other member => allowed other (List.mem_cons_of_mem _ member)
    refine here.tryCatch fun fault => ?_
    split
    · exact others.bind fun _ => here
    · exact builds_throw fault

/-- What is removed is at the endpoint of the path, and after a success nothing is at the path. -/
theorem Follows.loses_remove (follows : fs.Follows view) (path : String) (w : W) :
    (view w).Loses (endpoint path) (view ((fs.remove path).act w).2) ∧
      (((fs.remove path).act w).1 = .ok () →
        ((view ((fs.remove path).act w).2).find path).isOk = false) := by
  have asked := Step.act_liftM (ε := FileFault) (fs.isDirectory path) w
  have same := follows.isDirectory path w
  have opened : (fs.remove path).act w =
      (if (Stateful.act (fs.isDirectory path) w).1 then fs.removeDirectory path
        else fs.removeFile path).act (Stateful.act (fs.isDirectory path) w).2 :=
    Step.act_bind_ok asked
  rw [opened, ← same]
  split
  · exact (follows.removeDirectory path).loses (fun _ _ => FileTree.removeDirectory_ok) _
  · exact (follows.removeFile path).loses (fun _ _ => FileTree.removeFile_ok) _

/-- Whether something is at a path is told exactly, and asking changes nothing. -/
theorem Follows.act_isPresent (follows : fs.Follows view) (path : String) (w : W) :
    ∃ w', (liftM (fs.isPresent path) : Step m ε Bool).act w = (.ok ((view w).find path).isOk, w') ∧
      view w' = view w := by
  obtain ⟨answer, same⟩ := follows.isPresent path w
  exact ⟨_, by rw [Step.act_liftM, answer], same⟩

end FileSystem

namespace Committer

variable {m : Type → Type} [Monad m] [LawfulMonad m] {W : Type} [Stateful m W] {view : W → FileTree}
  {fs : FileSystem m}

/-- The way to a destination is made of directories along it. -/
theorem builds_createParent (follows : fs.Follows view) (path : String) :
    FileSystem.Builds view (LeadsThrough path) (createParent fs path) := by
  intro w
  rw [createParent]
  cases found : Path.parent? path with
  | none => exact FileSystem.builds_pure () w
  | some parent =>
    dsimp only
    rw [explained, Step.act_adapt]
    exact follows.builds_ensureLineage (fun other member => FileTree.leadsThrough_of_lineage found member) w

/-- At most a temporary output makes way for a new one. -/
theorem clearDestination_act (follows : fs.Follows view) (job : Job) (w : W) :
    (view w).Loses (endpoint job.destination) (view ((clearDestination fs job).act w).2) ∧
      (job.temporary = false → view ((clearDestination fs job).act w).2 = view w ∧
        (((view w).find job.destination).isOk = true →
          ∃ fault, ((clearDestination fs job).act w).1 = .error fault)) := by
  obtain ⟨w', asked, same⟩ := follows.act_isPresent (ε := CommitFault) job.destination w
  rw [clearDestination, Step.act_bind_ok asked, ← same]
  cases there : ((view w').find job.destination).isOk with
  | false =>
    simp only [Bool.false_eq_true, if_false, Step.act_pure]
    exact ⟨.refl _ _, fun _ => ⟨trivial, False.elim⟩⟩
  | true =>
    cases temporary : job.temporary with
    | false =>
      simp only [Bool.false_eq_true, if_false, if_true, Step.act_throw]
      exact ⟨.refl _ _, fun _ => ⟨trivial, fun _ => ⟨_, rfl⟩⟩⟩
    | true =>
      simp only [if_true]
      rw [explained, Step.act_adapt]
      exact ⟨(follows.loses_remove job.destination w').1, fun final => by cases final⟩

/-- A commit clears the destination, makes the way to it and then moves what is staged. Where it fails,
it has come to some stage before the move. -/
theorem commit_act (follows : fs.Follows view) {job : Job} {w w' : W} {answer : Except CommitFault Unit}
    (run : ((onFiles fs).commit job).act w = (answer, w')) :
    ∃ t₁ t₂, (view w).Loses (endpoint job.destination) t₁ ∧
      t₁.Grows (LeadsThrough job.destination) t₂ ∧
      (job.temporary = false → t₁ = view w ∧ (((view w).find job.destination).isOk = true →
        t₂ = view w ∧ ∃ fault, answer = .error fault)) ∧
      ((∃ fault, answer = .error fault) ∧ view w' = t₂ ∨
        answer = .ok () ∧ t₂.rename job.staging job.destination = .ok (view w')) := by
  obtain ⟨w₀, asked, same⟩ := follows.act_isPresent (ε := CommitFault) job.staging w
  rw [onFiles, Step.act_bind_ok asked] at run
  cases there : ((view w).find job.staging).isOk with
  | false =>
    rw [there] at run
    obtain ⟨rfl, rfl⟩ :=
      Prod.mk.inj ((Step.act_bind_error (Step.act_throw _ _)).symm.trans run)
    exact ⟨view w, view w, .refl _ _, .refl _ _, fun _ => ⟨rfl, fun _ => ⟨rfl, _, rfl⟩⟩,
      .inl ⟨⟨_, rfl⟩, same⟩⟩
  | true =>
    rw [there] at run
    obtain ⟨loses, final⟩ := clearDestination_act follows job w₀
    rw [same] at loses final
    rcases cleared : (clearDestination fs job).act w₀ with ⟨fault | ⟨⟩, w₁⟩
    · rw [cleared] at loses final
      obtain ⟨rfl, rfl⟩ := Prod.mk.inj ((Step.act_bind_error cleared).symm.trans run)
      exact ⟨view w₁, view w₁, loses, .refl _ _,
        fun last => ⟨(final last).1, fun _ => ⟨(final last).1, _, rfl⟩⟩, .inl ⟨⟨_, rfl⟩, rfl⟩⟩
    · rw [cleared] at loses final
      have free (last : job.temporary = false) : view w₁ = view w ∧
          ((view w).find job.destination).isOk = false := by
        refine ⟨(final last).1, Bool.eq_false_iff.mpr fun occupied => ?_⟩
        obtain ⟨_, failed⟩ := (final last).2 occupied
        cases failed
      have grows := builds_createParent follows job.destination w₁
      have onward := (Step.act_bind_ok cleared).symm.trans run
      have left (t₂ : FileTree) (last : job.temporary = false) : view w₁ = view w ∧
          (((view w).find job.destination).isOk = true →
            t₂ = view w ∧ ∃ fault, answer = .error fault) :=
        ⟨(free last).1, fun occupied => by rw [(free last).2] at occupied; cases occupied⟩
      rcases made : (createParent fs job.destination).act w₁ with ⟨fault | ⟨⟩, w₂⟩
      · rw [made] at grows
        obtain ⟨rfl, rfl⟩ := Prod.mk.inj ((Step.act_bind_error made).symm.trans onward)
        exact ⟨view w₁, view w₂, loses, grows, left _, .inl ⟨⟨_, rfl⟩, rfl⟩⟩
      · rw [made] at grows
        have moved := (Step.act_bind_ok made).symm.trans onward
        rw [explained, Step.act_adapt] at moved
        obtain ⟨rfl, rfl⟩ := Prod.mk.inj moved
        refine ⟨view w₁, view w₂, loses, grows, left _, ?_⟩
        rcases renamed : (fs.rename job.staging job.destination).act w₂ with ⟨fault | ⟨⟩, w₃⟩
        · exact .inl ⟨⟨_, rfl⟩, (follows.rename _ _).failed _ _ _ renamed⟩
        · exact .inr ⟨rfl, (follows.rename _ _).done _ _ renamed⟩

/-- What a commit keeps safe. -/
theorem commits (follows : fs.Follows view) {job : Job} (separate : job.Separate) {w : W}
    (sound : (view w).Sound) :
    (view w).Commits job (((onFiles fs).commit job).act w).1 (view (((onFiles fs).commit job).act w).2) := by
  rcases run : ((onFiles fs).commit job).act w with ⟨answer, w'⟩
  obtain ⟨t₁, t₂, loses, grows, final, ended⟩ := commit_act follows run
  have readies := FileTree.readies separate sound loses grows
  rcases ended with ⟨⟨fault, rfl⟩, same⟩ | ⟨rfl, renamed⟩
  · rw [same]
    exact readies.commits_error (fun last occupied => ((final last).2 occupied).1)
      fun last => (final last).1 ▸ grows
  · refine readies.commits_ok separate renamed fun last => Bool.eq_false_iff.mpr fun occupied => ?_
    obtain ⟨_, _, failed⟩ := (final last).2 occupied
    cases failed

/-- What discarding an output takes. -/
theorem discards (follows : fs.Follows view) (job : Job) (w : W) :
    (view w).Discards job (((onFiles fs).discard job).act w).1
      (view (((onFiles fs).discard job).act w).2) := by
  rcases run : ((onFiles fs).discard job).act w with ⟨answer, w'⟩
  rw [onFiles] at run
  dsimp only at run ⊢
  cases temporary : job.temporary with
  | false =>
    rw [temporary] at run
    obtain ⟨rfl, rfl⟩ := Prod.mk.inj ((Step.act_pure _ _).symm.trans run)
    exact ⟨fun _ => ⟨rfl, rfl⟩, .refl _ _, fun last => by rw [temporary] at last; cases last⟩
  | true =>
    rw [temporary] at run
    obtain ⟨w₀, asked, same⟩ := follows.act_isPresent (ε := CommitFault) job.destination w
    have onward := (Step.act_bind_ok asked).symm.trans run
    cases there : ((view w).find job.destination).isOk with
    | false =>
      rw [there] at onward
      obtain ⟨rfl, rfl⟩ := Prod.mk.inj ((Step.act_pure _ _).symm.trans onward)
      exact {
        idle := fun last => by rw [temporary] at last; cases last
        loses := same ▸ .refl _ _
        gone := fun _ _ => by rw [same, there] }
    | true =>
      rw [there] at onward
      obtain ⟨loses, gone⟩ := follows.loses_remove job.destination w₀
      rw [if_pos rfl, explained, Step.act_adapt] at onward
      obtain ⟨rfl, rfl⟩ := Prod.mk.inj onward
      rw [same] at loses
      refine ⟨fun last => ?_, loses, fun _ success => gone ?_⟩
      · rw [temporary] at last
        cases last
      · cases answered : ((fs.remove job.destination).act w₀).1 with
        | ok _ => rfl
        | error fault =>
          rw [answered] at success
          cases success

/-- Commits and discards lose nothing and replace nothing but stale temporary outputs, whatever fails. -/
theorem onFiles_safe (follows : fs.Follows view) (job : Job) {w : W} (sound : (view w).Sound) :
    (job.Separate → (view w).Commits job (((onFiles fs).commit job).act w).1
        (view (((onFiles fs).commit job).act w).2)) ∧
      (view w).Discards job (((onFiles fs).discard job).act w).1
        (view (((onFiles fs).discard job).act w).2) :=
  ⟨fun separate => commits follows separate sound, discards follows job w⟩

end Committer

namespace FileTree

variable {m : Type → Type} [Monad m] {W : Type} [Stateful m W]

theorem atomic_change (f : FileTree → Except FileFault FileTree) :
    FileSystem.Atomic (Prod.fst : FileTree × W → FileTree)
      (change f : Step (StateT FileTree m) FileFault Unit) f where
  done := by
    rintro ⟨t, w⟩ ⟨t', w'⟩ done
    rw [change_act] at done
    cases changed : f t with
    | error fault =>
      rw [changed] at done
      cases done
    | ok t'' =>
      rw [changed] at done
      cases done
      rfl
  failed := by
    rintro ⟨t, w⟩ ⟨t', w'⟩ fault failed
    rw [change_act] at failed
    cases changed : f t with
    | error fault =>
      rw [changed] at failed
      cases failed
      rfl
    | ok t'' =>
      rw [changed] at failed
      cases failed

/-- Trees as a file system follow the tree. -/
theorem fileSystem_follows :
    (fileSystem : FileSystem (StateT FileTree m)).Follows (Prod.fst : FileTree × W → FileTree) where
  isPresent path := fun (t, w) => by
    rw [isPresent_act]
    exact ⟨rfl, rfl⟩
  isDirectory path := fun (t, w) => by rw [isDirectory_act]
  makeDirectory path := atomic_change fun t => t.makeDirectory path
  rename source target := atomic_change fun t => t.rename source target
  removeFile path := by
    have atomic := atomic_change (m := m) (W := W) fun t => t.removeFile path
    exact ⟨atomic.done, fun w w' fault failed => atomic.failed w w' fault failed ▸ .refl _ _⟩
  removeDirectory path := by
    constructor
    · rintro ⟨t, w⟩ ⟨t', w'⟩ done
      have same := (partialChange_act (fun t => t.removeDirectory path) t w).symm.trans done
      rcases removed : t.removeDirectory path with ⟨t'', _ | fault⟩
      · rw [removed] at same
        cases same
        rfl
      · rw [removed] at same
        cases same
    · rintro ⟨t, w⟩ ⟨t', w'⟩ fault failed
      have same := (partialChange_act (fun t => t.removeDirectory path) t w).symm.trans failed
      rcases removed : t.removeDirectory path with ⟨t'', _ | fault⟩
      · rw [removed] at same
        cases same
      · rw [removed] at same
        cases same
        exact removeDirectory_error removed

end FileTree

/-- Where no double dots are on the way to a destination, it is enough that the two paths are not in each
other. -/
theorem Job.separate_of_passable {job : Job} (passable : Path.Passable job.destination)
    (inside : isWithin (endpoint job.destination) (endpoint job.staging) = false)
    (around : isWithin (endpoint job.staging) (endpoint job.destination) = false) : job.Separate := by
  refine ⟨inside, around, ?_⟩
  rintro _ ⟨front, some, start, rfl⟩
  refine Bool.eq_false_iff.mpr fun within => ?_
  have lower (step : String) (member : step ∈ Path.steps job.destination) : step ≠ ".." :=
    (FileTree.ordinary_of_mem_steps passable member).2
  rw [FileTree.follow_eq_append _ fun step member => lower step (start.subset member)] at within
  have below : FileTree.origin job.destination ++ front <+: endpoint job.destination := by
    rw [FileTree.endpoint_eq_place passable]
    exact (List.prefix_append_right_inj _).mpr start
  rw [FileTree.isWithin_of_prefix within (List.append_ne_nil_of_right_ne_nil _ some) below] at inside
  cases inside

/-- What an earlier run has left of a temporary output, and the output that is to replace it. -/
def FileTree.restaged : FileTree :=
  ⟨[(["tmp"], .directory), (["tmp", "out"], .directory), (["tmp", "out", "part"], .file "old"),
    (["stage"], .directory), (["stage", "marker"], .file "")]⟩

def FileTree.replaced : FileTree :=
  ⟨[(["tmp"], .directory), (["tmp", "out"], .directory), (["tmp", "out", "marker"], .file "")]⟩

def Job.restaging : Job where
  id := 0
  name := "g-node-0"
  group := "g"
  nodes := [0]
  inputs := ["in"]
  staging := "stage"
  destination := "tmp/out"
  temporary := true
  reduceTasks := 0
  config := Properties.empty

theorem Committer.onFiles_safe_restaging :
    let fs : FileSystem (StateT FileTree (StateM Unit)) := FileTree.fileSystem
    fs.Follows Prod.fst ∧ FileTree.restaged.Sound ∧ Job.restaging.Separate ∧
      FileTree.restaged.Commits Job.restaging (.ok ()) FileTree.replaced ∧
      FileTree.restaged.Discards Job.restaging (.ok ()) (FileTree.restaged.remove ["tmp", "out"]) := by
  intro fs
  have follows : fs.Follows Prod.fst := FileTree.fileSystem_follows
  have sound : FileTree.restaged.Sound := FileTree.sound_of_entries (by decide)
  have separate : Job.restaging.Separate :=
    Job.separate_of_passable (by decide) (by decide) (by decide)
  have committed : ((onFiles fs).commit Job.restaging).act (FileTree.restaged, ()) =
      (.ok (), (FileTree.replaced, ())) := rfl
  have discarded : ((onFiles fs).discard Job.restaging).act (FileTree.restaged, ()) =
      (.ok (), (FileTree.restaged.remove ["tmp", "out"], ())) := rfl
  obtain ⟨commits, discards⟩ :=
    Committer.onFiles_safe follows Job.restaging (w := (FileTree.restaged, ())) sound
  have safe := commits separate
  rw [committed] at safe
  rw [discarded] at discards
  exact ⟨follows, sound, separate, safe, discards⟩

end Wavefront
