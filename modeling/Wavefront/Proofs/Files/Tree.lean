import Mathlib.Data.List.Infix
import Wavefront.Files.Tree
import Wavefront.Proofs.Lookup
set_option autoImplicit false

/-!
Trees of files by what is found at their places. Main statement: what is put at a place, cleared away
below it or moved with all it holds changes what is found at and below the places it is about, and
nowhere else.
-/
namespace Wavefront

/-- A place below the starting directory, or below the root: neither of the two nor one of the directories
around them, which are always there. -/
def Place.Named (p : Place) : Prop := ∃ name ∈ p, name ≠ "/" ∧ name ≠ ".."

/-- Of two places neither lies within the other. -/
def Place.Apart (p q : Place) : Prop := ¬ p <+: q ∧ ¬ q <+: p

namespace Place

variable {p q : Place}

theorem Named.below (named : Named p) (within : p <+: q) : Named q := by
  obtain ⟨name, member, ordinary⟩ := named
  exact ⟨name, within.subset member, ordinary⟩

theorem Named.ne_nil (named : Named p) : p ≠ [] := by
  obtain ⟨_, member, _⟩ := named
  exact List.ne_nil_of_mem member

theorem Apart.symm (apart : Apart p q) : Apart q p := ⟨apart.2, apart.1⟩

theorem Apart.outside (apart : Apart p q) {r : Place} (within : p <+: r) : ¬ q <+: r := fun other => by
  rcases List.prefix_or_prefix_of_prefix within other with lower | lower
  · exact apart.1 lower
  · exact apart.2 lower

theorem Apart.below {r : Place} (apart : Apart p q) (within : p <+: r) : Apart r q :=
  ⟨fun lower => apart.1 (within.trans lower), apart.outside within⟩

end Place

namespace FileTree

variable {t : FileTree} {p q : Place} {e : FileEntry}

theorem isWithin_iff (named : p.Named) : isWithin q p = true ↔ p <+: q := by
  rw [isWithin, Bool.and_eq_true, List.isPrefixOf_iff_prefix, beq_iff_eq]
  refine ⟨And.left, fun within => ⟨within, ?_⟩⟩
  obtain ⟨rest, rfl⟩ := within
  obtain ⟨name, others, rfl⟩ := List.exists_cons_of_ne_nil named.ne_nil
  rfl

theorem isBelow_iff (named : p.Named) : isBelow q p = true ↔ p <+: q ∧ q ≠ p := by
  rw [isBelow, Bool.and_eq_true, isWithin_iff named, bne_iff_ne, and_comm]

theorem get?_of_named (named : p.Named) : t.get? p = t.entries.lookup p := by
  obtain ⟨name, member, ordinary⟩ := named
  rw [get?, if_neg]
  intro all
  have given := List.all_eq_true.mp all name member
  simp [ordinary] at given

theorem get?_of_not_named (given : ¬ p.Named) : t.get? p = some .directory := by
  rw [get?, if_pos]
  refine List.all_eq_true.mpr fun name member => ?_
  by_contra ordinary
  exact given ⟨name, member, by simpa using ordinary⟩

theorem mem_of_get? (named : p.Named) (found : t.get? p = some e) :
    (p, e) ∈ t.entries := by
  rw [get?_of_named named, List.lookup_eq_some_iff] at found
  obtain ⟨before, after, split, _⟩ := found
  rw [split]
  exact List.mem_append_right _ List.mem_cons_self

theorem get?_congr {t' : FileTree} (agree : p.Named → t'.entries.lookup p = t.entries.lookup p) :
    t'.get? p = t.get? p := by
  by_cases named : p.Named
  · rw [get?_of_named named, get?_of_named named, agree named]
  · rw [get?_of_not_named named, get?_of_not_named named]

theorem get?_put (named : p.Named) (q : Place) :
    (t.put p e).get? q = if q = p then some e else t.get? q := by
  have look : (t.put p e).entries.lookup q = if q = p then some e else t.entries.lookup q := by
    rw [put, List.lookup_append, lookup_filter (· != p), lookup_cons_ite]
    by_cases same : q = p <;> simp [same]
  by_cases same : q = p
  · rw [if_pos same, get?_of_named (same ▸ named), look, if_pos same]
  · rw [if_neg same]
    exact get?_congr fun _ => by rw [look, if_neg same]

theorem get?_remove (named : p.Named) (q : Place) :
    (t.remove p).get? q = if p <+: q then none else t.get? q := by
  have look : (t.remove p).entries.lookup q = if p <+: q then none else t.entries.lookup q := by
    rw [remove, lookup_filter (fun key => !isWithin key p)]
    by_cases within : p <+: q
    · rw [if_pos within, if_neg (by simpa using (isWithin_iff named).mpr within)]
    · rw [if_neg within, if_pos (by simpa using mt (isWithin_iff named).mp within)]
  by_cases within : p <+: q
  · rw [if_pos within, get?_of_named (named.below within), look, if_pos within]
  · rw [if_neg within]
    exact get?_congr fun _ => by rw [look, if_neg within]

theorem get?_clear (named : p.Named) (q : Place) :
    (t.clear p).get? q = if p <+: q ∧ q ≠ p then none else t.get? q := by
  have look : (t.clear p).entries.lookup q =
      if p <+: q ∧ q ≠ p then none else t.entries.lookup q := by
    rw [clear, lookup_filter (fun key => !isBelow key p)]
    by_cases below : p <+: q ∧ q ≠ p
    · rw [if_pos below, if_neg (by simpa using (isBelow_iff named).mpr below)]
    · rw [if_neg below, if_pos (by simpa using mt (isBelow_iff named).mp below)]
  by_cases below : p <+: q ∧ q ≠ p
  · rw [if_pos below, get?_of_named (named.below below.1), look, if_pos below]
  · rw [if_neg below]
    exact get?_congr fun _ => by rw [look, if_neg below]

theorem isEmptyAt_clear (t : FileTree) (p : Place) : (t.clear p).isEmptyAt p = true := by
  simp [isEmptyAt, clear]

theorem remove_clear (t : FileTree) (p : Place) : (t.clear p).remove p = t.remove p := by
  rw [remove, remove, clear, List.filter_filter]
  congr 1
  refine List.filter_congr fun e _ => ?_
  simp only [isBelow]
  cases isWithin e.1 p <;> simp

/-- Nothing is at a place or below it. -/
def Vacant (t : FileTree) (p : Place) : Prop := ∀ q, p <+: q → t.get? q = none

/-- A place is a directory, and so are those above it. -/
def Standing (t : FileTree) (p : Place) : Prop := ∀ q, q <+: p → t.get? q = some .directory

/-- No file is at a place or above it, so that it can become a directory. -/
def Open (t : FileTree) (p : Place) : Prop := ∀ q, q <+: p → ∀ text, t.get? q ≠ some (.file text)

theorem Standing.free (standing : t.Standing p) : t.Open p := fun q above text file => by
  rw [standing q above] at file
  cases file

theorem Standing.above (standing : t.Standing p) (above : q <+: p) : t.Standing q :=
  fun r higher => standing r (higher.trans above)

theorem Open.above (free : t.Open p) (above : q <+: p) : t.Open q :=
  fun r higher => free r (higher.trans above)

theorem Vacant.outside (named : p.Named) (vacant : t.Vacant p) {key : Place}
    (member : (key, e) ∈ t.entries) : ¬ p <+: key := fun within => by
  have none := vacant key within
  rw [get?_of_named (named.below within), List.lookup_eq_none_iff] at none
  simpa using none (key, e) member

theorem lookup_moved (source : Place) {target : Place} {entries : List (Place × FileEntry)}
    (vacant : ∀ e ∈ entries, ¬ target <+: e.1) (q : Place) :
    (entries.map fun e =>
        if source <+: e.1 then (target ++ e.1.drop source.length, e.2) else e).lookup q =
      if target <+: q then entries.lookup (source ++ q.drop target.length)
      else if source <+: q then none else entries.lookup q := by
  induction entries with
  | nil => simp
  | cons head rest ih =>
    obtain ⟨key, x⟩ := head
    have others := ih fun e member => vacant e (List.mem_cons_of_mem _ member)
    have outside : ¬ target <+: key := vacant (key, x) List.mem_cons_self
    rw [List.map_cons]
    by_cases moved : source <+: key
    · obtain ⟨tail, rfl⟩ := moved
      rw [if_pos (List.prefix_append _ _), List.drop_left, lookup_cons_ite, others]
      by_cases within : target <+: q
      · obtain ⟨tail', rfl⟩ := within
        rw [if_pos (List.prefix_append _ _), if_pos (List.prefix_append _ _), List.drop_left,
          lookup_cons_ite]
        simp
      · have other : q ≠ target ++ tail := fun same => within (same ▸ List.prefix_append _ _)
        rw [if_neg other, if_neg within, if_neg within, lookup_cons_ite]
        by_cases gone : source <+: q
        · rw [if_pos gone, if_pos gone]
        · have other : q ≠ source ++ tail := fun same => gone (same ▸ List.prefix_append _ _)
          rw [if_neg gone, if_neg gone, if_neg other]
    · rw [if_neg moved, lookup_cons_ite, others]
      by_cases within : target <+: q
      · have other : q ≠ key := fun same => outside (same ▸ within)
        have other' : source ++ q.drop target.length ≠ key := fun same =>
          moved (same ▸ List.prefix_append _ _)
        rw [if_neg other, if_pos within, if_pos within, lookup_cons_ite, if_neg other']
      · rw [if_neg within, if_neg within, lookup_cons_ite]
        by_cases gone : source <+: q
        · have other : q ≠ key := fun same => moved (same ▸ gone)
          rw [if_neg other, if_pos gone, if_pos gone]
        · rw [if_neg gone, if_neg gone]

/-- What is moved to a vacant place is found there, and no longer where it was. -/
theorem get?_move {source target : Place} (named : source.Named) (named' : target.Named)
    (vacant : t.Vacant target) (q : Place) :
    (t.move source target).get? q =
      if target <+: q then t.get? (source ++ q.drop target.length)
      else if source <+: q then none else t.get? q := by
  have moved : (t.move source target).entries =
      t.entries.map fun e =>
        if source <+: e.1 then (target ++ e.1.drop source.length, e.2) else e := by
    rw [move]
    refine List.map_congr_left fun e _ => ?_
    by_cases within : source <+: e.1
    · rw [if_pos within, if_pos ((isWithin_iff named).mpr within)]
    · rw [if_neg within, if_neg (mt (isWithin_iff named).mp within)]
  have look := lookup_moved source (fun e member => vacant.outside named' member) q
  rw [← moved] at look
  by_cases within : target <+: q
  · rw [if_pos within] at look ⊢
    rw [get?_of_named (named'.below within), look,
      get?_of_named (named.below (List.prefix_append _ _))]
  · rw [if_neg within] at look ⊢
    by_cases gone : source <+: q
    · rw [if_pos gone] at look ⊢
      rw [get?_of_named (named.below gone), look]
    · rw [if_neg gone] at look ⊢
      exact get?_congr fun _ => look

end FileTree

end Wavefront
