import Mathlib.Data.List.Nodup
import Wavefront.Optimization.PackageInputs
import Wavefront.Proofs.Optimization.Revising
set_option autoImplicit false

/-!
Packages and the feeds they are given. A package comes to know its inputs exactly if each of them is
fed by one feed and no feed goes elsewhere, in whatever order the feeds come. What it knows then is
settled by what each feed carries.
-/
namespace Wavefront

/-- How many inputs an operation regroups, if it is a package. -/
def LocalOp.packageInputs? : LocalOp → Option Nat
  | .package _ inputs _ | .joinPackage inputs _ _ _ _ => some inputs
  | _ => none

namespace Optimization

variable {node inputs : Nat} {kind : PackageKind} {feeds feeds' : List Feed}
  {known : PackageAnnotation}

/-- Feeds that go to every one of so many inputs, once, and to no other. -/
def Fills (inputs : Nat) (feeds : List Feed) : Prop :=
  (feeds.map Feed.index).Perm (List.range inputs)

/-- What a package knows is what its feeds carry. Only a package that is no distinct one can take the
key columns out of the values, and only from an input that has keys. -/
structure Describes (kind : PackageKind) (inputs : Nat) (feeds : List Feed)
    (known : PackageAnnotation) : Prop where
  count : known.inputs.length = inputs
  index : ∀ (i : Nat) (info : KeyInfo), known.inputs[i]? = some info → info.index = i
  keys : ∀ info ∈ known.inputs, ⟨info.index, info.keys⟩ ∈ feeds
  strips : ∀ info ∈ known.inputs,
    info.stripKeyFromValue = true ↔ info.keys ≠ [] ∧ kind ≠ .distinct
  layout : known.layout = .keyStripped ↔ ∀ info ∈ known.inputs, info.stripKeyFromValue = true

theorem Fills.perm (filled : Fills inputs feeds) (same : feeds.Perm feeds') :
    Fills inputs feeds' :=
  (same.symm.map Feed.index).trans filled

theorem Describes.perm (described : Describes kind inputs feeds known)
    (same : feeds.Perm feeds') : Describes kind inputs feeds' known where
  count := described.count
  index := described.index
  keys info member := same.mem_iff.mp (described.keys info member)
  strips := described.strips
  layout := described.layout

theorem Fills.nodup (filled : Fills inputs feeds) : (feeds.map Feed.index).Nodup :=
  filled.nodup_iff.mpr List.nodup_range

theorem Fills.lt (filled : Fills inputs feeds) {feed : Feed} (member : feed ∈ feeds) :
    feed.index < inputs :=
  List.mem_range.mp (filled.mem_iff.mp (List.mem_map_of_mem member))

theorem Fills.exists_feed (filled : Fills inputs feeds) {i : Nat} (inside : i < inputs) :
    ∃ feed ∈ feeds, feed.index = i :=
  List.mem_map.mp (filled.mem_iff.mpr (List.mem_range.mpr inside))

/-- Feeds inside the range, no two of them alike, fill it if they reach every input. -/
theorem fills_of_reached (distinct : (feeds.map Feed.index).Nodup)
    (inside : ∀ feed ∈ feeds, feed.index < inputs)
    (reached : ∀ i < inputs, ∃ feed ∈ feeds, feed.index = i) : Fills inputs feeds := by
  apply (List.perm_ext_iff_of_nodup distinct List.nodup_range).mpr
  intro i
  rw [List.mem_range, List.mem_map]
  constructor
  · rintro ⟨feed, member, rfl⟩
    exact inside feed member
  · exact reached i

/-- A feed is taken if its input exists and has none yet. -/
theorem addFeed_eq_ok {taken all : List Feed} {feed : Feed} :
    addFeed node inputs taken feed = .ok all ↔
      feed.index < inputs ∧ feed.index ∉ taken.map Feed.index ∧ taken ++ [feed] = all := by
  have used : taken.any (·.index == feed.index) = true ↔ feed.index ∈ taken.map Feed.index := by
    simp [List.any_eq_true]
  unfold addFeed
  by_cases outside : inputs ≤ feed.index
  · simp [outside, Nat.not_lt.mpr outside]
  · by_cases twice : feed.index ∈ taken.map Feed.index
    · rw [if_neg outside, if_pos (used.mpr twice)]
      simp [twice]
    · rw [if_neg outside, if_neg fun found => twice (used.mp found)]
      simp [Nat.not_le.mp outside, twice]

/-- Feeds are taken one after the other up to the first whose input does not exist or has one. -/
theorem foldlM_addFeed_eq_ok {taken rest all : List Feed}
    (distinct : (taken.map Feed.index).Nodup) :
    rest.foldlM (addFeed node inputs) taken = .ok all ↔
      (∀ feed ∈ rest, feed.index < inputs) ∧ ((taken ++ rest).map Feed.index).Nodup ∧
        taken ++ rest = all := by
  induction rest generalizing taken with
  | nil => simp [pure, Except.pure, distinct]
  | cons feed rest ih =>
    -- A feed is compared with those taken before it, so what is taken never names an input twice.
    have split : taken ++ feed :: rest = (taken ++ [feed]) ++ rest := by simp
    have longer : ((taken ++ [feed]).map Feed.index).Nodup ↔ feed.index ∉ taken.map Feed.index := by
      rw [List.map_append, List.map_singleton, ← List.concat_eq_append, List.nodup_concat]
      exact and_iff_left distinct
    rw [List.foldlM_cons, Traversal.bind_eq_ok, List.forall_mem_cons, split]
    constructor
    · rintro ⟨more, first, later⟩
      obtain ⟨inside, fresh, rfl⟩ := addFeed_eq_ok.mp first
      obtain ⟨others, nodup, whole⟩ := (ih (longer.mpr fresh)).mp later
      exact ⟨⟨inside, others⟩, nodup, whole⟩
    · rintro ⟨⟨inside, others⟩, nodup, whole⟩
      have shorter : ((taken ++ [feed]).map Feed.index).Nodup :=
        nodup.sublist ((List.sublist_append_left _ rest).map Feed.index)
      have first : addFeed node inputs taken feed = .ok (taken ++ [feed]) :=
        addFeed_eq_ok.mpr ⟨inside, longer.mp shorter, rfl⟩
      exact ⟨_, first, (ih shorter).mpr ⟨others, nodup, whole⟩⟩

/-- Where no two feeds go to one input, an input is known by its only feed. -/
theorem inputInfo_eq_ok (distinct : (feeds.map Feed.index).Nodup) {i : Nat} {info : KeyInfo} :
    inputInfo node kind feeds i = .ok info ↔
      ∃ feed ∈ feeds, feed.index = i ∧ info = keyInfo kind feed := by
  constructor
  · intro found
    unfold inputInfo at found
    split at found
    · rename_i feed first
      have here : feed.index = i := by simpa using List.find?_some first
      exact ⟨feed, List.mem_of_find?_eq_some first, here, (Except.ok.inj found).symm⟩
    · cases found
  · rintro ⟨feed, member, rfl, rfl⟩
    have some_feed : (feeds.find? (·.index == feed.index)).isSome := by
      rw [List.find?_isSome]
      exact ⟨feed, member, by simp⟩
    obtain ⟨other, first⟩ := Option.isSome_iff_exists.mp some_feed
    have here : other.index = feed.index := by simpa using List.find?_some first
    have same : other = feed :=
      List.inj_on_of_nodup_map distinct (List.mem_of_find?_eq_some first) member here
    rw [inputInfo, first, same]

theorem keyInfo_strips (kind : PackageKind) (feed : Feed) :
    (keyInfo kind feed).stripKeyFromValue = true ↔ feed.keys ≠ [] ∧ kind ≠ .distinct := by
  simp [keyInfo]

/-- The inputs are known one by one, each by the feed that goes there. -/
theorem mapM_inputInfo_eq_ok (distinct : (feeds.map Feed.index).Nodup) {infos : List KeyInfo} :
    (List.range inputs).mapM (inputInfo node kind feeds) = .ok infos ↔
      infos.length = inputs ∧ ∀ (i : Nat) (info : KeyInfo), infos[i]? = some info →
        ∃ feed ∈ feeds, feed.index = i ∧ info = keyInfo kind feed := by
  rw [Traversal.mapM_eq_ok, Traversal.forall₂_iff_getElem?, List.length_range, @eq_comm Nat inputs]
  apply and_congr_right
  intro count
  constructor
  · intro each i info there
    have inside : i < inputs := count ▸ (List.getElem?_eq_some_iff.mp there).1
    exact (inputInfo_eq_ok distinct).mp (each i i info (List.getElem?_range inside) there)
  · intro each i index info left there
    obtain ⟨within, same⟩ := List.getElem?_eq_some_iff.mp left
    obtain rfl : i = index := by rwa [List.getElem_range] at same
    exact (inputInfo_eq_ok distinct).mpr (each i info there)

/-- An entry says of its input what the feed that goes there makes of it. -/
theorem describes_iff :
    Describes kind inputs feeds known ↔
      (known.inputs.length = inputs ∧ ∀ (i : Nat) (info : KeyInfo), known.inputs[i]? = some info →
        ∃ feed ∈ feeds, feed.index = i ∧ info = keyInfo kind feed) ∧
      (if known.inputs.all KeyInfo.stripKeyFromValue then ValueLayout.keyStripped else .full) =
        known.layout := by
  have layouts : known.layout = .keyStripped ↔ known.layout ≠ .full := by
    cases known.layout <;> simp
  constructor
  · intro described
    refine ⟨⟨described.count, fun i info there => ?_⟩, ?_⟩
    · have member := List.mem_of_getElem? there
      refine ⟨⟨info.index, info.keys⟩, described.keys info member, described.index i info there, ?_⟩
      have strip := Bool.eq_iff_iff.mpr
        ((described.strips info member).trans (keyInfo_strips kind ⟨info.index, info.keys⟩).symm)
      exact congrArg (KeyInfo.mk info.index info.keys) strip
    · by_cases all : ∀ info ∈ known.inputs, info.stripKeyFromValue = true
      · rw [if_pos (List.all_eq_true.mpr all), described.layout.mpr all]
      · rw [if_neg fun every => all (List.all_eq_true.mp every)]
        by_contra other
        exact all (described.layout.mp (layouts.mpr (Ne.symm other)))
  · rintro ⟨⟨count, each⟩, layout⟩
    refine ⟨count, fun i info there => ?_, fun info member => ?_, fun info member => ?_, ?_⟩
    · obtain ⟨feed, _, here, rfl⟩ := each i info there
      exact here
    · obtain ⟨i, there⟩ := List.mem_iff_getElem?.mp member
      obtain ⟨feed, among, _, rfl⟩ := each i info there
      exact among
    · obtain ⟨i, there⟩ := List.mem_iff_getElem?.mp member
      obtain ⟨feed, _, _, rfl⟩ := each i info there
      exact keyInfo_strips kind feed
    · rw [← layout, ← List.all_eq_true]
      simp

/-- A package comes to know its inputs exactly if the feeds fill them, and then what they carry. -/
theorem annotationOf_eq_ok_iff :
    annotationOf node kind inputs feeds = .ok known ↔
      Fills inputs feeds ∧ Describes kind inputs feeds known := by
  have taken : ∀ all, feeds.foldlM (addFeed node inputs) [] = .ok all ↔
      (∀ feed ∈ feeds, feed.index < inputs) ∧ (feeds.map Feed.index).Nodup ∧ feeds = all :=
    fun all => foldlM_addFeed_eq_ok List.nodup_nil
  rw [describes_iff]
  constructor
  · intro found
    obtain ⟨all, collected, found⟩ := Traversal.bind_eq_ok.mp found
    obtain ⟨inside, distinct, rfl⟩ := (taken all).mp collected
    obtain ⟨infos, informed, finished⟩ := Traversal.bind_eq_ok.mp found
    obtain rfl := Except.ok.inj finished
    obtain ⟨count, each⟩ := (mapM_inputInfo_eq_ok distinct).mp informed
    -- There are as many entries as inputs, and each entry comes from a feed to its input.
    refine ⟨fills_of_reached distinct inside fun i within => ?_, ⟨count, each⟩, rfl⟩
    have there : infos[i]? = some infos[i] := List.getElem?_eq_getElem (count.symm ▸ within)
    obtain ⟨feed, member, here, _⟩ := each i _ there
    exact ⟨feed, member, here⟩
  · rintro ⟨filled, entries, layout⟩
    have collected := (taken feeds).mpr ⟨fun feed => filled.lt, filled.nodup, rfl⟩
    have informed := (@mapM_inputInfo_eq_ok node _ _ _ filled.nodup _).mpr entries
    refine Traversal.bind_eq_ok.mpr ⟨feeds, collected, Traversal.bind_eq_ok.mpr ⟨_, informed, ?_⟩⟩
    rw [layout]
    rfl

/-- Feeds may come in any order. A package keeps the keys in the values where an input has none. -/
example (node : Nat) : annotationOf node .group 2 [⟨1, ["k"]⟩, ⟨0, []⟩] =
    .ok ⟨[⟨0, [], false⟩, ⟨1, ["k"], true⟩], .full⟩ := rfl

/-- Feeds that fill the inputs describe them. -/
theorem Fills.exists_describes (filled : Fills inputs feeds) (kind : PackageKind) :
    ∃ known, Describes kind inputs feeds known := by
  have each : ∀ i ∈ List.range inputs, ∃ info, inputInfo 0 kind feeds i = .ok info := by
    intro i member
    obtain ⟨feed, among, here⟩ := filled.exists_feed (List.mem_range.mp member)
    exact ⟨keyInfo kind feed, (inputInfo_eq_ok filled.nodup).mpr ⟨feed, among, here, rfl⟩⟩
  obtain ⟨infos, informed⟩ := Traversal.forall₂_of_exists each
  have entries := (mapM_inputInfo_eq_ok filled.nodup).mp (Traversal.mapM_eq_ok.mpr informed)
  let layout := if infos.all KeyInfo.stripKeyFromValue then ValueLayout.keyStripped else .full
  exact ⟨⟨infos, layout⟩, describes_iff.mpr ⟨entries, rfl⟩⟩

section Operations

variable {op op' : LocalOp} {ops ops' : List LocalOp}

def rearranges : List LocalOp → List Feed
  | [] => []
  | .rearrange index keys :: rest => ⟨index, keys⟩ :: rearranges rest
  | _ :: rest => rearranges rest

/-- Feeds that fill the inputs of every package among some operations. -/
def Fed (feeds : List Feed) (ops : List LocalOp) : Prop :=
  ∀ op ∈ ops, ∀ inputs ∈ op.packageInputs?, Fills inputs feeds

/-- An operation, and what it is once it knows its inputs. -/
inductive Informs (feeds : List Feed) : LocalOp → LocalOp → Prop where
  | package {kind : PackageKind} {inputs : Nat} {known : PackageAnnotation}
      (before : Option PackageAnnotation) (described : Describes kind inputs feeds known) :
      Informs feeds (.package kind inputs before) (.package kind inputs (some known))
  | joinPackage {joinType : JoinType} {inputs chunkSize streamedInput : Nat}
      {known : PackageAnnotation} (before : Option PackageAnnotation)
      (described : Describes (.join joinType) inputs feeds known) :
      Informs feeds (.joinPackage inputs joinType chunkSize streamedInput before)
        (.joinPackage inputs joinType chunkSize streamedInput (some known))
  | keep {op : LocalOp} (other : op.packageInputs? = none) : Informs feeds op op

theorem rearranges_cons (op : LocalOp) (rest : List LocalOp) :
    rearranges (op :: rest) = (feed? op).toList ++ rearranges rest := by
  cases op <;> rfl

theorem lastFeed?_eq (ops : List LocalOp) : lastFeed? ops = (rearranges ops).getLast? := by
  have all : ops.filterMap feed? = rearranges ops := by
    induction ops with
    | nil => rfl
    | cons op rest ih =>
      rw [List.filterMap_cons, rearranges_cons, ← ih]
      cases feed? op <;> rfl
  rw [lastFeed?, ← List.head?_filterMap, List.filterMap_reverse, List.head?_reverse, all]

theorem rearranges_eq_of_informs (each : List.Forall₂ (Informs feeds) ops ops') :
    rearranges ops' = rearranges ops := by
  induction each with
  | nil => rfl
  | cons first _ ih =>
    rw [rearranges_cons, rearranges_cons, ih]
    cases first <;> rfl

theorem annotateOp_eq_done_iff :
    annotateOp node feeds op = .done op' ↔
      (∀ inputs ∈ op.packageInputs?, Fills inputs feeds) ∧ Informs feeds op op' := by
  constructor
  · intro through
    cases op with
    | package kind inputs before =>
      cases found : annotationOf node kind inputs feeds with
      | error fault =>
        simp only [annotateOp, found] at through
        cases congrArg Revision.fault through
      | ok known =>
        obtain ⟨filled, described⟩ := annotationOf_eq_ok_iff.mp found
        simp only [annotateOp, found, Revision.done_inj] at through
        rw [← through]
        exact ⟨fun _ is => Option.some.inj is ▸ filled, .package before described⟩
    | joinPackage inputs joinType chunkSize streamedInput before =>
      cases found : annotationOf node (.join joinType) inputs feeds with
      | error fault =>
        simp only [annotateOp, found] at through
        cases congrArg Revision.fault through
      | ok known =>
        obtain ⟨filled, described⟩ := annotationOf_eq_ok_iff.mp found
        simp only [annotateOp, found, Revision.done_inj] at through
        rw [← through]
        exact ⟨fun _ is => Option.some.inj is ▸ filled, .joinPackage before described⟩
    | filter | project | stream | limit | rearrange | flatten | aggregate =>
      rw [← Revision.done_inj.mp through]
      exact ⟨fun _ is => (Option.not_mem_none _ is).elim, .keep rfl⟩
  · rintro ⟨filled, informed⟩
    cases informed with
    | package before described | joinPackage before described =>
      simp only [annotateOp, annotationOf_eq_ok_iff.mpr ⟨filled _ rfl, described⟩]
    | keep other =>
      cases op with
      | package | joinPackage => cases other
      | filter | project | stream | limit | rearrange | flatten | aggregate => rfl

theorem annotateOps_eq_done_iff :
    annotateOps node feeds ops = .done ops' ↔
      Fed feeds ops ∧ List.Forall₂ (Informs feeds) ops ops' := by
  simp only [annotateOps, Revision.sweep_eq_done_iff, annotateOp_eq_done_iff, List.forall₂_and_left]
  rfl

/-- Operations with fed packages can be annotated. -/
theorem Fed.exists_informs (fed : Fed feeds ops) : ∃ ops', List.Forall₂ (Informs feeds) ops ops' := by
  apply Traversal.forall₂_of_exists
  intro op member
  have filled := fed op member
  cases op with
  | package kind inputs before =>
    obtain ⟨known, described⟩ := (filled inputs rfl).exists_describes kind
    exact ⟨_, .package before described⟩
  | joinPackage inputs joinType chunkSize streamedInput before =>
    obtain ⟨known, described⟩ := (filled inputs rfl).exists_describes (.join joinType)
    exact ⟨_, .joinPackage before described⟩
  | filter | project | stream | limit | rearrange | flatten | aggregate => exact ⟨_, .keep rfl⟩

theorem Fed.perm {feeds' : List Feed} (fed : Fed feeds ops) (same : feeds.Perm feeds') :
    Fed feeds' ops :=
  fun op member inputs is => (fed op member inputs is).perm same

theorem Informs.perm {feeds' : List Feed} (informed : Informs feeds op op')
    (same : feeds.Perm feeds') : Informs feeds' op op' := by
  cases informed with
  | package before described => exact .package before (described.perm same)
  | joinPackage before described => exact .joinPackage before (described.perm same)
  | keep other => exact .keep other

end Operations

end Optimization

end Wavefront
