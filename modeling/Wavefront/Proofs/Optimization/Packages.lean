import Wavefront.Proofs.Graph.Shape
import Wavefront.Proofs.Optimization.Feeds
set_option autoImplicit false

/-!
Packages get to know their inputs. Where the branch at each index ends in the rearrange of that
index, every input of the package is fed once, by the keys of its branch.
-/
namespace Wavefront.Optimization

def feedsOf (keys : List (List String)) : List Feed := keys.mapIdx Feed.mk

def knownOf (kind : PackageKind) (keys : List (List String)) : PackageAnnotation :=
  let infos := (feedsOf keys).map (keyInfo kind)
  ⟨infos, if infos.all KeyInfo.stripKeyFromValue then .keyStripped else .full⟩

theorem feedsOf_placed {keys : List (List String)} (i : Nat) (feed : Feed)
    (there : (feedsOf keys)[i]? = some feed) : feed.index = i := by
  simp only [feedsOf, List.getElem?_mapIdx, Option.map_eq_some_iff] at there
  obtain ⟨k, _, rfl⟩ := there
  rfl

theorem fills_feedsOf (keys : List (List String)) : Fills keys.length (feedsOf keys) := by
  have same : (feedsOf keys).map Feed.index = List.range keys.length := by
    apply List.ext_getElem <;> simp [feedsOf]
  rw [Fills, same]

theorem annotationOf_eq_ok (node : Nat) (kind : PackageKind) (keys : List (List String)) :
    annotationOf node kind keys.length (feedsOf keys) = .ok (knownOf kind keys) := by
  have count : ((feedsOf keys).map (keyInfo kind)).length = keys.length := by simp [feedsOf]
  refine annotationOf_eq_ok_iff.mpr ⟨fills_feedsOf keys, describes_iff.mpr ⟨⟨count, ?_⟩, rfl⟩⟩
  intro i info there
  simp only [knownOf, List.getElem?_map, Option.map_eq_some_iff] at there
  obtain ⟨feed, among, rfl⟩ := there
  exact ⟨feed, List.mem_of_getElem? among, feedsOf_placed i feed among, rfl⟩

theorem lastFeed?_append (ops : List LocalOp) (index : Nat) (keys : List String) :
    lastFeed? (ops ++ [.rearrange index keys]) = some ⟨index, keys⟩ := by
  rw [lastFeed?, List.reverse_append, List.reverse_singleton, List.singleton_append,
    List.findSome?_cons_of_isSome] <;> rfl

theorem filterMap_lastFeed? (branches : List (List LocalOp × List String)) :
    (rearranged branches).filterMap lastFeed? = feedsOf (branches.map Prod.snd) := by
  have each : (rearranged branches).map lastFeed? = (feedsOf (branches.map Prod.snd)).map some := by
    refine List.ext_getElem? fun i => ?_
    simp only [rearranged, feedsOf, List.getElem?_map, List.getElem?_mapIdx, Option.map_map]
    refine congrArg (fun f => Option.map f branches[i]?) (funext fun b => ?_)
    exact lastFeed?_append b.1 i b.2
  have whole : (rearranged branches).filterMap lastFeed? =
      ((rearranged branches).map lastFeed?).filterMap id := by
    rw [List.filterMap_map]
    rfl
  rw [whole, each, List.filterMap_map]
  exact List.filterMap_some

theorem mapFeeds_eq {n : Node} {branches : List (List LocalOp × List String)}
    (map : n.map.map Branch.ops = rearranged branches) :
    mapFeeds n = feedsOf (branches.map Prod.snd) := by
  rw [← filterMap_lastFeed?, ← map, List.filterMap_map]
  rfl

theorem annotateOps_cons {node : Nat} {feeds : List Feed} {op op' : LocalOp}
    (first : annotateOp node feeds op = .done op') (rest : List LocalOp) :
    annotateOps node feeds (op :: rest) = (annotateOps node feeds rest).map (op' :: ·) :=
  Revision.sweep_cons first rest

theorem annotateOps_records (node : Nat) (feeds : List Feed) {ops : List LocalOp}
    (records : Records ops) :
    annotateOps node feeds ops = .done ops := by
  apply Revision.sweep_eq_self
  intro op member
  obtain ⟨r, rfl⟩ := records op member
  cases r <;> rfl

theorem annotateOps_tail (node : Nat) (feeds : List Feed) {kind : PackageKind}
    {keys : List (List String)} {tail : List LocalOp} (after : Tail kind keys tail) :
    annotateOps node feeds tail = .done tail := by
  cases after with
  | group records | distinct records | coGroup records =>
    exact annotateOps_records node feeds records
  | computed records | join records =>
    rw [annotateOps_cons rfl, annotateOps_records node feeds records, Revision.map_done]

theorem annotateOps_package (node : Nat) (kind : PackageKind) (keys : List (List String))
    {tail : List LocalOp} (rest : annotateOps node (feedsOf keys) tail = .done tail) :
    annotateOps node (feedsOf keys) (.package kind keys.length none :: tail) =
      .done (.package kind keys.length (some (knownOf kind keys)) :: tail) := by
  have first : annotateOp node (feedsOf keys) (.package kind keys.length none) =
      .done (.package kind keys.length (some (knownOf kind keys))) := by
    simp only [annotateOp, annotationOf_eq_ok]
  rw [annotateOps_cons first, rest, Revision.map_done]

end Wavefront.Optimization
