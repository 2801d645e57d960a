import Wavefront.Explain.Format
import Wavefront.Proofs.Drafting.Realization
import Wavefront.Proofs.Explain.Drawing
import Wavefront.Proofs.Explain.Outline
import Wavefront.Proofs.Files.Scope
import Wavefront.Proofs.Optimization.Locations
set_option autoImplicit false

/-!
The two explanations of a graph. Main statement: the drawing of a graph that comes from a plan reads as
its nodes, with what is written on each of them, and its edges, and where no text in it has a line break
the listing names the same nodes and edges.
-/
namespace Wavefront

theorem digitChar_unescaped : ∀ digit < 16, Nat.digitChar digit ≠ '"' ∧ Nat.digitChar digit ≠ '\\' ∧
    Nat.digitChar digit ≠ '\n' := by
  decide

theorem Plan.scope_unescaped (p : Plan) {c : Char} (member : c ∈ p.scope.toList) :
    c ≠ '"' ∧ c ≠ '\\' ∧ c ≠ '\n' := by
  rw [scope, Digest.shortHex, String.toList_ofList] at member
  obtain ⟨digit, bound, rfl⟩ := Digest.mem_hexChars (List.mem_of_mem_take member)
  exact digitChar_unescaped digit bound

/-- The edges of a graph are those that its nodes read along, each of them once. -/
theorem Graph.Built.edges_perm {g : Graph} (built : g.Built) :
    (g.nodes.flatMap fun n => (g.predecessors n.id).map fun producer =>
      (⟨producer, n.id⟩ : Edge)).Perm g.edges.toList := by
  have distinct : g.edges.toList.Nodup := g.edges.ascending.imp fun earlier same => by
    subst same
    rcases earlier with lower | ⟨-, lower⟩ <;> exact Nat.lt_irrefl _ lower
  have read : (g.nodes.flatMap fun n => (g.predecessors n.id).map fun producer =>
      (⟨producer, n.id⟩ : Edge)).Nodup := by
    refine List.nodup_flatMap.mpr ⟨fun n _ => ?_, ?_⟩
    · have producers : (g.predecessors n.id).Nodup := (g.predecessors_ascending n.id).imp Nat.ne_of_lt
      exact List.Nodup.map (fun _ _ same => (Edge.mk.inj same).1) producers
    · have ids : (g.nodes.map Node.id).Nodup := by
        rw [built.numbered.map_id]
        exact List.nodup_range
      refine (List.pairwise_map.mp ids).imp fun other e first second => other ?_
      obtain ⟨_, _, rfl⟩ := List.mem_map.mp first
      obtain ⟨_, _, same⟩ := List.mem_map.mp second
      exact (Edge.mk.inj same).2.symm
  refine (List.perm_ext_iff_of_nodup read distinct).mpr fun e => ?_
  simp only [List.mem_flatMap, List.mem_map, mem_predecessors]
  constructor
  · rintro ⟨n, -, producer, edge, rfl⟩
    exact edge
  · intro edge
    have inside := (built.inside e edge).2
    refine ⟨g.nodes[e.target], List.getElem_mem inside, e.source, ?_, ?_⟩ <;>
      rw [built.numbered e.target _ (List.getElem?_eq_getElem inside)]
    exact edge

/-- What is written on the node at a position, line by line: its name, its phases, what it does if that
is asked for, and where it writes. -/
def Node.caption (verbose : Bool) (position : Nat) (n : Node) : List String :=
  ["node-" ++ toString position,
    match n.reduce, n.combine with
    | [], _ => "map"
    | _ :: _, none => "map+reduce"
    | _ :: _, some _ => "map+combine+reduce"] ++
  (if verbose then n.ops.map LocalOp.display else []) ++
  [match n.output with
    | .final location _ => location
    | .temporary location => location]

namespace Explain

def vertexName (id : Nat) : String := "n" ++ toString id

def Drawing.vertices (d : Drawing) : List String := d.statements.filterMap fun
  | .vertex name _ => some name
  | _ => none

def Drawing.edges (d : Drawing) : List (String × String) := d.statements.filterMap fun
  | .edge source target => some (source, target)
  | _ => none

theorem labelLines_eq_caption (verbose : Bool) (n : Node) :
    labelLines verbose n = n.caption verbose n.id := by
  obtain ⟨id, map, combine, reduce, output, parallelism, annotations⟩ := n
  cases reduce <;> cases combine <;> cases output <;> rfl

/-- What the drawing of a graph says, spelled out. -/
theorem drawing_eq {g : Graph} (built : g.Built) (verbose : Bool) : drawing g verbose = {
    comments := banner
    name := g.scope
    statements := .default "node" "shape" "box" ::
      (g.nodes.mapIdx fun position n => .vertex (vertexName position) (n.caption verbose position)) ++
      g.edges.toList.map fun e => .edge (vertexName e.source) (vertexName e.target) } := by
  have boxes : g.nodes.map (box verbose) =
      g.nodes.mapIdx fun position n => .vertex (vertexName position) (n.caption verbose position) := by
    apply List.ext_getElem?
    intro position
    rw [List.getElem?_map, List.getElem?_mapIdx]
    cases there : g.nodes[position]? with
    | none => rfl
    | some n =>
      rw [Option.map_some, Option.map_some, box, labelLines_eq_caption, built.numbered position n there]
      rfl
  rw [drawing, boxes]
  rfl

theorem vertices_drawing (g : Graph) (verbose : Bool) :
    (drawing g verbose).vertices = g.nodes.map fun n => vertexName n.id := by
  simp [Drawing.vertices, drawing, box, arrow, vertexName, List.filterMap_map,
    Function.comp_def]

theorem edges_drawing (g : Graph) (verbose : Bool) :
    (drawing g verbose).edges = g.edges.toList.map fun e => (vertexName e.source, vertexName e.target) := by
  simp [Drawing.edges, drawing, box, arrow, vertexName, List.filterMap_map,
    Function.comp_def]

end Explain

open Explain

/-- What a drawing of a graph and its listing let a reader know. -/
structure Graph.Explained (g : Graph) : Prop where
  /-- Below the comments and the name of the drawing stand one vertex a node, in the order of the nodes,
  and one edge an edge, in ascending order. -/
  drawn : ∀ verbose, readDot (g.explain .dot verbose) = some {
    comments := [
      "#--------------------------------------------------",
      "# Map Reduce Plan                                  ",
      "#--------------------------------------------------"]
    name := g.scope
    statements := .default "node" "shape" "box" ::
      (g.nodes.mapIdx fun position n => .vertex (vertexName position) (n.caption verbose position)) ++
      g.edges.toList.map fun e => .edge (vertexName e.source) (vertexName e.target) }
  ascending : g.edges.toList.Pairwise fun e f =>
    e.source < f.source ∨ e.source = f.source ∧ e.target < f.target
  /-- The listing has the vertices of the drawing, and its edges, each of them once. -/
  agreed : (∀ s ∈ g.texts, OneLine s) → ∀ verbose listed, ∃ d parts,
    readDot (g.explain .dot verbose) = some d ∧ readListing (g.explain .text listed) = some parts ∧
      parts.map Prod.fst = List.range g.nodes.length ∧
      d.vertices = parts.map (fun part => vertexName part.1) ∧
      d.edges.Perm (parts.flatMap fun (id, producers) =>
        producers.map fun producer => (vertexName producer, vertexName id))

/-- A graph is explained by its drawing and its listing if its scope needs no escapes. -/
theorem Graph.Built.explained_of_plain {g : Graph} (built : g.Built)
    (plain : ∀ c ∈ g.scope.toList, c ≠ '"' ∧ c ≠ '\\' ∧ c ≠ '\n') : g.Explained := by
  have read (verbose : Bool) : readDot (g.explain .dot verbose) = some (drawing g verbose) :=
    readDot_dot (fun c member => ⟨(plain c member).1, (plain c member).2.1⟩) verbose
  have scope : OneLine g.scope := fun lineBreak => (plain _ lineBreak).2.2 rfl
  refine ⟨fun verbose => ?_, g.edges.ascending, fun each verbose listed => ?_⟩
  · rw [read, drawing_eq built]
    rfl
  · refine ⟨_, _, read verbose, readListing_listing scope each listed, ?_, ?_, ?_⟩
    · rw [List.map_map]
      exact built.numbered.map_id
    · rw [vertices_drawing, List.map_map]
      rfl
    · have same := built.edges_perm.symm.map fun e => (vertexName e.source, vertexName e.target)
      rw [List.map_flatMap] at same
      rw [edges_drawing, List.flatMap_map]
      simpa only [List.map_map, Function.comp_def] using same

/-- The graphs that come from plans, compiled or not, are explained by their drawings and listings. -/
theorem Plan.explained {p : Plan} {config : RunConfig} {g : Graph}
    (made : p.toGraph config = .ok g ∨ p.compile config = .ok g) : g.Explained := by
  obtain ⟨built, scope⟩ : g.Built ∧ g.scope = p.scope := by
    rcases made with drafted | compiled
    · exact ⟨(drafted_of_toGraph drafted).1, scope_of_toGraph drafted⟩
    · exact ⟨built_of_compile compiled, scope_of_compile compiled⟩
  exact built.explained_of_plain fun c member => p.scope_unescaped (scope ▸ member)

/-- The visits of the main page, kept as they are and counted by month. -/
def Plan.mainPage : Plan := ⟨[
  ⟨0, .load "logs\\visits" none, []⟩,
  ⟨1, .filter "page = \"main\"", [0]⟩,
  ⟨2, .group ["month"], [1]⟩,
  ⟨3, .aggregate [⟨.count, none, "visits"⟩], [2]⟩,
  ⟨4, .store "months" "json", [3]⟩,
  ⟨5, .store "kept" "json", [1]⟩]⟩

/-- There are a backslash and quotes in its graph, and two edges, but no line break. -/
theorem Plan.explained_mainPage : ∃ g, mainPage.compile .standard = .ok g ∧
    g.edges.toList = [⟨0, 1⟩, ⟨0, 2⟩] ∧ (∀ s ∈ g.texts, OneLine s) ∧ g.Explained := by
  obtain ⟨g, compiled, edges, texts⟩ : ∃ g, mainPage.compile .standard = .ok g ∧
      g.edges.toList = [⟨0, 1⟩, ⟨0, 2⟩] ∧ g.texts =
        let kept := Location.temporary RunConfig.standard.tempDir mainPage.scope 0
        ["logs\\visits", "page = \"main\"", kept, kept, "month", "visits", "month", "month", "visits",
          "month", "month", "visits", "months", "json", kept, "kept", "json"] := ⟨_, rfl, rfl, rfl⟩
  -- The scope is a digest, so it is not computed here.
  have scope : OneLine mainPage.scope := fun lineBreak => (mainPage.scope_unescaped lineBreak).2.2 rfl
  have kept : OneLine (Location.temporary RunConfig.standard.tempDir mainPage.scope 0) :=
    ((OneLine.append (by decide) scope).append (by decide)).append (.number 0)
  have others : ∀ s ∈ ["logs\\visits", "page = \"main\"", "month", "visits", "months", "json", "kept"],
      OneLine s := by decide
  simp only [List.forall_mem_cons] at others
  refine ⟨g, compiled, edges, ?_, explained (.inr compiled)⟩
  simp [texts, kept, others]

end Wavefront
