import Wavefront.Graph.Basic
import Wavefront.Proofs.Files.Output
import Wavefront.Run.Materialization
set_option autoImplicit false

/-!
The outputs of a run in a tree of files. Each node has a place in staging and a place where its output
belongs; each of the two is bare or holds the complete output. Main statement: where no output is in the
way of another, each step of a run changes what is at the places of one node and leaves all others as they
are.
-/
namespace Wavefront

/-- A place holds a complete output, or it is bare. -/
def FileTree.Holds (t : FileTree) (p : Place) : Bool → Prop
  | true => t.Complete p
  | false => t.Bare p

namespace FileTree.Holds

variable {t t' : FileTree} {p : Place} {there : Bool}

theorem keeps (holds : t.Holds p there) (keeps : t.Keeps t' p) : t'.Holds p there := by
  cases there with
  | true => exact keeps.complete holds
  | false => exact keeps.bare holds

theorem isOk_find {path : String} (plain : Path.Plain path) (holds : t.Holds (place path) there) :
    (t.find path).isOk = there := by
  cases there with
  | true => exact Complete.isOk_find plain holds
  | false => exact Bare.isOk_find plain holds

end FileTree.Holds

def Node.stagingPath (n : Node) (c : RunConfig) (g : Graph) (group : String) : String :=
  Location.staging c.tempDir g.scope group n.id

def Node.stagingPlace (n : Node) (c : RunConfig) (g : Graph) (group : String) : Place :=
  FileTree.place (n.stagingPath c g group)

def Node.outputPlace (n : Node) : Place := FileTree.place n.output.location

/-- All paths of a run can be followed, and no output is in the way of another. -/
structure Graph.Spread (g : Graph) (c : RunConfig) (group : String) : Prop where
  staging : ∀ n ∈ g.nodes, Path.Plain (n.stagingPath c g group)
  marked : ∀ n ∈ g.nodes, Path.Passable (Path.join (n.stagingPath c g group) Simulation.marker)
  output : ∀ n ∈ g.nodes, Path.Plain n.output.location
  stagings : ∀ n ∈ g.nodes, ∀ other ∈ g.nodes, n ≠ other →
    Place.Apart (n.stagingPlace c g group) (other.stagingPlace c g group)
  outputs : ∀ n ∈ g.nodes, ∀ other ∈ g.nodes, n ≠ other → Place.Apart n.outputPlace other.outputPlace
  between : ∀ n ∈ g.nodes, ∀ other ∈ g.nodes,
    Place.Apart (n.stagingPlace c g group) other.outputPlace

/-- The outputs of some nodes are in staging, those of some are where they belong, and there are no
others. -/
def Graph.Stocked (g : Graph) (c : RunConfig) (group : String) (staged placed : Node → Bool)
    (t : FileTree) : Prop :=
  ∀ n ∈ g.nodes, t.Holds (n.stagingPlace c g group) (staged n) ∧ t.Holds n.outputPlace (placed n)

namespace Graph.Stocked

variable {g : Graph} {c : RunConfig} {group : String} {staged placed : Node → Bool} {t t' : FileTree}
  {n : Node}

theorem congr {staged' placed' : Node → Bool} (stocked : g.Stocked c group staged placed t)
    (same : ∀ n ∈ g.nodes, staged' n = staged n) (same' : ∀ n ∈ g.nodes, placed' n = placed n) :
    g.Stocked c group staged' placed' t := by
  intro n member
  rw [same n member, same' n member]
  exact stocked n member

theorem isOk_find (stocked : g.Stocked c group staged placed t) (spread : g.Spread c group)
    (member : n ∈ g.nodes) : (t.find n.output.location).isOk = placed n :=
  (stocked n member).2.isOk_find (spread.output n member)

/-- A step about one output leaves the others where they are. -/
theorem update (spread : g.Spread c group) (stocked : g.Stocked c group staged placed t)
    (member : n ∈ g.nodes) {x y : Bool} (source : t'.Holds (n.stagingPlace c g group) x)
    (target : t'.Holds n.outputPlace y)
    (others : ∀ p, Place.Apart (n.stagingPlace c g group) p → Place.Apart n.outputPlace p →
      t.Keeps t' p) :
    g.Stocked c group (Function.update staged n x) (Function.update placed n y) t' := by
  intro other among
  by_cases same : other = n
  · rw [same, Function.update_self, Function.update_self]
    exact ⟨source, target⟩
  · rw [Function.update_of_ne same, Function.update_of_ne same]
    refine ⟨(stocked other among).1.keeps (others _ ?_ ?_),
      (stocked other among).2.keeps (others _ ?_ ?_)⟩
    · exact spread.stagings n member other among (Ne.symm same)
    · exact (spread.between other among n member).symm
    · exact spread.between n member other among
    · exact spread.outputs n member other among (Ne.symm same)

section Acts

variable {m : Type → Type} [Monad m] [LawfulMonad m] {W : Type} [Stateful m W]

/-- A job that succeeds stages its output. -/
theorem stage (spread : g.Spread c group) (stocked : g.Stocked c group staged placed t)
    (member : n ∈ g.nodes) (unstaged : staged n = false) (w : W) :
    ∃ t', (Simulation.writeMarker (FileTree.fileSystem : FileSystem (StateT FileTree m))
        (n.stagingPath c g group)).act (t, w) = (.ok (), (t', w)) ∧
      g.Stocked c group (Function.update staged n true) placed t' := by
  obtain ⟨source, target⟩ := stocked n member
  rw [unstaged] at source
  obtain ⟨t', written, complete, others⟩ := FileTree.writeMarker_act (m := m) (spread.staging n member)
    (spread.marked n member) source w
  refine ⟨t', written, ?_⟩
  rw [← Function.update_eq_self n placed]
  refine stocked.update spread member complete ?_ fun p away _ => others p away
  exact target.keeps (others _ (spread.between n member n member))

/-- To commit a job takes its output where it belongs, if nothing is there. -/
theorem commit (spread : g.Spread c group) (stocked : g.Stocked c group staged placed t)
    (member : n ∈ g.nodes) (complete : staged n = true) (free : placed n = false) (id : Nat) (w : W) :
    ∃ t', ((Committer.onFiles (FileTree.fileSystem : FileSystem (StateT FileTree m))).commit
        (n.job c g.scope group id)).act (t, w) = (.ok (), (t', w)) ∧
      g.Stocked c group (Function.update staged n false) (Function.update placed n true) t' := by
  obtain ⟨source, target⟩ := stocked n member
  rw [complete] at source
  rw [free] at target
  obtain ⟨t', committed, bare, complete, others⟩ := FileTree.commit_act (m := m)
    (n.job c g.scope group id) (spread.staging n member) (spread.output n member) source target
    (spread.between n member n member) w
  exact ⟨t', committed, stocked.update spread member bare complete others⟩

/-- A final output is not replaced. -/
theorem commit_refused (spread : g.Spread c group) (stocked : g.Stocked c group staged placed t)
    (member : n ∈ g.nodes) (complete : staged n = true) (taken : placed n = true)
    (final : n.output.isTemporary = false) (id : Nat) (w : W) :
    ((Committer.onFiles (FileTree.fileSystem : FileSystem (StateT FileTree m))).commit
        (n.job c g.scope group id)).act (t, w) =
      (.error (.destinationExists n.output.location), (t, w)) := by
  exact FileTree.commit_act_of_taken (m := m) (n.job c g.scope group id)
    (((stocked n member).1.isOk_find (spread.staging n member)).trans complete)
    ((stocked.isOk_find spread member).trans taken) final w

/-- To discard a job takes its output away if it is temporary. -/
theorem discard (spread : g.Spread c group) (stocked : g.Stocked c group staged placed t)
    (member : n ∈ g.nodes) (id : Nat) (w : W) :
    ∃ t', ((Committer.onFiles (FileTree.fileSystem : FileSystem (StateT FileTree m))).discard
        (n.job c g.scope group id)).act (t, w) = (.ok (), (t', w)) ∧
      g.Stocked c group staged
        (Function.update placed n (!n.output.isTemporary && placed n)) t' := by
  obtain ⟨source, target⟩ := stocked n member
  have settled : t.Complete n.outputPlace ∨ t.Bare n.outputPlace := by
    cases there : placed n with
    | true =>
      rw [there] at target
      exact .inl target
    | false =>
      rw [there] at target
      exact .inr target
  obtain ⟨t', dropped, own, others⟩ := FileTree.discard_act (m := m) (n.job c g.scope group id)
    (spread.output n member) settled w
  refine ⟨t', dropped, ?_⟩
  have is : (n.job c g.scope group id).temporary = n.output.isTemporary := rfl
  rw [is] at own
  cases temporary : n.output.isTemporary with
  | true =>
    rw [temporary, if_pos rfl] at own
    rw [← Function.update_eq_self n staged]
    refine stocked.update spread member ?_ own fun p _ away => others p away
    exact source.keeps (others _ (spread.between n member n member).symm)
  | false =>
    rw [temporary, if_neg Bool.false_ne_true] at own
    rw [own, Bool.not_false, Bool.true_and, Function.update_eq_self]
    exact stocked

end Acts

end Graph.Stocked

end Wavefront
