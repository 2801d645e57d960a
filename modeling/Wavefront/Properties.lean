import Wavefront.Ascending
import Wavefront.Json.Decode
set_option autoImplicit false

/-!
Property maps: texts by name, kept in ascending order of the names, so that two maps with the same
look-ups are the same value.
-/
namespace Wavefront

/-- Texts by name. -/
structure Properties where
  entries : List (String × String)
  ascending : Ascending Prod.fst entries
deriving DecidableEq

namespace Properties

def empty : Properties := ⟨[], .nil⟩

instance : Inhabited Properties := ⟨empty⟩

def insert (p : Properties) (name value : String) : Properties :=
  ⟨Ascending.place Prod.fst (name, value) p.entries, Ascending.place_ascending _ p.ascending⟩

def get? (p : Properties) (name : String) : Option String := p.entries.lookup name

def size (p : Properties) : Nat := p.entries.length

def insertAll (p : Properties) (entries : List (String × String)) : Properties :=
  entries.foldl (fun p entry => p.insert entry.1 entry.2) p

/-- The map of some entries, a later entry replacing an earlier one of the same name. -/
def ofList (entries : List (String × String)) : Properties := empty.insertAll entries

def toJson (p : Properties) : Json := .obj (p.entries.map fun entry => (entry.1, .str entry.2))

def ofJson? : Json → Option Properties
  | .obj members =>
    (members.mapM fun member => (Json.text? member.2).map fun text => (member.1, text)).map ofList
  | _ => none

end Properties

end Wavefront
