import Wavefront.Json.Decode
set_option autoImplicit false

/-!
Record schemas. A schema is the list of a record's fields in their order; names may repeat, and a look-up
by name finds the first.
-/
namespace Wavefront

/-- The type of a field. -/
inductive DataType where
  | boolean | int32 | int64 | float32 | float64 | utf8 | binary
deriving DecidableEq, Repr, Inhabited

namespace DataType

def isInteger (t : DataType) : Bool := t == .int32 || t == .int64

def isFloat (t : DataType) : Bool := t == .float32 || t == .float64

def name : DataType → String
  | .boolean => "Boolean"
  | .int32 => "Int32"
  | .int64 => "Int64"
  | .float32 => "Float32"
  | .float64 => "Float64"
  | .utf8 => "Utf8"
  | .binary => "Binary"

def all : List DataType := [.boolean, .int32, .int64, .float32, .float64, .utf8, .binary]

def toJson (t : DataType) : Json := .str t.name

def ofJson? (tagged : Bool) (j : Json) : Option DataType :=
  Json.bareCase? (all.map fun t => (t.name, t)) tagged j

end DataType

/-- A named column of a record. -/
structure Field where
  name : String
  dataType : DataType
  nullable : Bool
deriving DecidableEq, Repr, Inhabited

namespace Field

def toJson (f : Field) : Json :=
  .obj [("name", .str f.name), ("data_type", f.dataType.toJson), ("nullable", .bool f.nullable)]

def ofJson? (tagged : Bool) (j : Json) : Option Field := do
  let members ← Json.record? ["name", "data_type", "nullable"] j
  return {
    name := ← Json.field? members "name" Json.text?
    dataType := ← Json.field? members "data_type" (DataType.ofJson? tagged)
    nullable := ← Json.field? members "nullable" Json.bool? }

end Field

/-- The columns of a record, in order. -/
structure Schema where
  fields : List Field
deriving DecidableEq, Repr, Inhabited

namespace Schema

/-- The first field of a name. -/
def field? (s : Schema) (name : String) : Option Field := s.fields.find? (·.name == name)

/-- The position of the first field of a name. -/
def indexOf? (s : Schema) (name : String) : Option Nat := s.fields.findIdx? (·.name == name)

/-- The named columns in the order they are asked for; nothing if one of them is missing. -/
def project? (s : Schema) (columns : List String) : Option Schema := (columns.mapM s.field?).map Schema.mk

/-- Schemas side by side. -/
def concat (parts : List Schema) : Schema := ⟨parts.flatMap Schema.fields⟩

def toJson (s : Schema) : Json := .obj [("fields", Json.list Field.toJson s.fields)]

def ofJson? (tagged : Bool) (j : Json) : Option Schema := do
  let members ← Json.record? ["fields"] j
  return ⟨← Json.field? members "fields" (Json.list? (Field.ofJson? tagged))⟩

end Schema

end Wavefront
