set_option autoImplicit false

/-!
Paths as texts: names between slashes. Empty names count for nothing, a single dot stays where it is, two
dots lead one directory up.
-/
namespace Wavefront.Path

/-- The names between the slashes of a path. -/
def parts : List Char → List (List Char)
  | [] => [[]]
  | '/' :: rest => [] :: parts rest
  | c :: rest =>
    match parts rest with
    | [] => [[c]]
    | part :: others => (c :: part) :: others

/-- The names on a path, single and double dots among them. -/
def names (path : String) : List String :=
  ((parts path.toList).filter fun part => !part.isEmpty).map String.ofList

def isAbsolute (path : String) : Bool := path.toList.head? == some '/'

/-- Whether a path ends in a slash, so that it can only name a directory. -/
def endsInSlash (path : String) : Bool := path.toList.getLast? == some '/'

/-- Drops slashes and single dots at the end of a reversed path, but neither a slash nor a dot that is
all of it. -/
def trimReversed : List Char → List Char
  | '/' :: c :: rest => trimReversed (c :: rest)
  | '.' :: '/' :: rest => trimReversed ('/' :: rest)
  | cs => cs

/-- The path without its last name; a path without a name has none. -/
def parent? (path : String) : Option String :=
  let reversed := trimReversed path.toList.reverse
  if reversed = [] ∨ reversed = ['/'] then none
  else
    let above := reversed.dropWhile (· != '/')
    some (String.ofList (trimReversed above).reverse)

/-- A path, the path it lies in, and so on up to where a path starts. -/
def lineage (path : String) : List String :=
  let rec go : (fuel : Nat) → String → List String
    | 0, _ => []
    | fuel + 1, path =>
      if path.isEmpty then []
      else path :: match parent? path with
        | some parent => go fuel parent
        | none => []
  go (path.length + 1) path

def join (path name : String) : String :=
  if path.toList.getLast? == some '/' || path.isEmpty then path ++ name else path ++ "/" ++ name

end Wavefront.Path
