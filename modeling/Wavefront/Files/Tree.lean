import Wavefront.Files.Basic
import Wavefront.Files.Path
set_option autoImplicit false

/-!
A tree of files. Directories and files are listed by their places, a place being the names that lead to
it; the place without names is the directory that relative paths start from, and absolute paths lead
through a name of their own. What lies around the starting directory is reached by double dots. Links
there are none.
-/
namespace Wavefront

/-- What is at a place. -/
inductive FileEntry where
  | directory
  | file (text : String)
deriving DecidableEq, Repr

/-- The names that lead to a file or a directory. -/
abbrev Place := List String

/-- A tree of files: everything below the starting directory. -/
structure FileTree where
  entries : List (Place × FileEntry)
deriving DecidableEq, Repr

namespace FileTree

/-- The tree without files. -/
def empty : FileTree := ⟨[]⟩

/-- What is at a place. The starting directory and those around it are always there. -/
def get? (t : FileTree) (p : Place) : Option FileEntry :=
  if p.all fun name => name == "/" || name == ".." then some .directory else t.entries.lookup p

def put (t : FileTree) (p : Place) (e : FileEntry) : FileTree :=
  ⟨t.entries.filter (·.1 != p) ++ [(p, e)]⟩

/-- Whether a place lies outside the starting directory. -/
def isOutside (p : Place) : Bool := p.head? == some "/" || p.head? == some ".."

/-- Whether a place is another one or below it. -/
def isWithin (p above : Place) : Bool := above.isPrefixOf p && isOutside p == isOutside above

def isBelow (p above : Place) : Bool := p != above && isWithin p above

def remove (t : FileTree) (p : Place) : FileTree := ⟨t.entries.filter fun e => !isWithin e.1 p⟩

/-- Removes everything below a place. -/
def clear (t : FileTree) (p : Place) : FileTree := ⟨t.entries.filter fun e => !isBelow e.1 p⟩

def move (t : FileTree) (source target : Place) : FileTree :=
  ⟨t.entries.map fun e =>
    if isWithin e.1 source then (target ++ e.1.drop source.length, e.2) else e⟩

/-- The place that absolute paths start from. -/
def root : Place := ["/"]

/-- The place that a path starts from. -/
def origin (path : String) : Place := if Path.isAbsolute path then root else []

/-- The place one directory up. -/
def above (p : Place) : Place :=
  if p = root then p else if p.all (· == "..") then p ++ [".."] else p.dropLast

/-- The place of a name in a directory; fails for a name of more than 255 bytes. -/
def placeIn (p : Place) (name : String) : Except FileFault Place :=
  if name = "." then .ok p
  else if name = ".." then .ok (above p)
  else if 255 < name.utf8ByteSize then .error .nameTooLong
  else .ok (p ++ [name])

/-- Walks from directory to directory along some names. -/
def walk (t : FileTree) (p : Place) : List String → Except FileFault Place
  | [] => .ok p
  | name :: rest => do
    let next ← placeIn p name
    match t.get? next with
    | some .directory => walk t next rest
    | some (.file _) => throw .notADirectory
    | none => throw .notFound

/-- The names on a path that can be walked: it has characters, fewer than 4096 bytes of them, and no zero
character. -/
def namesOn (path : String) : Except FileFault (List String) :=
  if path.toList.contains (Char.ofNat 0) then .error .zeroCharacter
  else if path.isEmpty then .error .notFound
  else if 4096 ≤ path.utf8ByteSize then .error .nameTooLong
  else .ok (Path.names path)

/-- The directory that the last name of a path is looked up in, and that name. -/
def locate (t : FileTree) (path : String) : Except FileFault (Place × String) := do
  let names ← namesOn path
  return (← t.walk (origin path) names.dropLast, names.getLast?.getD ".")

def find (t : FileTree) (path : String) : Except FileFault (Place × FileEntry) := do
  let (p, last) ← t.locate path
  let p ← placeIn p last
  match t.get? p with
  | none => throw .notFound
  | some .directory => return (p, .directory)
  | some (.file text) => if Path.endsInSlash path then throw .notADirectory else return (p, .file text)

/-- The place that a path names; fails with a given fault where the path ends in dots. -/
def namedPlace (t : FileTree) (path : String) (dots : FileFault) : Except FileFault Place := do
  let (p, last) ← t.locate path
  if last = "." ∨ last = ".." then throw dots
  placeIn p last

def makeDirectory (t : FileTree) (path : String) : Except FileFault FileTree := do
  let p ← t.namedPlace path .alreadyExists
  if (t.get? p).isSome then throw .alreadyExists
  return t.put p .directory

def isEmptyAt (t : FileTree) (p : Place) : Bool := !t.entries.any (isBelow ·.1 p)

/-- A directory can be moved to where nothing is or onto an empty directory. -/
def moveDirectory (t : FileTree) (source target : Place) : Except FileFault FileTree :=
  match t.get? target with
  | none => .ok (t.move source target)
  | some (.file _) => .error .notADirectory
  | some .directory =>
    if t.isEmptyAt target then .ok ((t.remove target).move source target) else .error .notEmpty

/-- A file can be moved to where nothing is or onto a file. -/
def moveFile (t : FileTree) (source target : Place) (text : String) : Except FileFault FileTree :=
  match t.get? target with
  | some .directory => .error .isADirectory
  | _ => .ok ((t.remove source).put target (.file text))

/-- Moves what one path names to where another one names. Nothing is moved below itself or onto what it
lies in, and the path of a file ends in no slash. -/
def rename (t : FileTree) (source target : String) : Except FileFault FileTree := do
  let p ← t.namedPlace source .busy
  let q ← t.namedPlace target .busy
  let slash := Path.endsInSlash source || Path.endsInSlash target
  match t.get? p with
  | none => throw .notFound
  | some .directory =>
    if isBelow q p then throw .invalid
    if isBelow p q then throw .notEmpty
    if p = q then return t else t.moveDirectory p q
  | some (.file text) =>
    if slash then throw .notADirectory
    if p = q then return t else t.moveFile p q text

def writeFile (t : FileTree) (path text : String) : Except FileFault FileTree := do
  let p ← t.namedPlace path .isADirectory
  match t.get? p with
  | some .directory => throw .isADirectory
  | _ => if Path.endsInSlash path then throw .isADirectory else return t.put p (.file text)

def removeFile (t : FileTree) (path : String) : Except FileFault FileTree := do
  let p ← t.namedPlace path .isADirectory
  match t.get? p with
  | none => throw .notFound
  | some .directory => throw .isADirectory
  | some (.file _) => if Path.endsInSlash path then throw .notADirectory else return t.remove p

def removeEmptyDirectory (t : FileTree) (path : String) : Except FileFault FileTree := do
  let p ← t.namedPlace path .invalid
  match t.get? p with
  | none => throw .notFound
  | some (.file _) => throw .notADirectory
  | some .directory => if t.isEmptyAt p then return t.remove p else throw .notEmpty

/-- Removes a directory with all it holds. It is cleared and then looked up once more: a path that ends
in a dot names a directory that cannot be removed, and a path that leads through the directory and back
leads nowhere by then, which does no harm. -/
def removeDirectory (t : FileTree) (path : String) : FileTree × Option FileFault :=
  match t.find path with
  | .error fault => (t, some fault)
  | .ok (_, .file _) => (t, some .notADirectory)
  | .ok (p, .directory) =>
    let cleared := t.clear p
    match cleared.removeEmptyDirectory path with
    | .ok removed => (removed, none)
    | .error .notFound => (cleared, none)
    | .error fault => (cleared, some fault)

def readFile (t : FileTree) (path : String) : Except FileFault String := do
  match ← t.find path with
  | (_, .directory) => throw .isADirectory
  | (_, .file text) => return text

/-- A change that leaves the tree alone where it fails. -/
def change {m : Type → Type} [Monad m] (f : FileTree → Except FileFault FileTree) :
    Step (StateT FileTree m) FileFault Unit :=
  ExceptT.mk fun t =>
    match f t with
    | .ok t' => pure (.ok (), t')
    | .error fault => pure (.error fault, t)

/-- A change that may stop halfway. -/
def partialChange {m : Type → Type} [Monad m] (f : FileTree → FileTree × Option FileFault) :
    Step (StateT FileTree m) FileFault Unit :=
  ExceptT.mk fun t =>
    match f t with
    | (t', none) => pure (.ok (), t')
    | (t', some fault) => pure (.error fault, t')

def hasDirectory (t : FileTree) (path : String) : Bool :=
  match t.find path with
  | .ok (_, .directory) => true
  | _ => false

def fileSystem {m : Type → Type} [Monad m] : FileSystem (StateT FileTree m) where
  isPresent path := return ((← get).find path).isOk
  isDirectory path := return (← get).hasDirectory path
  readFile path := ExceptT.mk do return (← get).readFile path
  writeFile path text := change fun t => t.writeFile path text
  makeDirectory path := change fun t => t.makeDirectory path
  rename source target := change fun t => t.rename source target
  removeDirectory path := partialChange fun t => t.removeDirectory path
  removeFile path := change fun t => t.removeFile path

/-- A line for everything in the tree that relative paths lead to: a directory by its path and a slash, a
file by its path and its text. -/
def listing (t : FileTree) : List String :=
  let lines := (t.entries.filter fun e => !isOutside e.1).map fun e =>
    String.intercalate "/" e.1 ++ match e.2 with
      | .directory => "/"
      | .file text => "=" ++ text
  lines.mergeSort (· ≤ ·)

end FileTree

end Wavefront
