import Wavefront.Files.Path
import Wavefront.Step
set_option autoImplicit false

/-!
File systems by what can be asked of them and done to them. Whatever runs and commits jobs works with
any of them; failures come with the words of the operating system.
-/
namespace Wavefront

/-- Why an operation on files fails. -/
inductive FileFault where
  | notFound | notADirectory | isADirectory | alreadyExists | notEmpty | invalid | busy | nameTooLong
  /-- A path with a character that no path can hold. -/
  | zeroCharacter
  | other (text : String)
deriving DecidableEq, Repr

def FileFault.message : FileFault → String
  | .notFound => "No such file or directory (os error 2)"
  | .notADirectory => "Not a directory (os error 20)"
  | .isADirectory => "Is a directory (os error 21)"
  | .alreadyExists => "File exists (os error 17)"
  | .notEmpty => "Directory not empty (os error 39)"
  | .invalid => "Invalid argument (os error 22)"
  | .busy => "Device or resource busy (os error 16)"
  | .nameTooLong => "File name too long (os error 36)"
  | .zeroCharacter => "file name contained an unexpected NUL byte"
  | .other text => text

/-- The files of a world. -/
structure FileSystem (m : Type → Type) where
  /-- Whether there is something at a path. -/
  isPresent : String → m Bool
  /-- Whether there is a directory at a path. -/
  isDirectory : String → m Bool
  /-- The text of a file. -/
  readFile : String → Step m FileFault String
  /-- Writes a file, replacing one that is there. -/
  writeFile : String → String → Step m FileFault Unit
  /-- Makes a directory in a directory that is there. -/
  makeDirectory : String → Step m FileFault Unit
  /-- Moves what is at a path to another path. -/
  rename : String → String → Step m FileFault Unit
  /-- Removes a directory and all it holds. -/
  removeDirectory : String → Step m FileFault Unit
  /-- Removes a file. -/
  removeFile : String → Step m FileFault Unit

namespace FileSystem

/-- The files of a world are files of every world around it. -/
def widen {m n : Type → Type} [MonadLift m n] (fs : FileSystem m) : FileSystem n where
  isPresent path := MonadLift.monadLift (fs.isPresent path)
  isDirectory path := MonadLift.monadLift (fs.isDirectory path)
  readFile path := (fs.readFile path).widen
  writeFile path text := (fs.writeFile path text).widen
  makeDirectory path := (fs.makeDirectory path).widen
  rename source target := (fs.rename source target).widen
  removeDirectory path := (fs.removeDirectory path).widen
  removeFile path := (fs.removeFile path).widen

variable {m : Type → Type} [Monad m]

/-- Makes a directory, unless it is there. -/
def ensureDirectory (fs : FileSystem m) (path : String) : Step m FileFault Unit :=
  tryCatch (fs.makeDirectory path) fun fault => do
    if !(← fs.isDirectory path) then throw fault

/-- Makes the first of some directories, each of which lies in the next. The others are asked for only
where the first cannot be made without them. -/
def ensureLineage (fs : FileSystem m) : List String → Step m FileFault Unit
  | [] => pure ()
  | path :: above =>
    tryCatch (fs.ensureDirectory path) fun fault =>
      if fault = .notFound then do
        fs.ensureLineage above
        fs.ensureDirectory path
      else throw fault

/-- Makes a directory and the directories above it that are missing; those made before a failure stay. -/
def createDirectories (fs : FileSystem m) (path : String) : Step m FileFault Unit :=
  fs.ensureLineage (Path.lineage path)

def remove (fs : FileSystem m) (path : String) : Step m FileFault Unit := do
  if ← fs.isDirectory path then fs.removeDirectory path else fs.removeFile path

end FileSystem

end Wavefront
