import Wavefront.CommandLine.Execution
set_option autoImplicit false

/-!
The program: commands on the files, the environment and the clock of this machine.
-/
namespace Wavefront

/-- A fault of a number that the operating system gives. Some numbers come with their sign turned. -/
def FileFault.ofCode (code : UInt32) (details : String) : FileFault :=
  let number := min code (0 - code)
  if number = 2 then .notFound
  else if number = 16 then .busy
  else if number = 17 then .alreadyExists
  else if number = 20 then .notADirectory
  else if number = 21 then .isADirectory
  else if number = 22 then .invalid
  else if number = 36 then .nameTooLong
  else if number = 39 then .notEmpty
  else .other (details ++ " (os error " ++ toString number.toNat ++ ")")

def FileFault.ofFailure : IO.Error → FileFault
  | .alreadyExists _ code details | .inappropriateType _ code details
  | .invalidArgument _ code details | .permissionDenied _ code details
  | .resourceExhausted _ code details | .noSuchThing _ code details
  | .interrupted _ code details | .noFileOrDirectory _ code details
  | .otherError code details | .resourceBusy code details | .resourceVanished code details
  | .unsupportedOperation code details | .hardwareFault code details
  | .unsatisfiedConstraints code details | .illegalOperation code details
  | .protocolError code details | .timeExpired code details => .ofCode code details
  | .unexpectedEof => .other "unexpected end of file"
  | .userError text => .other text

def onDisk {α : Type} (action : IO α) : Step IO FileFault α :=
  ExceptT.mk do
    match ← action.toBaseIO with
    | .ok x => return .ok x
    | .error e => return .error (.ofFailure e)

def resolves (path : String) : IO Bool := do
  if path.isEmpty then return false
  match ← (IO.FS.realPath path).toBaseIO with
  | .ok _ => return true
  | .error _ => return false

def disk : FileSystem IO where
  isPresent := resolves
  isDirectory path := if path.isEmpty then return false else resolves (path ++ "/.")
  readFile path := onDisk (IO.FS.readFile path)
  writeFile path text := onDisk (IO.FS.writeFile path text)
  makeDirectory path := onDisk (IO.FS.createDir path)
  rename source target := onDisk (IO.FS.rename source target)
  removeDirectory path := onDisk (IO.FS.removeDirAll path)
  removeFile path := onDisk (IO.FS.removeFile path)

def newRunId : IO RunId := do
  let bytes ← IO.getRandomBytes 16
  return .ofRandom (.ofNat 128 (bytes.toList.foldl (fun n byte => n * 256 + byte.toNat) 0))

def machine : IO (CommandLine.Machine IO) := do
  let settings ← Setting.all.filterMapM fun s => do
    return (← IO.getEnv s.environmentName).map fun value => (s.environmentName, value)
  return {
    files := disk
    environment := fun name => settings.lookup name
    sleep := fun milliseconds => IO.sleep milliseconds.toUInt32
    newRunId := newRunId }

end Wavefront

def main (words : List String) : IO UInt32 := do
  let report ← Wavefront.CommandLine.serve (← Wavefront.machine) words
  IO.print report.output
  IO.eprint report.complaint
  return report.exit.toUInt32
