import Wavefront.CommandLine.Options
import Wavefront.Config.Setting
import Wavefront.Explain.Format
set_option autoImplicit false

/-!
The commands: running a plan on the simulated cluster, validating one, and explaining its job graph.
-/
namespace Wavefront.CommandLine

/-- What a run is asked to do. -/
structure RunOptions where
  plan : String
  group : String
  chunkSize : Option UInt64
  noCombiner : Bool
  pollMs : Option UInt64
  /-- The nodes whose jobs fail. -/
  failNodes : List Nat
  /-- Whether outputs are written and committed. -/
  commit : Bool
  json : Bool
deriving DecidableEq

inductive Command where
  | run (options : RunOptions)
  | validate (plan : String)
  | explain (plan : String) (format : ExplainFormat) (verbose : Bool)
deriving DecidableEq

/-- The settings of a run win over those of the plan. -/
def RunOptions.apply (o : RunOptions) (c : RunConfig) : RunConfig :=
  { c with
    lastInputChunkSize := o.chunkSize.getD c.lastInputChunkSize
    disableCombiner := o.noCombiner || c.disableCombiner
    pollIntervalMs := o.pollMs.getD c.pollIntervalMs }

def planOption : OptionSpec :=
  ⟨"plan", some 'p', some "PLAN", false, fun value => !value.isEmpty, "Path to the plan YAML file"⟩

def runOptions : List OptionSpec :=
  let isWord (value : String) : Bool := (word64? value).isSome
  [planOption,
    .valued "group" "GROUP" "Group id used in job names [default: jobwave]" fun _ => true,
    .valued "chunk-size" "CHUNK_SIZE"
      "Chunk-size hint for the combiner and join streaming (overrides config)" isWord,
    .switch "no-combiner" "Never insert a combine phase",
    .valued "poll-ms" "POLL_MS" "Poll interval in milliseconds (overrides config)" isWord,
    { OptionSpec.valued "fail-node" "FAIL_NODE" "Make the job running this node fail (repeatable)" isWord with
      repeatable := true },
    .switch "commit" "Write staging markers and move them into place on commit",
    .switch "json" "Print the run outcome as JSON"]

def explainOptions : List OptionSpec :=
  [planOption,
    .valued "format" "FORMAT" "text or dot [default: text]" fun value => (ExplainFormat.ofName value).isOk,
    .switch "verbose" "Include pass annotations"]

/-- A subcommand: its name, what it does, and its options. -/
structure Subcommand where
  name : String
  about : String
  options : List OptionSpec

def runSubcommand : Subcommand := ⟨"run", "Run a plan against the simulated cluster", runOptions⟩

def validateSubcommand : Subcommand :=
  ⟨"validate", "Validate a plan YAML file (syntax and structure)", [planOption]⟩

def explainSubcommand : Subcommand :=
  ⟨"explain", "Show the compiled job graph (EXPLAIN)", explainOptions⟩

def subcommands : List Subcommand := [runSubcommand, validateSubcommand, explainSubcommand]

/-- Two columns, the second aligned. -/
def columns (rows : List (String × String)) : String :=
  let width := ((rows.map fun row => row.1.length).max?).getD 0
  String.join (rows.map fun (left, right) =>
    "  " ++ left ++ String.ofList (List.replicate (width - left.length) ' ') ++ "  " ++ right ++ "\n")

/-- What a help text is about. -/
inductive Topic where
  | program
  | subcommand (subcommand : Subcommand)
  /-- The request for help itself. -/
  | help

def usageLine : Topic → String
  | .program => "Usage: jobwave <COMMAND>"
  | .subcommand s =>
    "Usage: jobwave " ++ s.name ++ (if 1 < s.options.length then " [OPTIONS]" else "") ++ " --plan <PLAN>"
  | .help => "Usage: jobwave help [COMMAND]..."

def helpAbout : String := "Print this message or the help of the given subcommand(s)"

def helpText (topic : Topic) : String :=
  match topic with
  | .program =>
    "Compile dataflow plans into waves of map/reduce jobs and drive them\n\n" ++ usageLine topic ++
      "\n\nCommands:\n" ++ columns (subcommands.map (fun s => (s.name, s.about)) ++ [("help", helpAbout)]) ++
      "\nOptions:\n" ++ columns [("-h, --help", "Print help")]
  | .subcommand s =>
    s.about ++ "\n\n" ++ usageLine topic ++ "\n\nOptions:\n" ++
      columns (s.options.map (fun o => (o.usage, o.about)) ++ [("-h, --help", "Print help")])
  | .help =>
    helpAbout ++ "\n\n" ++ usageLine topic ++ "\n\nArguments:\n" ++
      columns [("[COMMAND]...", "Print help for the subcommand(s)")]

/-- What a command line asks for. -/
inductive Invocation where
  | command (command : Command)
  | help (topic : Topic)
  | misuse (topic : Topic) (reason : String)

def Subcommand.invoke (s : Subcommand) (words : List String)
    (command : String → Given → Command) : Invocation :=
  match readOptions s.options [] words with
  | .error .help => .help (.subcommand s)
  | .error (.misuse reason) => .misuse (.subcommand s) reason
  | .ok given =>
    match given.value? planOption.name with
    | some plan => .command (command plan given)
    | none => .misuse (.subcommand s) "the following required arguments were not provided: --plan <PLAN>"

def runCommand (plan : String) (given : Given) : Command :=
  .run {
    plan := plan
    group := (given.value? "group").getD "jobwave"
    chunkSize := (given.value? "chunk-size").bind word64?
    noCombiner := given.has "no-combiner"
    pollMs := (given.value? "poll-ms").bind word64?
    failNodes := (given.values "fail-node").filterMap (Text.numeral? Text.wordBound)
    commit := given.has "commit"
    json := given.has "json" }

def explainCommand (plan : String) (given : Given) : Command :=
  let format := match (given.value? "format").map ExplainFormat.ofName with
    | some (.ok format) => format
    | _ => .text
  .explain plan format (given.has "verbose")

def helpInvocation : List String → Invocation
  | [] => .help .program
  | word :: rest =>
    match subcommands.find? fun s => s.name == word, rest with
    | some s, [] => .help (.subcommand s)
    | none, [] =>
      if word = "help" then .help .help else .misuse .program ("unrecognized subcommand '" ++ word ++ "'")
    | _, extra :: _ => .misuse .program ("unrecognized subcommand '" ++ extra ++ "'")

/-- What a command line asks for. -/
def invocation : List String → Invocation
  | [] => .misuse .program "a subcommand is required"
  | "run" :: rest => runSubcommand.invoke rest runCommand
  | "validate" :: rest => validateSubcommand.invoke rest fun plan _ => .validate plan
  | "explain" :: rest => explainSubcommand.invoke rest explainCommand
  | "help" :: rest => helpInvocation rest
  | word :: _ =>
    match option? [] word with
    | .error .help => .help .program
    | _ => .misuse .program ("unrecognized subcommand '" ++ word ++ "'")

end Wavefront.CommandLine
