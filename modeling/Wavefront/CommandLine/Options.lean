set_option autoImplicit false

/-!
Options on a command line. An option with a value takes it after an equals sign or from the next word; a
word that looks like an option is no value. Reading goes from left to right, so that a request for help
counts unless something before it is wrong.
-/
namespace Wavefront.CommandLine

/-- What an option looks like. -/
structure OptionSpec where
  /-- The name after two hyphens. -/
  name : String
  /-- The letter after one hyphen. Only options with a value have one. -/
  short : Option Char
  /-- What help texts call the value; a switch has none. -/
  valueName : Option String
  /-- Whether the option may be given more than once. -/
  repeatable : Bool
  /-- The values that are understood. -/
  accepts : String → Bool
  about : String

namespace OptionSpec

def valued (name valueName about : String) (accepts : String → Bool) : OptionSpec :=
  ⟨name, none, some valueName, false, accepts, about⟩

def switch (name about : String) : OptionSpec := ⟨name, none, none, false, fun _ => true, about⟩

def usage (o : OptionSpec) : String :=
  (match o.short with
    | some letter => "-" ++ letter.toString ++ ", "
    | none => "    ") ++
  "--" ++ o.name ++
  (match o.valueName with
    | some value => " <" ++ value ++ ">"
    | none => "")

def label (o : OptionSpec) : String :=
  "--" ++ o.name ++ match o.valueName with
    | some value => " <" ++ value ++ ">"
    | none => ""

end OptionSpec

/-- Why reading stops. -/
inductive Stop where
  | help
  | misuse (reason : String)
deriving DecidableEq, Repr

/-- The options that were given, with their values, in their order. A switch has the empty value. -/
abbrev Given := List (String × String)

namespace Given

def note (given : Given) (o : OptionSpec) (value : String) : Except Stop Given :=
  if !o.repeatable && (given.lookup o.name).isSome then
    .error (.misuse ("the argument '" ++ o.label ++ "' cannot be used multiple times"))
  else if o.accepts value then .ok (given ++ [(o.name, value)])
  else .error (.misuse ("invalid value '" ++ value ++ "' for '" ++ o.label ++ "'"))

def value? (given : Given) (name : String) : Option String := given.lookup name

def has (given : Given) (name : String) : Bool := (given.lookup name).isSome

def values (given : Given) (name : String) : List String :=
  (given.filter fun entry => entry.1 == name).map Prod.snd

end Given

/-- Whether a word looks like an option. A hyphen alone does not. -/
def isOptionLike (word : String) : Bool :=
  match word.toList with
  | '-' :: _ :: _ => true
  | _ => false

/-- A word that is an option: the option and the value attached to it. -/
def option? (specs : List OptionSpec) (word : String) : Except Stop (OptionSpec × Option String) :=
  let unexpected : Except Stop (OptionSpec × Option String) :=
    .error (.misuse ("unexpected argument '" ++ word ++ "' found"))
  let known (o : Option OptionSpec) (attached : Option String) :=
    match o with
    | some o => if o.valueName.isNone && attached.isSome then unexpected else .ok (o, attached)
    | none => unexpected
  match word.toList with
  | '-' :: '-' :: body =>
    let name := String.ofList (body.takeWhile (· != '='))
    let attached := match body.dropWhile (· != '=') with
      | _ :: value => some (String.ofList value)
      | [] => none
    if name = "help" ∧ attached.isNone then .error .help
    else known (specs.find? fun o => o.name == name) attached
  | '-' :: letter :: body =>
    let attached := match body with
      | [] => none
      | '=' :: value => some (String.ofList value)
      | value => some (String.ofList value)
    if letter = 'h' then .error .help
    else known (specs.find? fun o => o.short == some letter) attached
  | _ => unexpected

def readOptions (specs : List OptionSpec) (given : Given) : List String → Except Stop Given
  | [] => .ok given
  | word :: rest =>
    if word = "--" then
      match rest with
      | [] => .ok given
      | extra :: _ => .error (.misuse ("unexpected argument '" ++ extra ++ "' found"))
    else
      match option? specs word with
      | .error stop => .error stop
      | .ok (o, some value) => (given.note o value).bind fun given => readOptions specs given rest
      | .ok (o, none) =>
        if o.valueName.isNone then (given.note o "").bind fun given => readOptions specs given rest
        else
          match rest with
          | value :: rest =>
            if isOptionLike value then
              .error (.misuse ("a value is required for '" ++ o.label ++ "' but none was supplied"))
            else (given.note o value).bind fun given => readOptions specs given rest
          | [] =>
            .error (.misuse ("a value is required for '" ++ o.label ++ "' but none was supplied"))

end Wavefront.CommandLine
