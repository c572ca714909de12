import FarmLink.Text.Basic

/-!
# Option - command lines as settings and operands

Arguments that begin with a dash are options, the others operands. A long option has its value
behind an equals sign or in the next argument; short options may stand together behind one dash,
and what follows one that takes a value is the value. Two dashes alone end the options.

These are the rules of the option parser that the program is built on, a library that is taken from
its documentation: a long option is given by its whole name, what stands in the place of a value is
the value whatever it looks like, and an option that the table does not have is refused.
-/

namespace FarmLink.Cli

/-- What an option sets. -/
inductive Setting
  | help
  | version
  | completion
  | port
  | encoding
  | portMap
  | rawRouter
  | verbose
  | json
  | hex
deriving DecidableEq, Repr

/-- An option: its long name, its letter if it has one, and whether it takes a value. -/
structure OptionSpec where
  setting : Setting
  long : Text
  letter : Option CodePoint := none
  takesValue : Bool := false
deriving DecidableEq, Repr

/-- A setting with its value, if it takes one. -/
abbrev Given := Setting × Option Text

/-- What an argument of options says: its settings, and a last one whose value is in the next
argument. -/
structure OptionArgument where
  settings : List Given := []
  pending : Option Setting := none
deriving DecidableEq, Repr

/-- A command line: settings in order, and operands in order. -/
structure Arguments where
  settings : List Given := []
  operands : List Text := []
deriving DecidableEq, Repr

/-- A long option, with the value behind its equals sign if there is one. -/
def readLong (spec : OptionSpec) (value : Option Text) : Option OptionArgument :=
  if spec.takesValue then
    match value with
    | some v => some { settings := [(spec.setting, some v)] }
    | none => some { pending := some spec.setting }
  else
    match value with
    | some _ => none
    | none => some { settings := [(spec.setting, none)] }

/-- Short options behind one dash. -/
def readShort (specs : List OptionSpec) : Text → Option OptionArgument
  | [] => some {}
  | c :: r =>
    match specs.find? fun spec => spec.letter == some c with
    | none => none
    | some spec =>
      if spec.takesValue then
        if r = [] then some { pending := some spec.setting }
        else some { settings := [(spec.setting, some r)] }
      else (readShort specs r).map fun rest =>
        { rest with settings := (spec.setting, none) :: rest.settings }

/-- The name of a long option, and the value behind the first equals sign. -/
def cutValue (arg : Text) : Text × Option Text :=
  match Text.cut? ['='] arg with
  | some (name, value) => (name, some value)
  | none => (arg, none)

/-- An argument that begins with a dash. -/
def readOption (specs : List OptionSpec) (arg : Text) : Option OptionArgument :=
  let (name, value) := cutValue arg
  match specs.find? fun spec => spec.long == name with
  | some spec => readLong spec value
  | none => if (Text.after? "--" arg).isSome then none else readShort specs (arg.drop 1)

/-- Whether an argument is one of options: a dash with something behind it. -/
def isOption : Text → Bool
  | c :: _ :: _ => c == '-'
  | _ => false

/-- Settings in front of a command line. -/
def Arguments.withSettings (settings : List Given) (a : Arguments) : Arguments :=
  { a with settings := settings ++ a.settings }

/-- Reads arguments. Unless options may stand among operands, the first operand ends them. -/
def readArguments (specs : List OptionSpec) (among : Bool) : List Text → Option Arguments
  | [] => some {}
  | arg :: rest =>
    if arg = "--" then some { operands := rest }
    else if isOption arg then
      match readOption specs arg with
      | none => none
      | some { settings, pending := none } =>
        (readArguments specs among rest).map (·.withSettings settings)
      | some { settings, pending := some setting } =>
        match rest with
        | [] => none
        | value :: rest =>
          (readArguments specs among rest).map
            (·.withSettings (settings ++ [(setting, some value)]))
    else if among then
      (readArguments specs among rest).map fun a => { a with operands := arg :: a.operands }
    else some { operands := arg :: rest }

namespace Arguments

/-- Whether a setting is given. -/
def has (a : Arguments) (setting : Setting) : Bool := a.settings.any fun g => g.1 == setting

/-- The last value given for a setting. -/
def value? (a : Arguments) (setting : Setting) : Option Text :=
  (a.settings.reverse.find? fun g => g.1 == setting).bind Prod.snd

end Arguments

end FarmLink.Cli
