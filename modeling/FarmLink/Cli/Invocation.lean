import FarmLink.Cli.Option
import FarmLink.Dict
import FarmLink.Numeral.Strict

/-!
# Invocation - what a command line asks for

A command line asks for one of five commands, for the version, or for help. Encodings and port
maps not given on the command line are taken from the environment, where an empty text counts as
none. A command line that asks for nothing the program knows has no invocation.

Besides the program's own options there are those that the option parser adds: for help, and for
what a shell needs to complete command lines. The latter it answers by the shell that it finds, and
no command runs, so they make no invocation either; nor would an environment by which a shell asks
for completions, and none of that kind is read here.
-/

namespace FarmLink.Cli

/-- What the program is asked to do. -/
inductive Invocation
  | help
  | version
  | decode (payload : Text) (port : Int) (encoding : Text) (portMap : Option Text)
      (rawRouter : Bool)
  | stateChange (payload encoding : Text)
  | encode (command : Text) (port : Option Int) (hex : Bool)
  | ports (portMap : Option Text) (json : Bool)
  | info (json : Bool)
deriving DecidableEq, Repr

/-- The commands. -/
inductive Command
  | decode
  | stateChange
  | encode
  | ports
  | info
deriving DecidableEq, Repr

def helpSpec : OptionSpec := { setting := .help, long := "--help" }

def versionSpec : OptionSpec := { setting := .version, long := "--version" }

def installSpec : OptionSpec := { setting := .completion, long := "--install-completion" }

def showSpec : OptionSpec := { setting := .completion, long := "--show-completion" }

/-- The options of the program, in front of any command. -/
def programSpecs : List OptionSpec := [helpSpec, versionSpec, installSpec, showSpec]

def portSpec : OptionSpec :=
  { setting := .port, long := "--port", letter := some 'p', takesValue := true }

def encodingSpec : OptionSpec :=
  { setting := .encoding, long := "--encoding", letter := some 'e', takesValue := true }

def portMapSpec : OptionSpec := { setting := .portMap, long := "--port-map", takesValue := true }

def rawRouterSpec : OptionSpec := { setting := .rawRouter, long := "--raw-router" }

def verboseSpec : OptionSpec := { setting := .verbose, long := "--verbose", letter := some 'v' }

def jsonSpec : OptionSpec := { setting := .json, long := "--json" }

def hexSpec : OptionSpec := { setting := .hex, long := "--hex" }

namespace Command

/-- The command with a name. -/
def ofName? (name : Text) : Option Command :=
  if name = "decode" then some decode
  else if name = "state-change" then some stateChange
  else if name = "encode" then some encode
  else if name = "ports" then some ports
  else if name = "info" then some info
  else none

/-- The options of a command. -/
def specs : Command → List OptionSpec
  | decode => [helpSpec, portSpec, encodingSpec, portMapSpec, rawRouterSpec, verboseSpec]
  | stateChange => [helpSpec, encodingSpec, verboseSpec]
  | encode => [helpSpec, portSpec, hexSpec, verboseSpec]
  | ports => [helpSpec, portMapSpec, verboseSpec, jsonSpec]
  | info => [helpSpec, jsonSpec]

end Command

/-- The environment, by the names of its variables. -/
abbrev Environment := Dict Text

/-- A variable that is set to something. -/
def Environment.value? (env : Environment) (name : Text) : Option Text :=
  (Dict.get? env name).bind Text.nonempty?

/-- The name of the encoding asked for. -/
def encodingOf (env : Environment) (a : Arguments) : Text :=
  ((a.value? .encoding).orElse fun _ => env.value? "FARMCODEC_ENCODING").getD "hex"

/-- The path of the port map asked for; the empty path asks for none. -/
def portMapOf (env : Environment) (a : Arguments) : Option Text :=
  ((a.value? .portMap).orElse fun _ => env.value? "FARMCODEC_PORT_MAP").bind Text.nonempty?

/-- The port asked for, if the text is a whole number. -/
def portOf? (t : Text) : Option Int := (Numeral.integer t).toOption

namespace Invocation

/-- What a command is asked to do by its arguments. -/
def ofCommand (env : Environment) (command : Command) (a : Arguments) : Option Invocation :=
  if a.has .help then some help
  else match command, a.operands with
    | .decode, [payload] => do
      let port ← (a.value? .port).bind portOf?
      return decode payload port (encodingOf env a) (portMapOf env a) (a.has .rawRouter)
    | .stateChange, [payload] => some (stateChange payload (encodingOf env a))
    | .encode, [command] =>
      match a.value? .port with
      | none => some (encode command none (a.has .hex))
      | some t => (portOf? t).map fun port => encode command (some port) (a.has .hex)
    | .ports, [] => some (ports (portMapOf env a) (a.has .json))
    | .info, [] => some (info (a.has .json))
    | _, _ => none

end Invocation

/-- What a command line can ask for: an invocation, or completions, which are no matter of the
program. -/
inductive Request
  | invocation (i : Invocation)
  | completion
deriving DecidableEq, Repr

namespace Request

/-- What the options of the program ask for; the first of them counts. -/
def ofOptions (a : Arguments) : Option Request :=
  match a.settings with
  | (.version, _) :: _ => some (.invocation .version)
  | (.help, _) :: _ => some (.invocation .help)
  | (.completion, _) :: _ => some .completion
  | _ => none

/-- What operands ask for: a command with its own options. What stands in the place of a command and
names none is read as options once more, since two dashes may have hidden that it is one. -/
def ofOperands (env : Environment) : List Text → Option Request
  | [] => none
  | name :: rest =>
    match Command.ofName? name with
    | some command =>
      (readArguments command.specs true rest).bind fun a =>
        (Invocation.ofCommand env command a).map invocation
    | none => (readArguments programSpecs false (name :: rest)).bind ofOptions

/-- What a command line asks for: options of the program, then a command. -/
def ofArguments (env : Environment) (args : List Text) : Option Request :=
  (readArguments programSpecs false args).bind fun top =>
    (ofOptions top).orElse fun _ => ofOperands env top.operands

/-- The invocation that is asked for. -/
def invocation? : Request → Option Invocation
  | invocation i => some i
  | completion => none

/-- What is asked for comes from the options of the program or from the arguments of a command. -/
theorem eq_of_ofArguments {env : Environment} {args : List Text} {r : Request}
    (h : ofArguments env args = some r) : (∃ a, ofOptions a = some r) ∨
      ∃ command a i, Invocation.ofCommand env command a = some i ∧ r = .invocation i := by
  unfold ofArguments at h
  obtain ⟨top, -, h⟩ := Option.bind_eq_some_iff.1 h
  cases hoptions : ofOptions top with
  | some s =>
    rw [hoptions] at h
    exact .inl ⟨top, hoptions.trans h⟩
  | none =>
    rw [hoptions] at h
    have h : ofOperands env top.operands = some r := h
    unfold ofOperands at h
    split at h
    · cases h
    · split at h
      · obtain ⟨a, -, h⟩ := Option.bind_eq_some_iff.1 h
        obtain ⟨i, hi, rfl⟩ := Option.map_eq_some_iff.1 h
        exact .inr ⟨_, a, i, hi, rfl⟩
      -- no command: the operands are read as options once more
      · obtain ⟨again, -, h⟩ := Option.bind_eq_some_iff.1 h
        exact .inl ⟨again, h⟩

/-- A port that is given to a command is what some text is read as. -/
theorem exists_of_port {env : Environment} {args : List Text} {command : Text} {n : Int}
    {hex : Bool}
    (h : ofArguments env args = some (.invocation (.encode command (some n) hex))) :
    ∃ t, portOf? t = some n := by
  rcases eq_of_ofArguments h with ⟨a, h⟩ | ⟨c, a, i, h, hi⟩
  · unfold ofOptions at h
    split at h <;> cases h
  · cases hi
    unfold Invocation.ofCommand at h
    split at h
    · cases h
    -- of the five commands only the encoding with a port given asks for this
    · split at h
      · obtain ⟨port, -, h⟩ := Option.bind_eq_some_iff.1 h
        cases h
      · cases h
      · split at h
        · cases h
        · next t _ =>
          obtain ⟨port, hport, h⟩ := Option.map_eq_some_iff.1 h
          cases h
          exact ⟨t, hport⟩
      · cases h
      · cases h
      · cases h

end Request

namespace Invocation

/-- The invocation that a command line asks for. -/
def ofArguments (env : Environment) (args : List Text) : Option Invocation :=
  (Request.ofArguments env args).bind Request.invocation?

/-- The path of the port map that an invocation reads. -/
def portMap? : Invocation → Option Text
  | decode _ _ _ portMap rawRouter => if rawRouter then none else portMap
  | ports portMap _ => portMap
  | _ => none

end Invocation

end FarmLink.Cli
