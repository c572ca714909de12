import FarmLink.Cli.Commands

/-!
# Run - command lines and what they run on

The program leaves its command line to an option parser, a library of its own, and does not look at
it again. The parser either asks for one of the program's commands, or ends the run by itself: with
help, with a complaint about the usage, or with what a shell needs to complete command lines. A host
is a parser and a platform, each as an environment makes it, and every host runs the same commands.
`Host.standard` has the parser of `Invocation.ofArguments` and the platform `Platform.utf8`.
-/

namespace FarmLink.Cli

/-- How the option parser ends a run by itself. -/
structure Answer where
  exit : Nat := 0
  stdout : Text := []
  stderr : Text := []
deriving DecidableEq

/-- The end of a run that the option parser answers. No command has run. -/
def Answer.outcome (a : Answer) : Outcome :=
  { exit := a.exit, stdout := a.stdout, stderr := a.stderr }

/-- What a command line runs on. An option for a whole number is read as all texts of such numbers
are, as long as the platform has its usual limit on their digits. -/
structure Host where
  parse : Environment → List Text → Except Answer Invocation
  platform : Environment → Platform
  port_read : ∀ {env : Environment} {args : List Text} {command : Text} {n : Int} {hex : Bool},
    (platform env).digits = digitLimit →
      parse env args = .ok (.encode command (some n) hex) → ∃ t, portOf? t = some n

/-- Runs a command line on a host. -/
def Host.run (host : Host) (files : Path → FileState) (env : Environment) (args : List Text) :
    Outcome :=
  match host.parse env args with
  | .error answer => answer.outcome
  | .ok i => Cli.run files i (host.platform env)

/-- The host of a program that is started from no shell. -/
def Host.standard : Host where
  parse env args :=
    match Request.ofArguments env args with
    | some (.invocation i) => .ok i
    | some .completion => .error { exit := 1 }
    | none => .error { exit := 2 }
  platform _ := .utf8
  port_read _ h := by
    split at h
    · next hargs =>
      cases h
      exact Request.exists_of_port hargs
    · cases h
    · cases h

/-- Runs a command line. -/
def runArguments (files : Path → FileState) (env : Environment) (args : List Text) : Outcome :=
  Host.standard.run files env args

end FarmLink.Cli
