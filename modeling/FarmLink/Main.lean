import FarmLink.Cli.Run

/-!
# Main - the program

Reads the file that an invocation asks for, runs the invocation, and prints what it answers.
-/

open FarmLink FarmLink.Cli

/-- What an error of reading says of a file: whether it is there and cannot be read, or is not. -/
def stateOfError : IO.Error → FileState
  | .permissionDenied .. => .unreachable
  | .invalidArgument .. => .unreachable
  | _ => .absent

/-- What a path leads to on disk. -/
def readFile (path : Path) : IO FileState := do
  if path.hasNull then return .absent
  try
    let bytes ← IO.FS.readBinFile (path.toText.toString)
    return .content bytes.toList
  catch e => return stateOfError e

/-- The variables that the program looks at. -/
def readEnvironment : IO Environment := do
  let names := ["FARMCODEC_ENCODING", "FARMCODEC_PORT_MAP"]
  names.filterMapM fun name => do
    let value ← IO.getEnv name
    return value.map fun v => ((name : Text), (v : Text))

def main (args : List String) : IO UInt32 := do
  let env ← readEnvironment
  let args := args.map Text.ofString
  let state ← match (Invocation.ofArguments env args).bind Invocation.portMap? with
    | none => pure FileState.absent
    | some t => readFile (Path.ofText t)
  let outcome := runArguments (fun _ => state) env args
  IO.print (outcome.stdout.toString)
  IO.eprint (outcome.stderr.toString)
  return outcome.exit.toUInt32
