import FarmLink.Cli.Invocation
import FarmLink.Cli.Path
import FarmLink.Downlink.Basic
import FarmLink.Json.Writer
import FarmLink.PortMap.Table
import FarmLink.Spelling.Basic
import FarmLink.Uplink.Route

/-!
# Commands - what the program answers

An invocation ends with an exit status and with texts for the two output streams: status 0 with a
result, 2 for input that is refused, 4 for anything else that stops a command. A failure outside
what the commands look out for ends the program with status 1 and is told apart. What the platform
settles is a parameter of every command that it matters to.
-/

namespace FarmLink.Cli

/-- What the commands take from the platform: the characters that the encoding of the output has,
with ASCII among them; how many lists and dicts of JSON may stand in each other in a command and in
a file before the stack ends; and how many digits a whole number may have that is read or shown. -/
structure Platform where
  holds : CodePoint → Bool
  ascii : ∀ c : CodePoint, c.toNat < 0x80 → holds c = true
  commandDepth : Nat
  fileDepth : Nat
  digits : Nat

/-- The platform as it is unless told otherwise: strict UTF-8, which has all characters and no
surrogates, and the limits of the interpreter. -/
def Platform.utf8 : Platform where
  holds c := !c.isSurrogate
  ascii c h := by
    simp only [CodePoint.isSurrogate, Bool.not_eq_true', Bool.and_eq_false_iff,
      decide_eq_false_iff_not]
    omega
  commandDepth := Json.depthLimit
  fileDepth := Json.depthLimit
  digits := digitLimit

/-- How the program ends. -/
structure Outcome where
  exit : Nat := 0
  stdout : Text := []
  stderr : Text := []
  escaped : Option Failure := none
deriving DecidableEq

/-- How many characters a control sequence of terminals takes at the front of a text. -/
def controlLength : Text → Nat
  | esc :: bracket :: r =>
    if esc = '\x1b' ∧ bracket = '[' then
      let middle := r.takeWhile fun c : CodePoint => c == ';' || c == '?' || ('0' ≤ c && c ≤ '9')
      match r.drop middle.length with
      | c :: _ => if c.isLetter then middle.length + 3 else 0
      | [] => 0
    else 0
  | _ => 0

/-- A text without control sequences of terminals, of which `skip` more characters are left. -/
def dropControls : Nat → Text → Text
  | _, [] => []
  | skip + 1, _ :: r => dropControls skip r
  | 0, c :: r =>
    match controlLength (c :: r) with
    | 0 => c :: dropControls 0 r
    | n + 1 => dropControls n r

namespace Outcome

/-- A line of output, which is no terminal. -/
def line (t : Text) : Text := dropControls 0 t ++ "\n"

/-- Whether the output can hold a text. -/
def isWritable (t : Text) (platform : Platform := .utf8) : Bool := t.all platform.holds

/-- Lines as the whole output. The first that cannot be written ends the program. -/
def printed (lines : List Text) (platform : Platform := .utf8) : Outcome :=
  let stdout := (lines.takeWhile (isWritable · platform)).flatMap line
  if lines.all (isWritable · platform) then { stdout }
  else { exit := 1, stdout, escaped := some .unwritable }

/-- A complaint and a status. The error output escapes what its encoding does not have. -/
def complaint (exit : Nat) (message : Text) : Outcome :=
  { exit, stderr := line ("Error: " ++ message) }

/-- A value as JSON; one with a number too long to be shown fails outside the commands. -/
def document (layout : Json.Layout) (v : Value) (platform : Platform := .utf8) : Outcome :=
  if v.isShowable then printed [Json.write layout 0 v] platform
  else { exit := 1, escaped := some (.mismatch .tooLong) }

end Outcome

/-- The outcome of a failure to route a frame or to load a port map. -/
def routeFailed (failure : Failure) : Outcome :=
  if failure.isInvalidValue then .complaint 2 "Invalid port map"
  else .complaint 4 "Unexpected error"

/-- The port map at a path, or the outcome of its absence or of its faults. -/
def loadPortMap (files : Path → FileState) (path : Option Text) (platform : Platform := .utf8) :
    Except Outcome PortMap :=
  match path with
  | none => .ok .standard
  | some t =>
    let p := Path.ofText t
    match files p with
    | .absent => .error (.complaint 2 ("Port map file not found: " ++ p.toText))
    | .unreachable => .error (.complaint 4 "Unexpected error")
    | .content bs =>
      match PortMap.ofFile bs platform.fileDepth with
      | .ok m => .ok m
      | .error failure => .error (routeFailed failure)

/-- Decodes a payload by the port map, or by the two-way rule. -/
def runDecode (files : Path → FileState) (payload : Text) (port : Int) (encoding : Text)
    (portMap : Option Text) (rawRouter : Bool) (platform : Platform := .utf8) : Outcome :=
  match Encoding.readNamed encoding payload with
  | .error _ => .complaint 2 "Invalid payload"
  | .ok bs =>
    let finish (result : Except Mismatch (Dict Value)) : Outcome :=
      match result with
      | .error m => routeFailed (.mismatch m)
      | .ok d => .document .indented (.dict d) platform
    if rawRouter then finish (Uplink.decode (.bytes bs) (.int port))
    else match loadPortMap files portMap platform with
      | .error outcome => outcome
      | .ok m => finish (Uplink.route m (.bytes bs) (.int port))

/-- Decodes state changes; a payload of a wrong length is reported, and has a status of its own. -/
def runStateChange (payload encoding : Text) (platform : Platform := .utf8) : Outcome :=
  match Encoding.readNamed encoding payload with
  | .error _ => .complaint 2 "Invalid payload"
  | .ok bs =>
    let result := StateChange.dictOfBytes bs
    { Outcome.document .indented (.dict result) platform with
      exit := if result.has "error" then 2 else 0 }

/-- Encodes a command given as JSON. -/
def runEncode (command : Text) (port : Option Int) (hex : Bool) (platform : Platform := .utf8) :
    Outcome :=
  match Json.read command platform.commandDepth with
  | .error .malformed => .complaint 2 "Invalid JSON"
  | .error flaw => { exit := 1, escaped := some flaw.failure }
  | .ok (.dict data) =>
    match Downlink.encode data ((port.map Value.int).getD .null) with
    | .error (.codec e) => .complaint 2 ("Cannot encode: " ++ e.message)
    | .error _ => .complaint 4 "Unexpected error"
    | .ok d =>
      if hex then .printed [Hex.write d.bytes] platform
      else .document .oneLine (.dict d.toDict) platform
  | .ok _ => .complaint 2 "Downlink command must be a JSON object"

/-- One line of the list of ports. -/
def portLine (d : PortDef) : Text :=
  Text.dropEndWhile Text.isBlank
    (Text.padStart 4 (Text.ofNat d.port) ++ "  " ++ Text.padEnd 14 d.decoder.name ++ " "
      ++ d.description.getD [])

/-- Lists the ports of a map. -/
def runPorts (files : Path → FileState) (portMap : Option Text) (json : Bool)
    (platform : Platform := .utf8) : Outcome :=
  match loadPortMap files portMap platform with
  | .error outcome => outcome
  | .ok m =>
    if json then .document .indented (.list (m.defs.map fun d => .dict d.toDict)) platform
    else .printed (m.defs.map portLine) platform

/-- The version of the program. -/
def versionText : Text := "0.1.0"

/-- Tells the version and the size of the standard port map. -/
def runInfo (json : Bool) (platform : Platform := .utf8) : Outcome :=
  let ports := PortMap.standard.size
  if json then
    .document .indented (.dict [("version", .text versionText), ("ports", .int ports)]) platform
  else
    .printed ["farm-monitor-codec version: " ++ versionText, "Default fPorts: " ++ Text.ofNat ports]
      platform

/-- Runs an invocation. -/
def run (files : Path → FileState) (i : Invocation) (platform : Platform := .utf8) : Outcome :=
  match i with
  | .help => {}
  | .version => .printed ["farm-monitor-codec " ++ versionText] platform
  | .decode payload port encoding portMap rawRouter =>
    runDecode files payload port encoding portMap rawRouter platform
  | .stateChange payload encoding => runStateChange payload encoding platform
  | .encode command port hex => runEncode command port hex platform
  | .ports portMap json => runPorts files portMap json platform
  | .info json => runInfo json platform

end FarmLink.Cli
