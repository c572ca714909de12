import FarmLink.Proofs.Cli.Listing
import FarmLink.Proofs.Downlink.Refusal
import FarmLink.Proofs.Json.Reading
import FarmLink.Proofs.Spelling.Hex
import FarmLink.Proofs.Uplink.Showable

/-!
# Escape - when a failure leaves the program

The commands look out for the failures of reading, but not for those of printing, and of the flaws
of a JSON text only for the malformed ones. `Escapes` lists the invocations that a failure leaves:
a frame with an overlong number, a command in JSON with an overlong number or too many levels, and
a list of ports with a text that cannot be printed. Each command is shown to escape exactly there,
and `Host.run_ends` puts them together for all command lines on all hosts: whatever the option
parser is, the encoding of the output and the room on the stack.
-/

namespace FarmLink.Cli

variable {files : Path → FileState} {env : Environment} {platform : Platform}

/-! ### What command lines ask for -/

namespace Invocation

/-- An operand stands in front of those that follow, among options too. -/
theorem readArguments_operand_cons {specs : List OptionSpec} {arg : Text} (hdashes : arg ≠ "--")
    (hoption : isOption arg = false) (rest : List Text) :
    readArguments specs true (arg :: rest) =
      (readArguments specs true rest).map fun a => { a with operands := arg :: a.operands } := by
  simp only [readArguments, if_neg hdashes, hoption, Bool.false_eq_true, if_false, if_true]

section Command

variable {name : Text} {command : Command} {rest : List Text}
  (hname : Command.ofName? name = some command)
  (htop : readArguments programSpecs false (name :: rest) = some { operands := name :: rest })

include hname htop

theorem request_cons : Request.ofArguments env (name :: rest) =
    ((readArguments command.specs true rest).bind (ofCommand env command)).map .invocation := by
  unfold Request.ofArguments
  rw [htop]
  change Request.ofOperands env (name :: rest) = _
  simp only [Request.ofOperands, hname, Option.map_bind]
  rfl

/-- Behind the name of a command stand the arguments of that command. -/
theorem ofArguments_cons : ofArguments env (name :: rest) =
    (readArguments command.specs true rest).bind (ofCommand env command) := by
  unfold ofArguments
  rw [request_cons hname htop]
  cases (readArguments command.specs true rest).bind (ofCommand env command) <;> rfl

/-- A command that is not asked for as it should be ends with status 2. -/
theorem exit_runArguments_cons (h : ofArguments env (name :: rest) = none) :
    (runArguments files env (name :: rest)).exit = 2 := by
  rw [ofArguments_cons hname htop] at h
  have hrequest : Request.ofArguments env (name :: rest) = none := by
    rw [request_cons hname htop, h]
    rfl
  simp only [runArguments, Host.run, Host.standard, hrequest]
  rfl

end Command

/-- A port on the command line can be shown. -/
theorem isShowable_of_portOf? {t : Text} {n : Int} (h : portOf? t = some n) :
    isShowable n = true := by
  unfold portOf? at h
  cases hn : Numeral.integer t with
  | error flaw =>
    rw [hn] at h
    cases h
  | ok k =>
    rw [hn] at h
    cases h
    exact Numeral.isShowable_of_integer hn

theorem isShowable_port_of_ofArguments {args : List Text} {command : Text} {n : Int} {hex : Bool}
    (h : ofArguments env args = some (.encode command (some n) hex)) : isShowable n = true := by
  obtain ⟨r, hr, hi⟩ := Option.bind_eq_some_iff.1 h
  cases r with
  | invocation i =>
    cases hi
    obtain ⟨t, ht⟩ := Request.exists_of_port hr
    exact isShowable_of_portOf? ht
  | completion => cases hi

/-! ### Invocations that a failure leaves -/

/-- An invocation that a failure leaves. -/
inductive Escapes (files : Path → FileState) (platform : Platform) : Invocation → Prop
  | registration {payload encoding : Text} {portMap : Option Text} {bs : Bytes}
      (hread : Encoding.readNamed encoding payload = .ok bs)
      (h : Decoder.registration.HoldsOverlong bs) :
      Escapes files platform (.decode payload 1 encoding portMap true)
  | routed {payload encoding : Text} {port : Int} {portMap : Option Text} {bs : Bytes}
      {m : PortMap} {d : PortDef} (hread : Encoding.readNamed encoding payload = .ok bs)
      (hmap : loadPortMap files portMap platform = .ok m) (hfind : m.find? port = some d)
      (h : d.decoder.HoldsOverlong bs) :
      Escapes files platform (.decode payload port encoding portMap false)
  | command {command : Text} {port : Option Int} {hex : Bool} {flaw : Json.Flaw}
      (hread : Json.read command platform.commandDepth = .error flaw)
      (hflaw : flaw ≠ .malformed) :
      Escapes files platform (.encode command port hex)
  | listing {portMap : Option Text} {m : PortMap}
      (hmap : loadPortMap files portMap platform = .ok m) (h : HoldsUnwritable m platform) :
      Escapes files platform (.ports portMap false)

section Escapes

variable {payload encoding command : Text} {port : Int} {port? : Option Int}
  {portMap : Option Text} {rawRouter hex json : Bool}

end Escapes

end Invocation

/-! ### The commands -/

/-- Decoded data as a document, or the outcome of a failure. -/
def answer (platform : Platform) : Except Mismatch (Dict Value) → Outcome
  | .error m => routeFailed (.mismatch m)
  | .ok d => .document .indented (.dict d) platform

theorem isComplaint_routeFailed (f : Failure) : (routeFailed f).IsComplaint := by
  unfold routeFailed
  split
  · exact Outcome.isComplaint_complaint (.inl rfl) _
  · exact Outcome.isComplaint_complaint (.inr rfl) _

/-- A port map that cannot be loaded ends the program with a complaint. -/
theorem isComplaint_of_loadPortMap {portMap : Option Text} {o : Outcome}
    (h : loadPortMap files portMap platform = .error o) : o.IsComplaint := by
  unfold loadPortMap at h
  cases portMap with
  | none => cases h
  | some name =>
    simp only at h
    split at h
    · cases h
      exact Outcome.isComplaint_complaint (.inl rfl) _
    · cases h
      exact Outcome.isComplaint_complaint (.inr rfl) _
    · split at h
      · cases h
      · cases h
        exact isComplaint_routeFailed _

theorem runDecode_of_read {payload encoding : Text} {bs : Bytes}
    (h : Encoding.readNamed encoding payload = .ok bs) (port : Int) (portMap : Option Text)
    (rawRouter : Bool) :
    runDecode files payload port encoding portMap rawRouter platform =
      if rawRouter then answer platform (Uplink.decode (.bytes bs) (.int port))
      else match loadPortMap files portMap platform with
        | .error o => o
        | .ok m => answer platform (Uplink.route m (.bytes bs) (.int port)) := by
  unfold runDecode
  rw [h]
  rfl

/-- The port that a command line gives to a command. -/
def portValue (port : Option Int) : Value := (port.map Value.int).getD .null

/-- How encoding a command ends: with a frame, with a complaint that is the same in hex, or by a
flaw of the JSON text that is not looked out for. -/
inductive EncodeEnds (command : Text) (port : Option Int) (platform : Platform) : Prop
  | frame {data : Dict Value} {d : Downlink}
      (hread : Json.read command platform.commandDepth = .ok (.dict data))
      (hencode : Downlink.encode data (portValue port) = .ok d)
  | complaint {o : Outcome} (ho : o.IsComplaint)
      (hsame : ∀ hex, runEncode command port hex platform = o)
      (hread : ∀ flaw, Json.read command platform.commandDepth = .error flaw → flaw = .malformed)
  | flaw {flaw : Json.Flaw} (hread : Json.read command platform.commandDepth = .error flaw)
      (hflaw : flaw ≠ .malformed)

theorem encodeEnds (command : Text) (port : Option Int) (platform : Platform) :
    EncodeEnds command port platform := by
  cases hread : Json.read command platform.commandDepth with
  | error flaw =>
    by_cases hflaw : flaw = .malformed
    · subst hflaw
      refine .complaint (Outcome.isComplaint_complaint (.inl rfl) "Invalid JSON") ?_ ?_
      · intro hex
        unfold runEncode
        rw [hread]
      · intro other hother
        exact (Except.error.inj (hread.symm.trans hother)).symm
    · exact .flaw hread hflaw
  | ok v =>
    have hnone : ∀ flaw, Json.read command platform.commandDepth = .error flaw →
        flaw = .malformed := fun flaw hflaw => by
      cases hread.symm.trans hflaw
    cases v with
    | dict data =>
      cases hencode : Downlink.encode data (portValue port) with
      | ok d => exact .frame hread hencode
      | error f =>
        have hencode : Downlink.encode data ((port.map Value.int).getD .null) = .error f := hencode
        cases f with
        | codec e =>
          refine .complaint (Outcome.isComplaint_complaint (.inl rfl)
            ("Cannot encode: " ++ e.message)) (fun hex => ?_) hnone
          unfold runEncode
          simp only [hread, hencode]
        | _ =>
          refine .complaint (Outcome.isComplaint_complaint (.inr rfl) "Unexpected error")
            (fun hex => ?_) hnone
          unfold runEncode
          simp only [hread, hencode]
    | null | bool _ | int _ | float _ | text _ | list _ =>
      refine .complaint (Outcome.isComplaint_complaint (.inl rfl)
        "Downlink command must be a JSON object") (fun hex => ?_) hnone
      unfold runEncode
      simp only [hread]

/-- A flaw that is not looked out for ends the program. -/
theorem runEncode_of_flaw {command : Text} {port : Option Int} {hex : Bool} {flaw : Json.Flaw}
    (hread : Json.read command platform.commandDepth = .error flaw) (hflaw : flaw ≠ .malformed) :
    runEncode command port hex platform = { exit := 1, escaped := some flaw.failure } := by
  unfold runEncode
  rw [hread]
  cases flaw with
  | malformed => exact absurd rfl hflaw
  | tooLong | tooDeep => rfl

theorem isAscii_writeHex (bs : Bytes) : (Hex.write bs).IsAscii := by
  intro c hc
  obtain ⟨b, -, hb⟩ := List.mem_flatMap.1 hc
  exact Text.isAscii_ofNatHex 2 b.toNat c hb

section Encoded

variable {command : Text} {data : Dict Value} {port : Option Int} {d : Downlink}
  (hread : Json.read command platform.commandDepth = .ok (.dict data))
  (hencode : Downlink.encode data (portValue port) = .ok d)
  (hport : ∀ n, port = some n → isShowable n = true)

include hread hencode

/-- In hex the bytes of a frame stand on a line of their own. -/
theorem runEncode_hex :
    runEncode command port true platform = { stdout := Hex.write d.bytes ++ "\n" } := by
  have hencode : Downlink.encode data ((port.map Value.int).getD .null) = .ok d := hencode
  have hline : ∀ l ∈ [Hex.write d.bytes], Outcome.isWritable l platform = true :=
    List.forall_mem_singleton.2 (Outcome.isWritable_of_isAscii (isAscii_writeHex _))
  have hescape : ('\x1b' : CodePoint) ∉ Hex.write d.bytes := fun hmem => by
    obtain ⟨n, hn⟩ := (Hex.digits_write d.bytes).exists_isDigit _ hmem
    cases Hex.hexDigit?_eq_some_iff.2 hn
  unfold runEncode
  simp only [hread, hencode, if_true]
  rw [Outcome.printed_of_forall hline, List.flatMap_singleton, Outcome.line,
    Outcome.dropControls_of_not_mem hescape]

include hport

/-- The port of a command from JSON can be shown, wherever it stands. -/
theorem isShowable_port_of_encode : d.port.isShowable = true := by
  have hgiven : (portValue port).isShowable = true := by
    cases port with
    | none => rfl
    | some n =>
      rw [portValue, Option.map_some, Option.getD_some, Value.isShowable_int]
      exact hport n rfl
  rw [Downlink.port_of_encode_eq_ok hencode]
  exact Value.isShowable_orElse hgiven (Value.isShowable_value (Json.isShowable_of_read hread) _)

theorem runEncode_json : runEncode command port false platform =
    { stdout := Json.write .oneLine 0 (.dict d.toDict) ++ "\n" } := by
  have hshow : (Value.dict d.toDict).isShowable = true := by
    rw [Downlink.isShowable_toDict]
    exact isShowable_port_of_encode hread hencode hport
  have hencode : Downlink.encode data ((port.map Value.int).getD .null) = .ok d := hencode
  unfold runEncode
  simp only [hread, hencode, Bool.false_eq_true, if_false]
  exact Outcome.document_of_isShowable hshow .oneLine

end Encoded

end FarmLink.Cli
