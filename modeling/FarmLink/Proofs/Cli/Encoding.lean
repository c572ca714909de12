import FarmLink.Proofs.Cli.Escape
import FarmLink.Proofs.Downlink.Frame
import FarmLink.Proofs.Json.RoundTrip
import FarmLink.Proofs.Spelling.Hex

/-!
# Encoding - frames on the output

A command that is encoded is printed as JSON, or its bytes alone in hex. The option for it changes
nothing else: a command that fails does so alike (`EncodeEnds`), and the bytes in hex are those in
the JSON, since both are read back (`readNamed_writeHex`, `read_toDict`). The port is read back too;
only if it is a text with a pair of surrogates, as a command without surrogates has none, does one
character come back for the two.
-/

namespace FarmLink.Cli

variable {files : Path → FileState} {env : Environment} {platform : Platform}

/-! ### The option -/

namespace Invocation

/-- What is asked for with the bytes of a frame in hex. -/
def inHex : Invocation → Invocation
  | encode command port _ => encode command port true
  | i => i

theorem readArguments_hex (rest : List Text) :
    readArguments Command.encode.specs true ("--hex" :: rest) =
      (readArguments Command.encode.specs true rest).map
        (·.withSettings [(Setting.hex, none)]) := rfl

theorem ofArguments_encode_cons (rest : List Text) : ofArguments env ("encode" :: rest) =
    (readArguments Command.encode.specs true rest).bind (ofCommand env .encode) :=
  ofArguments_cons rfl rfl

/-- A setting in front says nothing of others. -/
theorem value?_withSettings {a : Arguments} {g : Given} {setting : Setting} (h : g.1 ≠ setting) :
    (a.withSettings [g]).value? setting = a.value? setting := by
  have hskip : [g].find? (fun g => g.1 == setting) = none :=
    List.find?_cons_of_neg (by simpa using h)
  unfold Arguments.value? Arguments.withSettings
  rw [List.singleton_append, List.reverse_cons, List.find?_append, hskip, Option.or_none]

theorem ofCommand_withHex (a : Arguments) :
    ofCommand env .encode (a.withSettings [(.hex, none)]) =
      (ofCommand env .encode a).map inHex := by
  have hhelp : (a.withSettings [(.hex, none)]).has .help = a.has .help := rfl
  have hport : (a.withSettings [(.hex, none)]).value? .port = a.value? .port :=
    value?_withSettings (by decide)
  unfold ofCommand
  rw [hhelp, hport]
  cases a.has .help with
  | true => rfl
  | false =>
    have hoperands : (a.withSettings [(.hex, none)]).operands = a.operands := rfl
    simp only [Bool.false_eq_true, if_false, hoperands]
    match a.operands with
    | [] | _ :: _ :: _ => rfl
    | [command] =>
      cases a.value? .port with
      | none => rfl
      | some t =>
        simp only
        cases portOf? t with
        | none => rfl
        | some port => rfl

/-- The option asks for the same thing in hex. -/
theorem ofArguments_hex (rest : List Text) :
    ofArguments env ("encode" :: "--hex" :: rest) =
      (ofArguments env ("encode" :: rest)).map inHex := by
  rw [ofArguments_encode_cons, ofArguments_encode_cons, readArguments_hex]
  cases readArguments Command.encode.specs true rest with
  | none => rfl
  | some a => exact ofCommand_withHex a

end Invocation

/-! ### Frames read back -/

/-- A value that is no container as it comes back from a document. -/
def pairedScalar : Value → Value
  | .text t => .text t.paired
  | v => v

theorem pairedScalar_of_unpaired {v : Value} (h : v.HasUnpairedTexts) : pairedScalar v = v := by
  cases v with
  | text t => exact congrArg Value.text (Text.paired_of_unpaired (h t .self))
  | _ => rfl

theorem write_pairedScalar (layout : Json.Layout) (level : Nat) (v : Value) :
    Json.write layout level (pairedScalar v) = Json.write layout level v := by
  cases v with
  | text t =>
    simp only [pairedScalar, Json.write, Json.writeText, Json.flatMap_escapeChar_paired]
  | _ => rfl

/-- A value of a document that is no container is read back from every document. -/
theorem readsBack_scalar {v : Value} (hscalar : ¬ v.IsContainer) (hshow : v.isShowable = true)
    (hnans : v.HasPlainNaNs) (layout : Json.Layout) (depth : Nat) :
    Json.ReadsBack layout depth (pairedScalar v) := by
  cases v with
  | null => exact (Json.Representable.null depth).readsBack layout hshow
  | bool b => exact (Json.Representable.bool depth b).readsBack layout hshow
  | int n => exact (Json.Representable.int depth n).readsBack layout hshow
  | float x => exact Json.readsBack_float (hnans x .self)
  | text t =>
    exact (Json.Representable.text depth (Json.unpaired_paired t)).readsBack layout rfl
  | list _ | dict _ => exact absurd trivial hscalar

/-- A frame whose port is as it comes back. -/
def pairedFrame (d : Downlink) : Downlink := { d with port := pairedScalar d.port }

theorem write_pairedFrame (d : Downlink) :
    Json.write .oneLine 0 (.dict (pairedFrame d).toDict) =
      Json.write .oneLine 0 (.dict d.toDict) := by
  simp only [pairedFrame, Downlink.toDict, Json.write, Json.writeEntries, write_pairedScalar]

theorem readsBack_toDict {d : Downlink} {layout : Json.Layout} {depth : Nat}
    (hport : Json.ReadsBack layout (depth + 1) d.port) :
    Json.ReadsBack layout (depth + 2) (.dict d.toDict) := by
  have hbytes : Json.ReadsBack layout (depth + 1) (.list (d.bytes.map fun b => .int b.toNat)) := by
    refine (Json.Representable.list fun v hv => ?_).readsBack layout ?_
    · obtain ⟨b, -, rfl⟩ := List.mem_map.1 hv
      exact .int depth _
    · rw [Value.isShowable_list_iff, List.forall_mem_map]
      intro b _
      rw [Value.isShowable_int]
      exact isShowable_byte b
  have hplain : ∀ k ∈ d.toDict.keys, k.IsPlain :=
    show ∀ k ∈ (["bytes", "fPort"] : List Text), k.IsPlain by decide
  refine Json.readsBack_dict (show (["bytes", "fPort"] : List Text).Nodup by decide) ?_ ?_
  · exact fun e he => (hplain e.1 (List.mem_map_of_mem he)).unpaired
  · exact List.forall_mem_cons.2 ⟨hbytes, List.forall_mem_singleton.2 hport⟩

theorem hasPlainNaNs_portValue (port : Option Int) : (portValue port).HasPlainNaNs := by
  cases port <;> rintro x ⟨⟩

theorem hasUnpairedTexts_portValue (port : Option Int) : (portValue port).HasUnpairedTexts := by
  cases port <;> rintro t ⟨⟩

section Encoded

variable {command : Text} {data : Dict Value} {port : Option Int} {d : Downlink}
  (hread : Json.read command platform.commandDepth = .ok (.dict data))
  (hencode : Downlink.encode data (portValue port) = .ok d)
  (hport : ∀ n, port = some n → isShowable n = true)

include hencode

/-- What holds of a port that was given and of the values of the command holds of the port of its
frame. -/
theorem port_of_encode {p : Value → Prop} (hgiven : p (portValue port))
    (hdata : ∀ v : Value, v.StandsIn (.dict data) → p v) : p d.port := by
  have hnull := Downlink.ne_null_of_encode_eq_ok hencode
  rw [Downlink.port_of_encode_eq_ok hencode]
  unfold Downlink.target Value.orElse at hnull ⊢
  split at hnull
  · next htruthy =>
    rw [if_pos htruthy]
    exact hgiven
  · next hfalsy =>
    rw [if_neg hfalsy]
    exact hdata _ (Value.standsIn_value hnull)

include hread

/-- No pair of surrogates is in the port of a command without surrogates. -/
theorem pairedFrame_of_isPlain (hplain : command.IsPlain) : pairedFrame d = d := by
  have hport : pairedScalar d.port = d.port := pairedScalar_of_unpaired
    (port_of_encode hencode (hasUnpairedTexts_portValue port) fun v hv t ht =>
      Json.hasUnpairedTexts_of_read hplain hread t (ht.trans hv))
  rw [pairedFrame, hport]

include hport

/-- The port of a frame is read back, whether it was given or stood in the command. -/
theorem readsBack_port (layout : Json.Layout) (depth : Nat) :
    Json.ReadsBack layout depth (pairedScalar d.port) := by
  have hnans : d.port.HasPlainNaNs :=
    port_of_encode hencode (hasPlainNaNs_portValue port) fun v hv x hx =>
      Json.hasPlainNaNs_of_read hread x (hx.trans hv)
  have hscalar := Downlink.not_isContainer_of_encode_eq_ok hencode
  rw [← Downlink.port_of_encode_eq_ok hencode] at hscalar
  exact readsBack_scalar hscalar (isShowable_port_of_encode hread hencode hport) hnans layout depth

/-- The dict form of a frame is read back from its JSON. -/
theorem read_toDict :
    Json.read (Json.write .oneLine 0 (.dict d.toDict) ++ "\n") =
      .ok (.dict (pairedFrame d).toDict) := by
  have hreads := readsBack_port hread hencode hport .oneLine (Json.depthLimit - 2 + 1)
  rw [← write_pairedFrame]
  exact (readsBack_toDict (d := pairedFrame d) hreads).read_write Json.ends_lineFeed rfl

end Encoded

/-! ### All command lines -/

/-- The option does not change how encoding ends. -/
theorem exit_runEncode (command : Text) {port : Option Int}
    (hport : ∀ n, port = some n → isShowable n = true) (hex : Bool) :
    (runEncode command port hex).exit = (runEncode command port false).exit := by
  cases encodeEnds command port .utf8 with
  | frame hread hencode =>
    cases hex with
    | false => rfl
    | true => rw [runEncode_hex hread hencode, runEncode_json hread hencode hport]
  | complaint _ hsame _ => rw [hsame hex, hsame false]
  | flaw hread hflaw => rw [runEncode_of_flaw hread hflaw, runEncode_of_flaw hread hflaw]

/-- The frame of a command, in hex on one output and as JSON on the other. The JSON is read back as
the frame, the same bytes in any case, and the same port unless surrogates stand in the command. -/
def PrintsFrame (command : Text) (port : Option Int) (hex json : Outcome) : Prop :=
  ∃ data d, Json.read command = .ok (.dict data) ∧ Downlink.encode data (portValue port) = .ok d ∧
    hex.stdout = Hex.write d.bytes ++ "\n" ∧
    Encoding.readNamed "hex" (Hex.write d.bytes) = .ok d.bytes ∧
    Json.read json.stdout = .ok (.dict (pairedFrame d).toDict) ∧
    (pairedFrame d).bytes = d.bytes ∧ (command.IsPlain → pairedFrame d = d)

theorem readNamed_writeHex (bs : Bytes) : Encoding.readNamed "hex" (Hex.write bs) = .ok bs :=
  Encoding.readNamed_hex_of_writes (Hex.writes_write bs)

theorem printsFrame (command : Text) {port : Option Int}
    (hport : ∀ n, port = some n → isShowable n = true)
    (hexit : (runEncode command port false).exit = 0) :
    PrintsFrame command port (runEncode command port true) (runEncode command port false) := by
  cases encodeEnds command port .utf8 with
  | @frame data d hread hencode =>
    refine ⟨data, d, hread, hencode, ?_, readNamed_writeHex d.bytes, ?_, rfl,
      pairedFrame_of_isPlain hread hencode⟩
    · rw [runEncode_hex hread hencode]
    · rw [runEncode_json hread hencode hport]
      exact read_toDict hread hencode hport
  | complaint ho hsame _ =>
    have hne := ho.exit
    rw [hsame] at hexit
    omega
  | flaw hread hflaw =>
    rw [runEncode_of_flaw hread hflaw] at hexit
    cases hexit

theorem exit_run_inHex {args : List Text} {i : Invocation}
    (h : Invocation.ofArguments env args = some i) :
    (run files i.inHex).exit = (run files i).exit := by
  cases i with
  | encode command port hex =>
    have hport : ∀ n, port = some n → isShowable n = true := by
      rintro n rfl
      exact Invocation.isShowable_port_of_ofArguments h
    exact (exit_runEncode command hport true).trans (exit_runEncode command hport hex).symm
  | _ => rfl

/-- **Encoded commands can be sent, and both outputs list the same bytes.**  The numbers in the dict
form of a frame are bytes, as many as a layout of its port has, and its port is the one given if it
says yes.  On the command line the bytes in hex are read back as those of the JSON, and the option
for it changes no exit status. -/
theorem encoded_frames_are_sendable :
    (∀ (data : Dict Value) (port : Value) (d : Downlink), Downlink.encode data port = .ok d →
      ∃ ns : List Int, Value.dict d.toDict = .dict [("bytes", .list (ns.map .int)),
          ("fPort", if port.isTruthy then port else data.value "fPort")] ∧
        Downlink.IsSendable d.port ns ∧ Downlink.IsFrame data d.port d.bytes) ∧
    (∀ (files : Path → FileState) (env : Environment) (args args' : List Text) (command : Text)
      (port : Option Int),
      Invocation.ofArguments env args = some (.encode command port true) →
      Invocation.ofArguments env args' = some (.encode command port false) →
      (runArguments files env args).exit = (runArguments files env args').exit ∧
      ((runArguments files env args').exit = 0 → PrintsFrame command port
        (runArguments files env args) (runArguments files env args'))) ∧
    ∀ (files : Path → FileState) (env : Environment) (rest : List Text),
      (runArguments files env ("encode" :: "--hex" :: rest)).exit =
        (runArguments files env ("encode" :: rest)).exit := by
  refine ⟨?_, ?_, ?_⟩
  · intro data port d h
    have hframe := Downlink.isFrame_of_encode_eq_ok h
    have hport := Downlink.port_of_encode_eq_ok h
    rw [← hport] at hframe
    refine ⟨d.bytes.map fun b => (b.toNat : Int), ?_, hframe.isSendable, hframe⟩
    rw [List.map_map]
    unfold Downlink.toDict
    rw [hport]
    rfl
  · intro files env args args' command port hargs hargs'
    have hport : ∀ n, port = some n → isShowable n = true := by
      rintro n rfl
      exact Invocation.isShowable_port_of_ofArguments hargs
    rw [runArguments_of_ofArguments hargs, runArguments_of_ofArguments hargs']
    exact ⟨exit_runEncode command hport true, printsFrame command hport⟩
  · intro files env rest
    have hhex : Invocation.ofArguments env ("encode" :: "--hex" :: rest) = _ :=
      Invocation.ofArguments_hex rest
    cases hargs : Invocation.ofArguments env ("encode" :: rest) with
    | none =>
      rw [hargs] at hhex
      rw [Invocation.exit_runArguments_cons rfl rfl hargs,
        Invocation.exit_runArguments_cons rfl rfl hhex]
    | some i =>
      rw [hargs] at hhex
      rw [runArguments_of_ofArguments hargs, runArguments_of_ofArguments hhex]
      exact exit_run_inHex hargs

/-- The command for an interval of ten minutes, as JSON. -/
def intervalCommand : Text := "\x7b\"interval\": 600\x7d"

theorem encoded_frames_are_sendable_interval :
    Downlink.encode [("interval", .int 600)] (.int 11) = .ok ⟨[0, 0, 2, 88], .int 11⟩ ∧
    Downlink.IsFrame [("interval", .int 600)] (.int 11) [0, 0, 2, 88] ∧
    Invocation.ofArguments [] ["encode", "--hex", intervalCommand, "-p", "11"] =
      some (.encode intervalCommand (some 11) true) ∧
    Invocation.ofArguments [] ["encode", intervalCommand, "-p", "11"] =
      some (.encode intervalCommand (some 11) false) ∧
    (runArguments (fun _ => .absent) [] ["encode", intervalCommand, "-p", "11"]).exit = 0 ∧
    (runArguments (fun _ => .absent) [] ["encode", "--hex", intervalCommand, "-p", "11"]).exit = 0 ∧
    PrintsFrame intervalCommand (some 11)
      (runArguments (fun _ => .absent) [] ["encode", "--hex", intervalCommand, "-p", "11"])
      (runArguments (fun _ => .absent) [] ["encode", intervalCommand, "-p", "11"]) := by
  obtain ⟨hsendable, halike, hexits⟩ := encoded_frames_are_sendable
  have hencode : Downlink.encode [("interval", .int 600)] (.int 11) =
      .ok ⟨[0, 0, 2, 88], .int 11⟩ := by decide +kernel
  have hhex : Invocation.ofArguments [] ["encode", "--hex", intervalCommand, "-p", "11"] =
      some (.encode intervalCommand (some 11) true) := by decide +kernel
  have hjson : Invocation.ofArguments [] ["encode", intervalCommand, "-p", "11"] =
      some (.encode intervalCommand (some 11) false) := by decide +kernel
  have hexit : (runArguments (fun _ => .absent) [] ["encode", intervalCommand, "-p", "11"]).exit =
      0 := by decide +kernel
  obtain ⟨-, -, -, hframe⟩ := hsendable _ _ _ hencode
  have hsame := hexits (fun _ => .absent) [] [intervalCommand, "-p", "11"]
  exact ⟨hencode, hframe, hhex, hjson, hexit, hsame.trans hexit,
    (halike (fun _ => .absent) [] _ _ _ _ hhex hjson).2 hexit⟩

end FarmLink.Cli
