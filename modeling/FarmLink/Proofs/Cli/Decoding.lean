import FarmLink.Proofs.Cli.Escape
import FarmLink.Proofs.Uplink.Documents
import FarmLink.Registration.SystemField

/-!
# Decoding - what a decoded frame looks like on the output

A `decode` invocation ends with the document of what its router hands out, or with nothing on the
output and another status (`runDecode_cases`). Routers hand out values that documents can hold, so
the output is read as the very dict that it was printed from (`decode_output_reads_back`), and as
all doubles in it are finite, no double stands there by a name (`decoded_numbers_are_finite`).
-/

namespace FarmLink

/-! ### Doubles in results -/

namespace Uplink

theorem hasFiniteFloats_decode {p : Payload} {port : Value} {result : Dict Value}
    (h : decode p port = .ok result) : (Value.dict result).HasFiniteFloats :=
  (representable_decode h).hasFiniteFloats

theorem hasFiniteFloats_rawReport (t : Text) (port : Value) :
    (Value.dict (rawReport t port)).HasFiniteFloats := by
  refine Value.hasFiniteFloats_dict (List.forall_mem_cons.2 ⟨?_, List.forall_mem_singleton.2 ?_⟩)
  · exact Value.hasFiniteFloats_dict (List.forall_mem_singleton.2 (Value.hasFiniteFloats_text t))
  · exact Value.hasFiniteFloats_list (List.forall_mem_singleton.2 (Value.hasFiniteFloats_text _))

/-- Whatever is given for a port. -/
theorem hasFiniteFloats_route {m : PortMap} {p : Payload} {port : Value} {result : Dict Value}
    (h : route m p port = .ok result) : (Value.dict result).HasFiniteFloats := by
  rcases route_cases h with ⟨d, data, hdata, rfl⟩ | ⟨t, -, rfl⟩
  · exact (representable_report (Decoder.representable_run hdata)).hasFiniteFloats
  · exact hasFiniteFloats_rawReport t port

end Uplink

namespace SystemField

/-- The bounds that a parameter has. -/
def bounds (f : SystemField) : List Double := f.minValue.toList ++ f.maxValue.toList

theorem isFinite_of_mem_bounds {t : Text} {f : SystemField} (hf : f ∈ listOfText t) :
    ∀ x ∈ f.bounds, x.isFinite = true := by
  obtain ⟨entry, -, hentry⟩ := List.mem_filterMap.1 hf
  unfold ofEntry? at hentry
  simp only at hentry
  split at hentry
  · cases hentry
  · cases hentry
    intro x hx
    rcases List.mem_append.1 hx with hx | hx
    · exact Token.isFinite_of_number? (Option.mem_toList.1 hx)
    · exact Token.isFinite_of_number? (Option.mem_toList.1 hx)

end SystemField

namespace Cli

variable {files : Path → FileState} {env : Environment}

/-! ### The ends of a `decode` invocation -/

/-- What the router that an invocation asks for hands out for its payload. -/
def HandsOut (files : Path → FileState) (payload : Text) (port : Int) (encoding : Text)
    (portMap : Option Text) (rawRouter : Bool) (result : Dict Value) : Prop :=
  ∃ bs, Encoding.readNamed encoding payload = .ok bs ∧
    if rawRouter then Uplink.decode (.bytes bs) (.int port) = .ok result
    else ∃ m, loadPortMap files portMap = .ok m ∧
      Uplink.route m (.bytes bs) (.int port) = .ok result

/-- A program that prints nothing and says so by its status. -/
structure Outcome.IsSilent (o : Outcome) : Prop where
  stdout : o.stdout = []
  exit : o.exit ≠ 0

theorem Outcome.IsComplaint.isSilent {o : Outcome} (h : o.IsComplaint) : o.IsSilent := by
  refine ⟨h.stdout, fun hexit => ?_⟩
  rcases h.exit with h | h
  · cases hexit.symm.trans h
  · cases hexit.symm.trans h

section Decode

variable {args : List Text} {payload encoding : Text} {port : Int} {portMap : Option Text}
  {rawRouter : Bool}

theorem runDecode_of_handsOut {d : Dict Value}
    (h : HandsOut files payload port encoding portMap rawRouter d) :
    runDecode files payload port encoding portMap rawRouter = .document .indented (.dict d) := by
  obtain ⟨bs, hread, hd⟩ := h
  rw [runDecode_of_read hread]
  cases rawRouter with
  | true =>
    have hdecode : Uplink.decode (.bytes bs) (.int port) = .ok d := hd
    rw [if_pos rfl, hdecode]
    rfl
  | false =>
    obtain ⟨m, hmap, hroute⟩ := hd
    rw [if_neg Bool.false_ne_true, hmap]
    simp only [hroute]
    rfl

/-- What no router hands out anything for is complained about. -/
theorem isComplaint_of_not_handsOut
    (h : ¬ ∃ d, HandsOut files payload port encoding portMap rawRouter d) :
    (runDecode files payload port encoding portMap rawRouter).IsComplaint := by
  cases hread : Encoding.readNamed encoding payload with
  | error f =>
    unfold runDecode
    rw [hread]
    exact Outcome.isComplaint_complaint (.inl rfl) _
  | ok bs =>
    rw [runDecode_of_read hread]
    cases rawRouter with
    | true =>
      rw [if_pos rfl]
      cases hdecode : Uplink.decode (.bytes bs) (.int port) with
      | error e => exact isComplaint_routeFailed _
      | ok d => exact absurd ⟨d, bs, hread, hdecode⟩ h
    | false =>
      rw [if_neg Bool.false_ne_true]
      cases hmap : loadPortMap files portMap with
      | error o => exact isComplaint_of_loadPortMap hmap
      | ok m =>
        simp only
        cases hroute : Uplink.route m (.bytes bs) (.int port) with
        | error e => exact isComplaint_routeFailed _
        | ok d => exact absurd ⟨d, bs, hread, m, hmap, hroute⟩ h

theorem isSilent_document {v : Value} (h : v.isShowable = false) (layout : Json.Layout) :
    (Outcome.document layout v).IsSilent := by
  have hdocument : Outcome.document layout v =
      { exit := 1, escaped := some (.mismatch .tooLong) } :=
    if_neg (by rw [h]; exact Bool.false_ne_true)
  rw [hdocument]
  exact ⟨rfl, Nat.one_ne_zero⟩

/-- **How a `decode` invocation ends**: with the document of what is handed out, or with nothing. -/
theorem runDecode_cases :
    (runDecode files payload port encoding portMap rawRouter).IsSilent ∨
    ∃ d, HandsOut files payload port encoding portMap rawRouter d ∧
      (Value.dict d).isShowable = true ∧
      runDecode files payload port encoding portMap rawRouter =
        { stdout := Json.write .indented 0 (.dict d) ++ "\n" } := by
  by_cases hout : ∃ d, HandsOut files payload port encoding portMap rawRouter d
  · obtain ⟨d, hd⟩ := hout
    rw [runDecode_of_handsOut hd]
    cases hshow : (Value.dict d).isShowable with
    | true => exact .inr ⟨d, hd, hshow, Outcome.document_of_isShowable hshow .indented⟩
    | false => exact .inl (isSilent_document hshow .indented)
  · exact .inl (isComplaint_of_not_handsOut hout).isSilent

theorem representable_of_handsOut {d : Dict Value}
    (h : HandsOut files payload port encoding portMap rawRouter d) :
    Json.Representable 5 (.dict d) := by
  obtain ⟨bs, -, h⟩ := h
  cases rawRouter with
  | true => exact Uplink.representable_decode h
  | false =>
    obtain ⟨m, -, h⟩ := h
    exact Uplink.representable_route h

/-- What is printed is read as what is handed out. -/
theorem read_of_handsOut {d : Dict Value}
    (h : HandsOut files payload port encoding portMap rawRouter d)
    (hshow : (Value.dict d).isShowable = true) :
    Json.read (Json.write .indented 0 (.dict d) ++ "\n") = .ok (.dict d) :=
  Json.read_write ((representable_of_handsOut h).mono (show 5 ≤ Json.depthLimit by decide)) hshow
    .indented Json.ends_lineFeed rfl

theorem runArguments_decode
    (h : Invocation.ofArguments env args = some (.decode payload port encoding portMap rawRouter)) :
    runArguments files env args = runDecode files payload port encoding portMap rawRouter :=
  runArguments_of_ofArguments h

/-- **The output of a decoded frame is the frame.**  The program ends with status 0 where its router
hands out a dict whose numbers are not too long, and then its output is read as exactly that. -/
theorem decode_output_reads_back
    (hargs : Invocation.ofArguments env args =
      some (.decode payload port encoding portMap rawRouter)) :
    ((runArguments files env args).exit = 0 ↔
      ∃ d, HandsOut files payload port encoding portMap rawRouter d ∧
        (Value.dict d).isShowable = true) ∧
    ((runArguments files env args).exit = 0 →
      ∃ d, HandsOut files payload port encoding portMap rawRouter d ∧
        Json.read (runArguments files env args).stdout = .ok (.dict d)) := by
  rw [runArguments_decode hargs]
  refine ⟨⟨fun hexit => ?_, ?_⟩, fun hexit => ?_⟩
  · rcases runDecode_cases with hsilent | ⟨d, hd, hshow, -⟩
    · exact absurd hexit hsilent.exit
    · exact ⟨d, hd, hshow⟩
  · rintro ⟨d, hd, hshow⟩
    rw [runDecode_of_handsOut hd, Outcome.document_of_isShowable hshow]
  · rcases runDecode_cases with hsilent | ⟨d, hd, hshow, houtput⟩
    · exact absurd hexit hsilent.exit
    · refine ⟨d, hd, ?_⟩
      rw [houtput]
      exact read_of_handsOut hd hshow

end Decode

/-- Telemetry with a negative zero under a key with a quote, and letters that are escaped. -/
def escapedReadings : Text := "6b223a2d302c5c3ae901"

def escapedBytes : Bytes := [0x6B, 0x22, 0x3A, 0x2D, 0x30, 0x2C, 0x5C, 0x3A, 0xE9, 0x01]

/-- What it says. -/
def escapedResult : Dict Value :=
  [("data", .dict [("k\"", .float (.zero true)), ("\\", .text "é\x01")])]

theorem decode_output_reads_back_escaped :
    Invocation.ofArguments [] ["decode", escapedReadings, "--port", "2", "--raw-router"] =
      some (.decode escapedReadings 2 "hex" none true) ∧
    (runArguments (fun _ => .absent) []
      ["decode", escapedReadings, "--port", "2", "--raw-router"]).exit = 0 ∧
    HandsOut (fun _ => .absent) escapedReadings 2 "hex" none true escapedResult ∧
    Json.read (runArguments (fun _ => .absent) []
      ["decode", escapedReadings, "--port", "2", "--raw-router"]).stdout =
        .ok (.dict escapedResult) := by
  have hargs : Invocation.ofArguments []
      ["decode", escapedReadings, "--port", "2", "--raw-router"] =
        some (.decode escapedReadings 2 "hex" none true) := by decide +kernel
  have hexit : (runArguments (fun _ => .absent) []
      ["decode", escapedReadings, "--port", "2", "--raw-router"]).exit = 0 := by decide +kernel
  obtain ⟨d, hd, hread⟩ := (decode_output_reads_back hargs).2 hexit
  have hresult : d = escapedResult := by
    obtain ⟨bs, hbs, hdecode⟩ := hd
    have hbytes : Encoding.readNamed "hex" escapedReadings = .ok escapedBytes := by decide +kernel
    cases hbytes.symm.trans hbs
    have hvalue : Uplink.decode (.bytes escapedBytes) (.int 2) = .ok escapedResult := by
      decide +kernel
    exact Except.ok.inj (hdecode.symm.trans hvalue)
  rw [← hresult]
  exact ⟨hargs, hexit, hd, hread⟩

/-- **Decoded numbers are finite**, in whatever the routers hand out and in the bounds of parameters
of the device, so no output of a decoded frame spells a double by name. -/
theorem decoded_numbers_are_finite :
    (∀ (p : Payload) (port : Value) (result : Dict Value), Uplink.decode p port = .ok result →
      (Value.dict result).HasFiniteFloats) ∧
    (∀ (m : PortMap) (p : Payload) (port : Value) (result : Dict Value),
      Uplink.route m p port = .ok result → (Value.dict result).HasFiniteFloats) ∧
    (∀ (t : Text), ∀ f ∈ SystemField.listOfText t, ∀ x ∈ f.bounds, x.isFinite = true) ∧
    ∀ (files : Path → FileState) (env : Environment) (args : List Text) (payload : Text)
      (port : Int) (encoding : Text) (portMap : Option Text) (rawRouter : Bool),
      Invocation.ofArguments env args =
        some (.decode payload port encoding portMap rawRouter) →
      Json.NamesNoDouble (runArguments files env args).stdout := by
  refine ⟨fun _ _ _ => Uplink.hasFiniteFloats_decode, fun _ _ _ _ => Uplink.hasFiniteFloats_route,
    fun _ _ => SystemField.isFinite_of_mem_bounds, ?_⟩
  intro files env args payload port encoding portMap rawRouter hargs
  rw [runArguments_decode hargs]
  refine Json.namesNoDouble_of_avoids ?_
  rcases runDecode_cases with hsilent | ⟨d, hd, -, houtput⟩
  · rw [hsilent.stdout]
    exact List.forall_mem_nil _
  · rw [houtput]
    exact Json.avoids_outside_write .indented (representable_of_handsOut hd).hasFiniteFloats
      (by decide)

/-- The readings `a:1e400,b:-Infinity,c:2`, of which two are no doubles. -/
def overflowingReadings : Text := "613a31653430302c623a2d496e66696e6974792c633a32"

def overflowingBytes : Bytes :=
  [0x61, 0x3A, 0x31, 0x65, 0x34, 0x30, 0x30, 0x2C, 0x62, 0x3A, 0x2D, 0x49, 0x6E, 0x66, 0x69, 0x6E,
    0x69, 0x74, 0x79, 0x2C, 0x63, 0x3A, 0x32]

theorem decoded_numbers_are_finite_overflowing :
    (∃ result, Uplink.decode (.bytes overflowingBytes) (.int 2) = .ok result ∧
      (Value.dict result).HasFiniteFloats) ∧
    (∃ result, Uplink.route .standard (.bytes overflowingBytes) (.int 2) = .ok result ∧
      (Value.dict result).HasFiniteFloats) ∧
    (∃ f ∈ SystemField.listOfText "k:n::-1e400:2", f.bounds = [.ofInt 2] ∧
      ∀ x ∈ f.bounds, x.isFinite = true) ∧
    Invocation.ofArguments [] ["decode", overflowingReadings, "--port", "2"] =
      some (.decode overflowingReadings 2 "hex" none false) ∧
    Json.NamesNoDouble (runArguments (fun _ => .absent) []
      ["decode", overflowingReadings, "--port", "2"]).stdout := by
  obtain ⟨hdecode, hroute, hbounds, houtput⟩ := decoded_numbers_are_finite
  have hread : Uplink.decode (.bytes overflowingBytes) (.int 2) = .ok [("data", .dict
      [("a", .text "1e400"), ("b", .text "-Infinity"), ("c", .float (.ofInt 2))])] := by
    decide +kernel
  have hrouted : Uplink.route .standard (.bytes overflowingBytes) (.int 2) = .ok [("data", .dict
      [("a", .text "1e400"), ("b", .text "-Infinity"), ("c", .float (.ofInt 2))])] := by
    decide +kernel
  obtain ⟨f, hf, hbound⟩ : ∃ f ∈ SystemField.listOfText "k:n::-1e400:2",
      f.bounds = [.ofInt 2] := by decide +kernel
  have hargs : Invocation.ofArguments [] ["decode", overflowingReadings, "--port", "2"] =
      some (.decode overflowingReadings 2 "hex" none false) := by decide +kernel
  exact ⟨⟨_, hread, hdecode _ _ _ hread⟩, ⟨_, hrouted, hroute _ _ _ _ hrouted⟩,
    ⟨f, hf, hbound, hbounds _ f hf⟩, hargs, houtput _ _ _ _ _ _ _ _ hargs⟩

end Cli

end FarmLink
