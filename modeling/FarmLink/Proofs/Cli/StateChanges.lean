import FarmLink.Proofs.Cli.Escape
import FarmLink.Proofs.StateChange.Slices
import FarmLink.Proofs.Uplink.Documents
import FarmLink.Proofs.Uplink.Rejection

/-!
# StateChanges - the status of a batch on the command line

A payload that cannot be read leaves the output empty. Any other one is answered by the JSON of what
is decoded from it: all of its records with status 0, or, where its length is wrong, that error with
status 2 and no record (`AnswersBatch`). No failure leaves the program, whatever the encoding is
called and whatever the payload spells (`state_change_answers`).
-/

namespace FarmLink.Cli

variable {files : Path → FileState} {env : Environment} {payload encoding : Text} {bs : Bytes}

/-! ### Command lines -/

/-- What begins with another character than a dash is an operand. -/
theorem isOption_of_head?_ne {arg : Text} (h : arg.head? ≠ some '-') : isOption arg = false := by
  match arg, h with
  | [], _ | [_], _ => rfl
  | c :: _ :: _, h =>
    have hc : c ≠ '-' := fun hc => h (congrArg some hc)
    exact beq_eq_false_iff_ne.2 hc

/-- The command line that asks for the state changes in a payload; the environment has no say. -/
theorem Invocation.ofArguments_stateChange (h : payload.head? ≠ some '-') (encoding : Text) :
    ofArguments env ["state-change", payload, "--encoding", encoding] =
      some (.stateChange payload encoding) := by
  have hdashes : payload ≠ "--" := by
    rintro rfl
    exact h rfl
  have hsettings : readArguments Command.stateChange.specs true ["--encoding", encoding] =
      some { settings := [(.encoding, some encoding)] } := rfl
  have hread : readArguments Command.stateChange.specs true [payload, "--encoding", encoding] =
      some { settings := [(.encoding, some encoding)], operands := [payload] } := by
    rw [readArguments_operand_cons hdashes (isOption_of_head?_ne h), hsettings]
    rfl
  have hcommand : Command.ofName? "state-change" = some .stateChange := rfl
  rw [ofArguments_cons hcommand rfl, hread]
  rfl

/-! ### Outcomes -/

theorem runStateChange_of_error {f : Failure} (h : Encoding.readNamed encoding payload = .error f) :
    runStateChange payload encoding = .complaint 2 "Invalid payload" := by
  unfold runStateChange
  rw [h]

/-- What is read is answered by a document, with a status by its length. -/
theorem runStateChange_of_read (h : Encoding.readNamed encoding payload = .ok bs) :
    runStateChange payload encoding =
      { exit := if 0 < bs.length ∧ bs.length % 11 = 0 then 0 else 2
        stdout := Json.write .indented 0 (.dict (StateChange.dictOfBytes bs)) ++ "\n" } := by
  have hshow := StateChange.isShowable_dictOfBytes bs
  have hstatus : (if (StateChange.dictOfBytes bs).has "error" then 2 else 0) =
      if 0 < bs.length ∧ bs.length % 11 = 0 then 0 else 2 := by
    by_cases hbatch : 0 < bs.length ∧ bs.length % 11 = 0
    · rw [if_pos hbatch, if_neg]
      rw [StateChange.has_error_dictOfBytes]
      omega
    · rw [if_neg hbatch, if_pos]
      rw [StateChange.has_error_dictOfBytes]
      omega
  unfold runStateChange
  rw [h]
  simp only [Outcome.document_of_isShowable hshow, hstatus]

/-- What is printed is read as what was decoded. -/
theorem read_dictOfBytes (bs : Bytes) :
    Json.read (Json.write .indented 0 (.dict (StateChange.dictOfBytes bs)) ++ "\n") =
      .ok (.dict (StateChange.dictOfBytes bs)) :=
  Json.read_write
    ((StateChange.representable_dictOfBytes bs).mono (show 3 ≤ Json.depthLimit by decide))
    (StateChange.isShowable_dictOfBytes bs) .indented Json.ends_lineFeed rfl

/-- A result that holds the records of a batch and nothing else. -/
def HoldsRecords (bs : Bytes) (result : Dict Value) : Prop :=
  ∃ rs, StateChange.parse (.bytes bs) = .ok rs ∧ rs.length = bs.length / 11 ∧
    result = ([("stateChanges", .list (StateChange.changesOf rs))] : Dict Value)

/-- An output with the JSON of a result, which is read back from it. -/
structure Prints (o : Outcome) (result : Dict Value) : Prop where
  stdout : o.stdout = Json.write .indented 0 (.dict result) ++ "\n"
  read : Json.read o.stdout = .ok (.dict result)

/-- The outcome for a payload of state changes, by what is read from it. -/
structure AnswersBatch (read : Except Failure Bytes) (o : Outcome) : Prop where
  escaped : o.escaped = none
  exit : o.exit = 0 ∨ o.exit = 2
  exit_eq_zero_iff : o.exit = 0 ↔ ∃ bs, read = .ok bs ∧ 0 < bs.length ∧ bs.length % 11 = 0
  stdout_eq_nil_iff : o.stdout = [] ↔ ∃ f, read = .error f
  prints : ∀ bs, read = .ok bs → ∃ result, Decoder.stateChange.run (.bytes bs) = .ok result ∧
    Prints o result ∧ (o.exit = 0 → HoldsRecords bs result) ∧
    (o.exit = 2 → result.has "stateChanges" = false)

theorem holdsRecords_of_batch (hpos : 0 < bs.length) (hmod : bs.length % 11 = 0) :
    HoldsRecords bs (StateChange.dictOfBytes bs) := by
  obtain ⟨rs, hne, hcount, rfl⟩ := StateChange.exists_records hpos hmod
  exact ⟨rs, StateChange.parse_flatMap hne, hcount,
    Except.ok.inj (StateChange.decodes_flatMap hne)⟩

theorem not_has_stateChanges (h : bs.length = 0 ∨ bs.length % 11 ≠ 0) :
    (StateChange.dictOfBytes bs).has "stateChanges" = false := by
  have hresult := (StateChange.refuses_of_length h).2
  rw [StateChange.run_bytes] at hresult
  rw [Except.ok.inj hresult]
  rfl

theorem answersBatch_of_error {f : Failure}
    (h : Encoding.readNamed encoding payload = .error f) :
    AnswersBatch (.error f) (runStateChange payload encoding) := by
  rw [runStateChange_of_error h]
  refine ⟨rfl, .inr rfl, ⟨fun hexit => ?_, ?_⟩, ⟨fun _ => ⟨f, rfl⟩, fun _ => rfl⟩, ?_⟩
  · cases hexit
  · rintro ⟨bs, hbs, -⟩
    cases hbs
  · intro bs hbs
    cases hbs

theorem answersBatch_of_read (h : Encoding.readNamed encoding payload = .ok bs) :
    AnswersBatch (.ok bs) (runStateChange payload encoding) := by
  rw [runStateChange_of_read h]
  refine ⟨rfl, ?_, ?_, ⟨fun hnil => ?_, ?_⟩, ?_⟩
  · simp only
    split
    · exact .inl rfl
    · exact .inr rfl
  · simp only [Except.ok.injEq, exists_eq_left']
    split
    · next hbatch => exact ⟨fun _ => hbatch, fun _ => rfl⟩
    · next hbatch => exact ⟨fun hexit => (nomatch hexit), fun hbs => absurd hbs hbatch⟩
  · exact absurd (List.append_eq_nil_iff.1 hnil).2 (by decide)
  · rintro ⟨f, hf⟩
    cases hf
  · rintro _ ⟨⟩
    refine ⟨_, StateChange.run_bytes bs, ⟨rfl, read_dictOfBytes bs⟩, ?_, ?_⟩
    · simp only
      split
      · next hbatch => exact fun _ => holdsRecords_of_batch hbatch.1 hbatch.2
      · exact fun hexit => nomatch hexit
    · simp only
      split
      · exact fun hexit => nomatch hexit
      · next hbatch => exact fun _ => not_has_stateChanges (by omega)

theorem answersBatch_runStateChange (payload encoding : Text) :
    AnswersBatch (Encoding.readNamed encoding payload) (runStateChange payload encoding) := by
  cases hread : Encoding.readNamed encoding payload with
  | error f => exact answersBatch_of_error hread
  | ok bs => exact answersBatch_of_read hread

/-- **The status of a batch tells whether its length is right.**  For every payload that does not
look like an option and every name of an encoding, the program ends by itself: with status 0 if the
payload is read as a positive multiple of 11 bytes, and with status 2 otherwise.  Nothing is printed
if it cannot be read, which is an invalid value; else the output is the JSON of what its bytes are
decoded as, with all their records or with none. -/
theorem state_change_answers (files : Path → FileState) (env : Environment)
    (hdash : payload.head? ≠ some '-') (encoding : Text) :
    AnswersBatch (Encoding.readNamed encoding payload)
      (runArguments files env ["state-change", payload, "--encoding", encoding]) ∧
    ∀ f, Encoding.readNamed encoding payload = .error f → f.isInvalidValue = true := by
  rw [runArguments_of_ofArguments (Invocation.ofArguments_stateChange hdash encoding)]
  exact ⟨answersBatch_runStateChange payload encoding,
    fun f => Encoding.isInvalidValue_of_readNamed⟩

/-- A record in hex. -/
def recordInHex : Text := "0101000205ffffffff6400"

/-- The record, three bytes in base64, and the record under a name that is no encoding. -/
theorem state_change_answers_lengths :
    recordInHex.head? ≠ some '-' ∧ ("AQID" : Text).head? ≠ some '-' ∧
    (runArguments (fun _ => .absent) []
      ["state-change", recordInHex, "--encoding", "hex"]).exit = 0 ∧
    (runArguments (fun _ => .absent) []
      ["state-change", "AQID", "--encoding", "base64"]).exit = 2 ∧
    (runArguments (fun _ => .absent) []
      ["state-change", "AQID", "--encoding", "base64"]).stdout ≠ [] ∧
    (runArguments (fun _ => .absent) []
      ["state-change", recordInHex, "--encoding", "HEX"]).stdout = [] := by
  have hrecord : recordInHex.head? ≠ some '-' := by decide
  have hthree : ("AQID" : Text).head? ≠ some '-' := by decide
  obtain ⟨hbatch, -⟩ := state_change_answers (fun _ => .absent) [] hrecord "hex"
  obtain ⟨hshort, -⟩ := state_change_answers (fun _ => .absent) [] hthree "base64"
  obtain ⟨hunknown, -⟩ := state_change_answers (fun _ => .absent) [] hrecord "HEX"
  have hread : Encoding.readNamed "hex" recordInHex =
      .ok [1, 1, 0, 2, 5, 255, 255, 255, 255, 100, 0] := by decide +kernel
  have hreadShort : Encoding.readNamed "base64" "AQID" = .ok [1, 2, 3] := by decide +kernel
  refine ⟨hrecord, hthree, hbatch.exit_eq_zero_iff.2 ⟨_, hread, by decide, by decide⟩, ?_, ?_,
    hunknown.stdout_eq_nil_iff.2 ⟨_, rfl⟩⟩
  · refine hshort.exit.resolve_left fun hexit => ?_
    obtain ⟨bs, hbs, -, hmod⟩ := hshort.exit_eq_zero_iff.1 hexit
    cases hreadShort.symm.trans hbs
    cases hmod
  · intro hnil
    obtain ⟨f, hf⟩ := hshort.stdout_eq_nil_iff.1 hnil
    cases hreadShort.symm.trans hf

end FarmLink.Cli
