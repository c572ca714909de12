import FarmLink.Proofs.Cli.Outcome
import FarmLink.Proofs.PortMap.Malformed
import FarmLink.Proofs.PortMap.Relisting

/-!
# Listing - the ports of a file

The list of the ports in a file ends in one of four ways, each told by what the file holds
(`exit_listing`): a list, a complaint about the map, a complaint about something else for the files
that break the reading, and an early end at a description that cannot be printed.
-/

namespace FarmLink.Cli

open Outcome (isWritable)

variable {files : Path → FileState} {env : Environment} {platform : Platform}

/-! ### Lines -/

theorem isAscii_name (d : Decoder) : d.name.IsAscii := by cases d <;> decide

/-- Only the description can keep a line from being printed. -/
theorem isWritable_portLine (d : PortDef) : isWritable (portLine d) platform =
    isWritable (Text.dropEndWhile Text.isBlank (d.description.getD [])) platform := by
  have hport : Text.IsAscii (Text.padStart 4 (Text.ofNat d.port)) :=
    Text.isAscii_append (Text.isAscii_repeated _ (by decide)) (Text.isAscii_ofNat _)
  have hname : Text.IsAscii (Text.padEnd 14 d.decoder.name) :=
    Text.isAscii_append (isAscii_name _) (Text.isAscii_repeated _ (by decide))
  have hfront := Text.isAscii_append (Text.isAscii_append (Text.isAscii_append hport
    (show Text.IsAscii "  " by decide)) hname) (show Text.IsAscii " " by decide)
  exact Outcome.isWritable_dropEndWhile_append Text.isBlank hfront

/-- A map with a description that cannot be printed, blanks at its end apart. -/
def HoldsUnwritable (m : PortMap) (platform : Platform := .utf8) : Prop :=
  ∃ d ∈ m.defs, ∃ t, d.description = some t ∧
    isWritable (Text.dropEndWhile Text.isBlank t) platform = false

theorem holdsUnwritable_iff {m : PortMap} :
    HoldsUnwritable m platform ↔ ∃ l ∈ m.defs.map portLine, isWritable l platform = false := by
  constructor
  · rintro ⟨d, hd, t, ht, hwrite⟩
    refine ⟨_, List.mem_map_of_mem hd, ?_⟩
    rw [isWritable_portLine, ht, Option.getD_some, hwrite]
  · rintro ⟨l, hl, hwrite⟩
    obtain ⟨d, hd, rfl⟩ := List.mem_map.1 hl
    rw [isWritable_portLine] at hwrite
    cases ht : d.description with
    | none =>
      rw [ht] at hwrite
      cases hwrite
    | some t =>
      rw [ht] at hwrite
      exact ⟨d, hd, t, ht, hwrite⟩

/-! ### Lists -/

/-- As JSON the list of a map is the document of its table. -/
theorem runPorts_json {portMap : Option Text} {m : PortMap}
    (hmap : loadPortMap files portMap platform = .ok m) :
    runPorts files portMap true platform =
      { stdout := Json.write .indented 0 m.listing ++ "\n" } := by
  have hrun : runPorts files portMap true platform = .document .indented m.listing platform := by
    unfold runPorts
    rw [hmap]
    rfl
  rw [hrun, Outcome.document_of_isShowable (PortMap.isShowable_listing m)]

/-- The list of a map that has been loaded. -/
theorem runPorts_of_ok {portMap : Option Text} {m : PortMap} (json : Bool)
    (hmap : loadPortMap files portMap platform = .ok m) :
    (json = false ∧ HoldsUnwritable m platform →
      (runPorts files portMap json platform).IsEscape) ∧
    (¬ (json = false ∧ HoldsUnwritable m platform) →
      (runPorts files portMap json platform).IsOrderly ∧
        (runPorts files portMap json platform).exit = 0) := by
  cases json with
  | true =>
    refine ⟨fun h => absurd h.1 (by decide), fun _ => ?_⟩
    rw [runPorts_json hmap]
    exact ⟨⟨rfl, .inl rfl⟩, rfl⟩
  | false =>
    unfold runPorts
    rw [hmap]
    simp only [Bool.false_eq_true, if_false, true_and]
    refine ⟨fun h => ?_, fun h => ?_⟩
    · obtain ⟨l, hl, hwrite⟩ := holdsUnwritable_iff.1 h
      exact Outcome.isEscape_printed hl hwrite
    · have hall : ∀ l ∈ m.defs.map portLine, isWritable l platform = true := by
        intro l hl
        by_contra hwrite
        exact h (holdsUnwritable_iff.2 ⟨l, hl, Bool.eq_false_iff.2 hwrite⟩)
      rw [Outcome.printed_of_forall hall]
      exact ⟨⟨rfl, .inl rfl⟩, rfl⟩

/-! ### Files -/

theorem exit_routeFailed (f : Failure) :
    (routeFailed f).exit = if f.isInvalidValue then 2 else 4 := by
  unfold routeFailed
  split <;> rfl

theorem loadPortMap_of_content {name : Text} {bs : Bytes}
    (hfile : files (Path.ofText name) = .content bs) :
    loadPortMap files (some name) platform =
      (PortMap.ofFile bs platform.fileDepth).mapError routeFailed := by
  unfold loadPortMap
  simp only [hfile]
  cases PortMap.ofFile bs platform.fileDepth <;> rfl

theorem parse_of_ofArguments {args : List Text} {i : Invocation}
    (h : Invocation.ofArguments env args = some i) : Host.standard.parse env args = .ok i := by
  obtain ⟨r, hr, hi⟩ := Option.bind_eq_some_iff.1 h
  cases r with
  | invocation j =>
    cases hi
    simp only [Host.standard, hr]
  | completion => cases hi

theorem runArguments_of_ofArguments {args : List Text} {i : Invocation}
    (h : Invocation.ofArguments env args = some i) : runArguments files env args = run files i := by
  unfold runArguments Host.run
  rw [parse_of_ofArguments h]
  rfl

/-- The command line that asks for the list of a file. -/
theorem ofArguments_listing {name : Text} (h : name ≠ []) :
    Invocation.ofArguments env ["ports", "--port-map", name] = some (.ports (some name) false) := by
  have hread : Invocation.ofArguments env ["ports", "--port-map", name] =
      some (.ports (Text.nonempty? name) false) := rfl
  rw [hread, Text.nonempty?, if_neg h]

/-- **How the list of the ports in a file ends.** -/
theorem exit_listing {args : List Text} {name : Text} {json : Bool} {bs : Bytes}
    (hargs : Invocation.ofArguments env args = some (.ports (some name) json))
    (hfile : files (Path.ofText name) = .content bs) :
    (((∃ m, PortMap.ofFile bs = .ok m) ∨
        ∃ f, PortMap.ofFile bs = .error f ∧ f.isInvalidValue = true) ↔ ¬ PortMap.Derails bs) ∧
    ((runArguments files env args).exit = 0 ↔
      ∃ m, PortMap.ofFile bs = .ok m ∧ ¬ (json = false ∧ HoldsUnwritable m)) ∧
    ((runArguments files env args).exit = 1 ↔
      ∃ m, PortMap.ofFile bs = .ok m ∧ json = false ∧ HoldsUnwritable m) ∧
    ((runArguments files env args).exit = 2 ↔
      ∃ f, PortMap.ofFile bs = .error f ∧ f.isInvalidValue = true) ∧
    ((runArguments files env args).exit = 4 ↔ PortMap.Derails bs) := by
  have hrun : runArguments files env args = runPorts files (some name) json :=
    runArguments_of_ofArguments hargs
  have hload : loadPortMap files (some name) = (PortMap.ofFile bs).mapError routeFailed :=
    loadPortMap_of_content hfile
  rw [hrun, ← PortMap.breaks_ofFile_iff]
  refine ⟨not_breaks_iff.symm, ?_⟩
  cases h : PortMap.ofFile bs with
  | error f =>
    rw [h] at hload
    have hexit : (runPorts files (some name) json).exit = if f.isInvalidValue then 2 else 4 := by
      unfold runPorts
      rw [hload]
      exact exit_routeFailed f
    rw [hexit]
    simp only [breaks_error_iff]
    cases hf : f.isInvalidValue <;> simp [hf]
  | ok m =>
    rw [h] at hload
    obtain ⟨hescape, horderly⟩ := runPorts_of_ok json hload
    by_cases hwrite : json = false ∧ HoldsUnwritable m
    · rw [(hescape hwrite).exit]
      simp [hwrite, not_breaks_ok]
    · rw [(horderly hwrite).2]
      simp only [Except.ok.injEq, exists_eq_left', hwrite, not_breaks_ok]
      simp

/-- A file with one entry, whose decoder is a list. -/
def listDecoder : Bytes :=
  (Text.toBytes? "[\x7b\"port\": 5, \"decoder\": []\x7d]").getD []

theorem ofFile_listDecoder : PortMap.ofFile listDecoder = .error (.mismatch .wrongKind) := by
  decide +kernel

theorem exit_listing_listDecoder :
    Invocation.ofArguments [] ["ports", "--port-map", "map.json"] =
      some (.ports (some "map.json") false) ∧
    PortMap.Derails listDecoder ∧
    (runArguments (fun _ => .content listDecoder) [] ["ports", "--port-map", "map.json"]).exit =
      4 := by
  have hargs : Invocation.ofArguments [] ["ports", "--port-map", "map.json"] =
      some (.ports (some "map.json") false) := ofArguments_listing (by decide)
  have hderails : PortMap.Derails listDecoder :=
    PortMap.breaks_ofFile_iff.1 ⟨_, ofFile_listDecoder, rfl⟩
  obtain ⟨-, -, -, -, hexit⟩ :=
    @exit_listing (fun _ => .content listDecoder) [] _ "map.json" false _ hargs rfl
  exact ⟨hargs, hderails, hexit.2 hderails⟩

/-- **Not every malformed file is refused as a malformed map.** -/
theorem listing_not_always_valid :
    ¬ ∀ (files : Path → FileState) (env : Environment) (name : Text) (bs : Bytes), name ≠ [] →
      files (Path.ofText name) = .content bs →
        ((∃ m, PortMap.ofFile bs = .ok m) ∨
          ∃ f, PortMap.ofFile bs = .error f ∧ f.isInvalidValue = true) ∧
        ((runArguments files env ["ports", "--port-map", name]).exit = 0 ∨
          (runArguments files env ["ports", "--port-map", name]).exit = 2) := by
  intro hall
  obtain ⟨⟨m, hm⟩ | ⟨f, hf, hvalid⟩, -⟩ :=
    hall (fun _ => .content listDecoder) [] "map.json" listDecoder (by decide) rfl
  · cases ofFile_listDecoder.symm.trans hm
  · cases ofFile_listDecoder.symm.trans hf
    cases hvalid

end FarmLink.Cli
