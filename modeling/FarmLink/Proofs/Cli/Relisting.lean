import FarmLink.Proofs.Cli.Listing
import FarmLink.Proofs.PortMap.Reordering

/-!
# Relisting - loading what was listed

The list of a map that is printed as JSON is ASCII text, so it can stand in a file as it is, and
that file has the same map (`listing_reloads`). Whatever else the first file held, such as ports
that are texts, items that are no entries and descriptions that are no texts, is gone from the list,
and a list of the list is the list.
-/

namespace FarmLink.Cli

variable {files : Path → FileState} {env : Environment} {args : List Text} {name : Text}
  {bs : Bytes} {m : PortMap}

/-- What is printed for a file with a map. -/
theorem runArguments_listing
    (hargs : Invocation.ofArguments env args = some (.ports (some name) true))
    (hfile : files (Path.ofText name) = .content bs) (hmap : PortMap.ofFile bs = .ok m) :
    runArguments files env args = { stdout := Json.write .indented 0 m.listing ++ "\n" } := by
  have hload : loadPortMap files (some name) = (PortMap.ofFile bs).mapError routeFailed :=
    loadPortMap_of_content hfile
  rw [hmap] at hload
  exact (runArguments_of_ofArguments hargs).trans (runPorts_json hload)

/-- **What is listed is a port map again, and the same one.**  A second list is the first. -/
theorem listing_reloads
    (hargs : Invocation.ofArguments env args = some (.ports (some name) true))
    (hfile : files (Path.ofText name) = .content bs) (hmap : PortMap.ofFile bs = .ok m) :
    (runArguments files env args).exit = 0 ∧
    ∃ copy, Text.toBytes? (runArguments files env args).stdout = some copy ∧
      Text.ofUtf8? copy = some (runArguments files env args).stdout ∧
      ∃ n, PortMap.ofFile copy = .ok n ∧ PortMap.AnswersAlike m n ∧
        ∀ (files' : Path → FileState) (env' : Environment) (args' : List Text) (name' : Text),
          Invocation.ofArguments env' args' = some (.ports (some name') true) →
          files' (Path.ofText name') = .content copy →
          runArguments files' env' args' = runArguments files env args := by
  have hrun := runArguments_listing hargs hfile hmap
  have hascii : Text.IsAscii (Json.write .indented 0 m.listing ++ "\n") :=
    Text.isAscii_append (Json.isAscii_write .indented 0 m.listing) (by decide)
  obtain ⟨copy, hcopy, htext⟩ := hascii.exists_file
  have hagain : PortMap.ofFile copy = .ok m := by
    unfold PortMap.ofFile
    rw [htext]
    exact PortMap.ofDocument_listing (PortMap.hasUnpairedTexts_of_ofFile hmap) .indented
  rw [hrun]
  refine ⟨rfl, copy, hcopy, htext, m, hagain, PortMap.answersAlike_of_eq rfl, ?_⟩
  intro files' env' args' name' hargs' hfile'
  exact runArguments_listing hargs' hfile' hagain

/-- Two entries out of order, one with a description that is no text, and an item between them. -/
def looseFile : Bytes :=
  (Text.toBytes? (
    "[\x7b\"port\": 9.0, \"decoder\": \"telemetry\", \"description\": \"\\u00e9\\t\"\x7d, " ++
    "3, \x7b\"port\": \"4\", \"decoder\": \"command_ack\", \"description\": 5\x7d]")).getD []

/-- What it says, port by port. -/
def looseRows : List (Nat × Decoder × Option Text) :=
  [(4, .commandAck, none), (9, .telemetry, some "é\t")]

theorem listing_reloads_loose :
    Invocation.ofArguments [] ["ports", "--json", "--port-map", "map.json"] =
      some (.ports (some "map.json") true) ∧
    ∃ m, PortMap.ofFile looseFile = .ok m ∧
      (m.defs.map fun d => (d.port, d.decoder, d.description)) = looseRows ∧
      ∃ copy, copy ≠ looseFile ∧
        Text.ofUtf8? copy = some (runArguments (fun _ => .content looseFile) []
          ["ports", "--json", "--port-map", "map.json"]).stdout ∧
        ∃ n, PortMap.ofFile copy = .ok n ∧ PortMap.AnswersAlike m n ∧
          runArguments (fun _ => .content copy) [] ["ports", "--json", "--port-map", "map.json"] =
            runArguments (fun _ => .content looseFile) []
              ["ports", "--json", "--port-map", "map.json"] := by
  have hargs : Invocation.ofArguments [] ["ports", "--json", "--port-map", "map.json"] =
      some (.ports (some "map.json") true) := by decide +kernel
  have hrows : (PortMap.ofFile looseFile >>= fun m =>
      .ok (m.defs.map fun d => (d.port, d.decoder, d.description))) = .ok looseRows := by
    decide +kernel
  obtain ⟨m, hm, hlisted⟩ := bind_eq_ok.1 hrows
  obtain ⟨-, copy, -, htext, n, hn, halike, hagain⟩ :=
    @listing_reloads (fun _ => .content looseFile) [] _ "map.json" _ _ hargs rfl hm
  have hmoved : copy ≠ looseFile := by
    rintro rfl
    exact absurd htext (by decide +kernel)
  exact ⟨hargs, m, hm, Except.ok.inj hlisted, copy, hmoved, htext, n, hn, halike,
    hagain (fun _ => .content copy) [] _ "map.json" hargs rfl⟩

end FarmLink.Cli
