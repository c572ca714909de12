import FarmLink.Proofs.PortMap.Construction

/-!
# Views - what a port map answers

A map is asked for its definitions in order, for how many there are, whether it has a port, for the
definition of a port and for its decoder. All answers about a port come from one look-up, which
finds a definition exactly if its port equals what is asked for (`lookupKey_of_equals`,
`lookupKey_of_unlisted`). Any value but a list or a dict may be asked for; those that are no
numbers equal no port. `built_iff` ties the answers to the table that the map was built from.
-/

namespace FarmLink

namespace PortMap

/-! ### Answers about a port -/

/-- Some definition's port equals a value. -/
def Lists (m : PortMap) (p : Value) : Prop := ∃ d ∈ m.defs, p.equals d.port = true

/-- The decoder that has the name in the definition of a port. -/
def decoderFor (m : PortMap) (p : Value) : Except Failure (Option Decoder) := do
  let d ← m.lookup p
  return Decoder.ofName? d.decoder.name

section Answers

variable {m : PortMap} {p : Value} {d : PortDef}

theorem lookupKey_of_equals (hp : ¬ p.IsContainer) (hd : d ∈ m.defs) (h : p.equals d.port = true) :
    m.lookupKey p = .ok (some d) := by
  have hwhole : p.whole? = some (d.port : Int) := beq_iff_eq.1 h
  unfold lookupKey
  rw [Value.key_of_not_isContainer hp, hwhole]
  exact congrArg _ (find?_of_mem hd)

theorem lookupKey_of_unlisted (hp : ¬ p.IsContainer) (h : ¬ m.Lists p) : m.lookupKey p = .ok none := by
  unfold lookupKey
  rw [Value.key_of_not_isContainer hp]
  refine congrArg Except.ok ?_
  cases hwhole : p.whole? with
  | none => rfl
  | some n =>
    refine List.find?_eq_none.2 fun d hd heq => h ⟨d, hd, ?_⟩
    have hn : (d.port : Int) = n := beq_iff_eq.1 heq
    exact beq_iff_eq.2 (hwhole.trans (congrArg some hn.symm))

theorem contains_of_lookupKey {found : Option PortDef} (h : m.lookupKey p = .ok found) :
    m.contains p = .ok found.isSome := by
  unfold contains
  rw [h]
  rfl

theorem lookup_of_lookupKey (h : m.lookupKey p = .ok (some d)) : m.lookup p = .ok d := by
  unfold lookup
  rw [h]

theorem lookup_of_lookupKey_none (hshow : p.isShowable = true) (h : m.lookupKey p = .ok none) :
    m.lookup p = .error (.codec (.unknownPort p)) := by
  unfold lookup
  rw [h]
  exact congrArg Except.error (if_pos hshow)

/-- The name in a definition is always that of its decoder. -/
theorem decoderFor_of_lookup (h : m.lookup p = .ok d) : m.decoderFor p = .ok (some d.decoder) := by
  unfold decoderFor
  rw [h]
  exact congrArg Except.ok (Decoder.ofName?_eq_some_iff.2 rfl)

theorem decoderFor_of_lookup_error {f : Failure} (h : m.lookup p = .error f) :
    m.decoderFor p = .error f := by
  unfold decoderFor
  rw [h]
  rfl

end Answers

/-- The answers about a value agree with each other and with the table. -/
structure Agrees (items : List Value) (m : PortMap) (p : Value) : Prop where
  contains_iff : m.contains p = .ok true ↔ m.Lists p
  lookup_iff : (∃ d, m.lookup p = .ok d) ↔ m.Lists p
  found : ∀ d, m.lookup p = .ok d → p.equals d.port = true ∧
    (∃ entry ∈ dictsOf items, PortDef.Gives entry d) ∧ m.decoderFor p = .ok (some d.decoder)
  missed : ¬ m.Lists p → m.contains p = .ok false ∧
    m.lookup p = .error (.codec (.unknownPort p)) ∧
    m.decoderFor p = .error (.codec (.unknownPort p))

/-- A map with one definition for each dict of a table, and answers that agree. -/
structure IsMapOf (items : List Value) (m : PortMap) : Prop where
  size_eq : m.size = (dictsOf items).length
  ascending : m.defs.Pairwise fun a b => a.port < b.port
  listing : ∃ ds, List.Forall₂ PortDef.Gives (dictsOf items) ds ∧ m.defs.Perm ds
  agrees : ∀ p : Value, ¬ p.IsContainer → p.isShowable = true → Agrees items m p

theorem agrees_of_gives {items : List Value} {m : PortMap} {p : Value}
    (hgives : ∀ d ∈ m.defs, ∃ entry ∈ dictsOf items, PortDef.Gives entry d)
    (hp : ¬ p.IsContainer) (hshow : p.isShowable = true) : Agrees items m p := by
  by_cases hlists : m.Lists p
  · obtain ⟨d, hd, heq⟩ := hlists
    have hkey := lookupKey_of_equals hp hd heq
    have hlookup := lookup_of_lookupKey hkey
    refine ⟨iff_of_true (contains_of_lookupKey hkey) ⟨d, hd, heq⟩,
      iff_of_true ⟨d, hlookup⟩ ⟨d, hd, heq⟩, ?_, fun h => absurd ⟨d, hd, heq⟩ h⟩
    intro e he
    have hed : d = e := Except.ok.inj (hlookup.symm.trans he)
    subst hed
    exact ⟨heq, hgives d hd, decoderFor_of_lookup hlookup⟩
  · have hkey := lookupKey_of_unlisted hp hlists
    have hcontains := contains_of_lookupKey hkey
    have hlookup := lookup_of_lookupKey_none hshow hkey
    have hnever : ∀ d, m.lookup p ≠ .ok d := by
      intro d hd
      rw [hlookup] at hd
      cases hd
    refine ⟨iff_of_false ?_ hlists, iff_of_false ?_ hlists, fun d hd => absurd hd (hnever d),
      fun _ => ⟨hcontains, hlookup, decoderFor_of_lookup_error hlookup⟩⟩
    · rw [hcontains]
      exact fun h => Bool.false_ne_true (Except.ok.inj h)
    · exact fun ⟨d, hd⟩ => hnever d hd

/-- The map of a table holds what the table says, and nothing else. -/
theorem isMapOf_of_ofItems {items : List Value} {m : PortMap} (h : ofItems items = .ok m) :
    IsMapOf items m := by
  obtain ⟨ds, hgives, -, hperm⟩ := ofItems_eq_ok_iff.1 h
  refine ⟨hperm.length_eq.trans hgives.length_eq.symm, m.sorted, ⟨ds, hgives, hperm⟩, ?_⟩
  refine fun p => agrees_of_gives fun d hd => ?_
  exact exists_mem_of_forall₂ hgives.flip d (hperm.mem_iff.1 hd)

/-! ### Tables as they are handed over -/

/-- What comes of items in place of the standard table, of a file that lists them, and of one that
holds them under `entries`. -/
inductive BuildOf (items : List Value) : Except Failure PortMap → Prop
  | override : BuildOf items (ofOverride (.list items))
  | list {bs : Bytes} {t : Text} : Text.ofUtf8? bs = some t →
      Json.read t = .ok (.list items) → BuildOf items (ofFile bs)
  | entries {bs : Bytes} {t : Text} {d : Dict Value} : Text.ofUtf8? bs = some t →
      Json.read t = .ok (.dict d) → d.get? "entries" = some (.list items) →
      BuildOf items (ofFile bs)

theorem BuildOf.eq_ofItems {items : List Value} {build : Except Failure PortMap}
    (h : BuildOf items build) : build = ofItems items := by
  cases h with
  | override => rfl
  | list ht hread =>
    unfold ofFile ofDocument
    simp only [ht, hread]
    rfl
  | entries ht hread hentries =>
    unfold ofFile ofDocument tableOf
    simp only [ht, hread, hentries]
    rfl

/-- **Port maps are built from proper tables, and answer for them.**  A map comes of a table
exactly if each dict in it is a proper entry and no two have the same number, and then it has one
definition for each, and its answers agree about every number and all else that can be asked for. -/
theorem built_iff {items : List Value} {build : Except Failure PortMap}
    (h : BuildOf items build) :
    ((∃ m, build = .ok m) ↔
      (∀ entry ∈ dictsOf items, PortDef.IsProper entry) ∧
        (dictsOf items).Pairwise fun a b => PortDef.number? a ≠ PortDef.number? b) ∧
    ∀ m, build = .ok m → IsMapOf items m := by
  rw [h.eq_ofItems]
  exact ⟨exists_ofItems_iff, fun _ => isMapOf_of_ofItems⟩

/-- A table with a port that is a text, one that is a truth value, and an item that is no dict. -/
def spelledTable : Text :=
  "[\x7b\"port\": \"7\", \"decoder\": \"telemetry\"\x7d, 3, " ++
    "\x7b\"port\": true, \"decoder\": \"registration\"\x7d]"

def spelledItems : List Value :=
  [.dict [("port", .text "7"), ("decoder", .text "telemetry")], .int 3,
    .dict [("port", .bool true), ("decoder", .text "registration")]]

/-- The table above in a file, each character as one byte. -/
def spelledFile : Bytes := spelledTable.map fun c => UInt8.ofNat c.toNat

theorem built_iff_spelled :
    BuildOf spelledItems (ofFile spelledFile) ∧
    ∃ m, ofFile spelledFile = .ok m ∧ IsMapOf spelledItems m := by
  have hbuild : BuildOf spelledItems (ofFile spelledFile) :=
    .list (t := spelledTable) (by decide +kernel) (by decide +kernel)
  have hproper : ∀ entry ∈ dictsOf spelledItems, PortDef.IsProper entry := by
    intro entry hentry
    rcases List.mem_pair.1 hentry with rfl | rfl
    · exact ⟨⟨.text "7", 7, rfl, by decide, by decide, by decide⟩, "telemetry", rfl, by decide⟩
    · exact ⟨⟨.bool true, 1, rfl, rfl, by decide, by decide⟩, "registration", rfl, by decide⟩
  obtain ⟨hiff, hmap⟩ := built_iff hbuild
  obtain ⟨m, hm⟩ := hiff.2 ⟨hproper, by decide⟩
  exact ⟨hbuild, m, hm, hmap m hm⟩

end PortMap

end FarmLink
