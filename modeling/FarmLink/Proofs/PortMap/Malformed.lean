import FarmLink.Proofs.PortMap.Construction
import FarmLink.Proofs.Value.Conversion

/-!
# Malformed - how tables without a map fail

A malformed table is refused with an error that says that a value is not a valid one. Four kinds of
files are not refused but break the reading with an error of another kind, and `Derails` lists
them: too deep a document, a scalar in place of the list of entries, an entry whose port is an
infinite double, and one whose decoder is a list or a dict. An entry only does so if the reading
gets that far, so the items in front of it must make up a map (`breaks_ofFile_iff`).
-/

namespace FarmLink

/-- A result that is a failure of another kind than a value that is not a valid one. -/
def Breaks {α : Type} (x : Except Failure α) : Prop := ∃ f, x = .error f ∧ f.isInvalidValue = false

section Breaks

variable {α β : Type}

theorem breaks_error_iff {f : Failure} :
    Breaks (.error f : Except Failure α) ↔ f.isInvalidValue = false := by
  simp only [Breaks, Except.error.injEq, exists_eq_left']

theorem not_breaks_ok (a : α) : ¬ Breaks (.ok a) := by
  rintro ⟨f, h, -⟩
  cases h

/-- Faults of a table are told as values that are not valid, also where they cannot be shown. -/
theorem not_breaks_failure (fault : TableFault) :
    ¬ Breaks (.error fault.failure : Except Failure α) := by
  rw [breaks_error_iff, Bool.not_eq_false]
  unfold TableFault.failure
  split <;> rfl

theorem breaks_bind_iff {x : Except Failure α} {f : α → Except Failure β} :
    Breaks (x >>= f) ↔ Breaks x ∨ ∃ a, x = .ok a ∧ Breaks (f a) := by
  cases x with
  | error e =>
    change Breaks (.error e) ↔ _
    simp only [breaks_error_iff, reduceCtorEq, false_and, exists_false, or_false]
  | ok a =>
    change Breaks (f a) ↔ _
    simp only [not_breaks_ok, false_or, Except.ok.injEq, exists_eq_left']

/-- What does not break is a result or is refused for a value that is not valid. -/
theorem not_breaks_iff {x : Except Failure α} :
    ¬ Breaks x ↔ (∃ a, x = .ok a) ∨ ∃ f, x = .error f ∧ f.isInvalidValue = true := by
  cases x with
  | error f => simp only [breaks_error_iff, Bool.not_eq_false, reduceCtorEq, exists_false, false_or,
      Except.error.injEq, exists_eq_left']
  | ok a => simp only [not_breaks_ok, not_false_eq_true, Except.ok.injEq, exists_eq', true_or]

end Breaks

/-! ### Entries -/

namespace PortDef

variable {entry : Dict Value}

/-- An entry that breaks the reading: its port is an infinite double, or its port is a number and
its decoder is a list or a dict. -/
inductive Derails (entry : Dict Value) : Prop
  | port {x : Double} (hport : entry.get? "port" = some (.float x)) (hx : x.isInfinite = true)
  | decoder {v w : Value} {n : Int} (hport : entry.get? "port" = some v) (hn : v.toInt = .ok n)
      (hdecoder : entry.get? "decoder" = some w) (hw : w.IsContainer)

theorem breaks_portOf_iff :
    Breaks (portOf entry) ↔ ∃ x, entry.get? "port" = some (.float x) ∧ x.isInfinite = true := by
  unfold portOf
  cases entry.get? "port" with
  | none => simp only [not_breaks_failure, reduceCtorEq, false_and, exists_false]
  | some v =>
    have hlarge : v.toInt = .error .tooLarge ↔ ∃ x, some v = some (.float x) ∧ x.isInfinite := by
      simp only [Value.toInt_eq_tooLarge_iff, Option.some.injEq]
    rw [← hlarge]
    cases hn : v.toInt with
    | ok n => simp only [hn, not_breaks_ok, reduceCtorEq]
    | error m =>
      cases m with
      | wrongKind => simp only [hn, not_breaks_failure, Except.error.injEq, reduceCtorEq]
      | tooLarge => simp only [hn, breaks_error_iff, Failure.isInvalidValue]
      | malformed | tooLong =>
        simp only [hn, breaks_error_iff, Failure.isInvalidValue, Except.error.injEq, reduceCtorEq,
          Bool.true_eq_false]

theorem breaks_decoderOf_iff {n : Int} :
    Breaks (decoderOf entry n) ↔ ∃ w, entry.get? "decoder" = some w ∧ w.IsContainer := by
  unfold decoderOf
  cases entry.get? "decoder" with
  | none => simp only [not_breaks_failure, reduceCtorEq, false_and, exists_false]
  | some w =>
    simp only [Option.some.injEq, exists_eq_left']
    by_cases hw : w.IsContainer
    · simp only [Value.key_of_isContainer hw, breaks_error_iff, Failure.isInvalidValue, hw]
    · simp only [Value.key_of_not_isContainer hw, hw, iff_false]
      split
      · exact not_breaks_ok _
      · exact not_breaks_failure _

/-- **The entries that break the reading.** -/
theorem breaks_ofEntry_iff : Breaks (ofEntry entry) ↔ Derails entry := by
  have hrange : ∀ (n : Int) (decoder : Decoder), ¬ Breaks (if h : firstPort ≤ n ∧ n ≤ lastPort then
      return { port := n.toNat, decoder, description := descriptionOf entry, port_mem := by omega }
      else .error (TableFault.portRange (.int n)).failure : Except Failure PortDef) := by
    intro n decoder
    split
    · exact not_breaks_ok _
    · exact not_breaks_failure _
  unfold ofEntry
  simp only [breaks_bind_iff, hrange, and_false, exists_false, or_false, breaks_portOf_iff,
    breaks_decoderOf_iff, portOf_eq_ok_iff]
  constructor
  · rintro (⟨x, hport, hx⟩ | ⟨n, ⟨v, hport, hn⟩, w, hdecoder, hw⟩)
    · exact .port hport hx
    · exact .decoder hport hn hdecoder hw
  · rintro (⟨hport, hx⟩ | ⟨hport, hn, hdecoder, hw⟩)
    · exact .inl ⟨_, hport, hx⟩
    · exact .inr ⟨_, ⟨_, hport, hn⟩, _, hdecoder, hw⟩

end PortDef

/-! ### Tables -/

/-- A value without items: nothing, a truth value or a number. -/
def Value.IsScalar : Value → Prop
  | null => True
  | bool _ => True
  | int _ => True
  | float _ => True
  | _ => False

namespace PortMap

/-- One item: a dict breaks the reading if its entry does, whatever is in the map. -/
theorem breaks_addItem_iff {m : PortMap} {item : Value} :
    Breaks (m.addItem item) ↔ ∃ entry, item = .dict entry ∧ PortDef.Derails entry := by
  cases item with
  | dict entry =>
    have hnew : ∀ d : PortDef, ¬ Breaks (if new : m.find? d.port = none then return m.insert d new
        else .error (TableFault.duplicate d.port).failure : Except Failure PortMap) := by
      intro d
      split
      · exact not_breaks_ok _
      · exact not_breaks_failure _
    unfold addItem
    simp only [breaks_bind_iff, hnew, and_false, exists_false, or_false, PortDef.breaks_ofEntry_iff,
      Value.dict.injEq, exists_eq_left']
  | null | bool _ | int _ | float _ | text _ | list _ =>
    simp only [addItem, not_breaks_ok, reduceCtorEq, false_and, exists_false]

/-- Items that break the reading: an entry among them does, behind items that make up a map. -/
def ItemsDerail (items : List Value) : Prop :=
  ∃ before entry after, items = before ++ .dict entry :: after ∧ (∃ m, ofItems before = .ok m) ∧
    PortDef.Derails entry

theorem breaks_ofItems_iff {items : List Value} : Breaks (ofItems items) ↔ ItemsDerail items := by
  constructor
  · rintro ⟨f, h, hf⟩
    obtain ⟨before, item, after, m, rfl, hbefore, hitem⟩ := foldlM_eq_error_iff.1 h
    obtain ⟨entry, rfl, hentry⟩ := breaks_addItem_iff.1 ⟨f, hitem, hf⟩
    exact ⟨before, entry, after, rfl, ⟨m, hbefore⟩, hentry⟩
  · rintro ⟨before, entry, after, rfl, ⟨m, hbefore⟩, hentry⟩
    obtain ⟨f, hitem, hf⟩ := breaks_addItem_iff.2 ⟨entry, rfl, hentry⟩
    exact ⟨f, foldlM_eq_error_iff.2 ⟨before, _, after, m, rfl, hbefore, hitem⟩, hf⟩

/-- Texts among items are passed over, so they do not break the reading. -/
theorem not_itemsDerail_map_text {α : Type} (f : α → Text) (as : List α) :
    ¬ ItemsDerail (as.map fun a => .text (f a)) := by
  rintro ⟨before, entry, after, h, -⟩
  have hmem : Value.dict entry ∈ as.map fun a => .text (f a) :=
    h ▸ List.mem_append_right _ List.mem_cons_self
  obtain ⟨a, -, ha⟩ := List.mem_map.1 hmem
  cases ha

/-- A table that breaks the reading: a scalar, or a list whose items do. -/
inductive TableDerails : Value → Prop
  | scalar {v : Value} (h : v.IsScalar) : TableDerails v
  | items {items : List Value} (h : ItemsDerail items) : TableDerails (.list items)

theorem breaks_ofTable_iff {table : Value} : Breaks (ofTable table) ↔ TableDerails table := by
  cases table with
  | null | bool _ | int _ | float _ =>
    exact ⟨fun _ => .scalar trivial, fun _ => ⟨_, rfl, rfl⟩⟩
  | list items =>
    change Breaks (ofItems items) ↔ _
    rw [breaks_ofItems_iff]
    constructor
    · exact .items
    · rintro (h | h)
      · exact absurd h id
      · exact h
  | text t =>
    change Breaks (ofItems (t.map fun c => .text [c])) ↔ _
    rw [breaks_ofItems_iff, iff_false_left (not_itemsDerail_map_text (fun c => [c]) t)]
    rintro ⟨h⟩
    exact h
  | dict entries =>
    change Breaks (ofItems (entries.map fun e => .text e.1)) ↔ _
    rw [breaks_ofItems_iff, iff_false_left (not_itemsDerail_map_text Prod.fst entries)]
    rintro ⟨h⟩
    exact h

/-! ### Documents and files -/

/-- A document that breaks the reading: it is too deep, or holds a table that does. -/
inductive DocumentDerails (t : Text) : Prop
  | depth (hread : Json.read t = .error .tooDeep)
  | table {v : Value} (hread : Json.read t = .ok v) (htable : TableDerails (tableOf v))

theorem breaks_ofDocument_iff {t : Text} : Breaks (ofDocument t) ↔ DocumentDerails t := by
  unfold ofDocument
  cases hread : Json.read t with
  | error flaw =>
    simp only [breaks_error_iff]
    constructor
    · intro h
      cases flaw with
      | tooDeep => exact .depth hread
      | malformed | tooLong => cases h
    · rintro (hdeep | ⟨hok, -⟩)
      · cases hread.symm.trans hdeep
        rfl
      · cases hread.symm.trans hok
  | ok v =>
    simp only [breaks_ofTable_iff]
    constructor
    · exact .table hread
    · rintro (hdeep | ⟨hok, htable⟩)
      · cases hread.symm.trans hdeep
      · cases hread.symm.trans hok
        exact htable

/-- A file that breaks the reading. One that is no text does not. -/
def Derails (bs : Bytes) : Prop := ∃ t, Text.ofUtf8? bs = some t ∧ DocumentDerails t

/-- **The files that break the reading.**  All other files have a map, or are refused for a value
that is not a valid one. -/
theorem breaks_ofFile_iff {bs : Bytes} : Breaks (ofFile bs) ↔ Derails bs := by
  unfold ofFile Derails
  cases Text.ofUtf8? bs with
  | none =>
    simp only [breaks_error_iff, Failure.isInvalidValue, Bool.true_eq_false, reduceCtorEq,
      false_and, exists_false]
  | some t => simp only [breaks_ofDocument_iff, Option.some.injEq, exists_eq_left']

end PortMap

end FarmLink
