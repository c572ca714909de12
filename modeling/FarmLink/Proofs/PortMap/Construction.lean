import FarmLink.PortMap.Table
import FarmLink.Proofs.Sequence
import Mathlib.Data.List.Sort

/-!
# Construction - the port map of a list of items

A dict among the items is a proper entry if it has the number of an application port and the name
of a decoder, and then there is one definition that it `Gives`. The loop over the items is told by
`foldlM_addItem_eq_ok_iff`: it goes through where every dict gives a definition of a port not yet
in the map, and what it leaves are the definitions of before and the new ones, in the order of
their ports. Since that order is part of a map, `eq_of_perm` makes it the only such map.
-/

namespace FarmLink

/-! ### What an entry says -/

namespace Decoder

theorem ofName?_eq_some_iff {t : Text} {d : Decoder} : ofName? t = some d ↔ d.name = t := by
  constructor
  · intro h
    simpa only [beq_iff_eq] using List.find?_some h
  · rintro rfl
    cases d <;> rfl

end Decoder

namespace PortDef

variable {entry : Dict Value}

/-- An entry with the number of an application port and the name of a decoder. -/
structure IsProper (entry : Dict Value) : Prop where
  port : ∃ v n, entry.get? "port" = some v ∧ v.toInt = .ok n ∧ firstPort ≤ n ∧ n ≤ lastPort
  decoder : ∃ name, entry.get? "decoder" = some (.text name) ∧ name ∈ Decoder.all.map Decoder.name

/-- A definition that says what an entry does; a description that is no text says nothing. -/
structure Gives (entry : Dict Value) (d : PortDef) : Prop where
  port : ∃ v, entry.get? "port" = some v ∧ v.toInt = .ok (d.port : Int)
  decoder : entry.get? "decoder" = some (.text d.decoder.name)
  description : ∀ t, d.description = some t ↔ entry.get? "description" = some (.text t)

/-- The whole number that stands for the port of an entry, if there is one. -/
def number? (entry : Dict Value) : Option Int :=
  (entry.get? "port").bind fun v => v.toInt.toOption

theorem Gives.number? {d : PortDef} (h : Gives entry d) : number? entry = some (d.port : Int) := by
  obtain ⟨v, hv, hn⟩ := h.port
  unfold PortDef.number?
  rw [hv, Option.bind_some, hn]
  rfl

/-- Definitions differ in their ports where the entries differ in their numbers. -/
theorem nodup_number?_iff {entries : List (Dict Value)} {ds : List PortDef}
    (h : List.Forall₂ Gives entries ds) :
    (entries.map PortDef.number?).Nodup ↔ (ds.map PortDef.port).Nodup := by
  have hmap : entries.map PortDef.number? =
      (ds.map PortDef.port).map fun n : Nat => some (n : Int) := by
    induction h with
    | nil => rfl
    | cons hd _ ih => rw [List.map_cons, List.map_cons, List.map_cons, hd.number?, ih]
  rw [hmap]
  refine List.nodup_map_iff fun a b h => ?_
  exact Int.ofNat.inj (Option.some.inj h)

theorem portOf_eq_ok_iff {n : Int} :
    portOf entry = .ok n ↔ ∃ v, entry.get? "port" = some v ∧ v.toInt = .ok n := by
  unfold portOf
  cases entry.get? "port" with
  | none => simp only [reduceCtorEq, false_and, exists_false]
  | some v =>
    simp only [Option.some.injEq, exists_eq_left']
    cases v.toInt with
    | ok m => simp only [Except.ok.injEq]
    | error m => cases m <;> simp only [reduceCtorEq]

theorem decoderOf_eq_ok_iff {n : Int} {decoder : Decoder} :
    decoderOf entry n = .ok decoder ↔ entry.get? "decoder" = some (.text decoder.name) := by
  unfold decoderOf
  cases entry.get? "decoder" with
  | none => simp only [reduceCtorEq]
  | some v =>
    cases v with
    | text name =>
      simp only [Value.key, Option.some.injEq, Value.text.injEq]
      rw [eq_comm (a := name), ← Decoder.ofName?_eq_some_iff]
      cases Decoder.ofName? name <;> simp only [Except.ok.injEq, Option.some.injEq, reduceCtorEq]
    | null | bool _ | int _ | float _ | list _ | dict _ =>
      simp only [Value.key, Option.some.injEq, reduceCtorEq]

theorem descriptionOf_eq_some_iff {t : Text} :
    descriptionOf entry = some t ↔ entry.get? "description" = some (.text t) := by
  unfold descriptionOf
  cases entry.get? "description" with
  | none => simp only [reduceCtorEq]
  | some v => cases v <;> simp only [Option.some.injEq, Value.text.injEq, reduceCtorEq]

/-- **An entry is read as the definition that it gives.** -/
theorem ofEntry_eq_ok_iff {d : PortDef} : ofEntry entry = .ok d ↔ Gives entry d := by
  unfold ofEntry
  simp only [bind_eq_ok]
  constructor
  · rintro ⟨n, hport, decoder, hdecoder, h⟩
    split at h
    · next hn =>
      cases h
      obtain ⟨v, hv, hint⟩ := portOf_eq_ok_iff.1 hport
      refine ⟨⟨v, hv, ?_⟩, decoderOf_eq_ok_iff.1 hdecoder, fun t => descriptionOf_eq_some_iff⟩
      rw [hint, Int.toNat_of_nonneg (by omega)]
    · cases h
  · intro h
    have hrange : (firstPort : Int) ≤ d.port ∧ (d.port : Int) ≤ lastPort := by
      have hmem := d.port_mem
      omega
    have hdescription : descriptionOf entry = d.description :=
      Option.ext fun t => descriptionOf_eq_some_iff.trans (h.description t).symm
    refine ⟨d.port, portOf_eq_ok_iff.2 h.port, d.decoder, decoderOf_eq_ok_iff.2 h.decoder, ?_⟩
    rw [dif_pos hrange]
    simp only [hdescription, Int.toNat_natCast]
    rfl

theorem exists_ofEntry_iff : (∃ d, ofEntry entry = .ok d) ↔ IsProper entry := by
  constructor
  · rintro ⟨d, h⟩
    have hd := ofEntry_eq_ok_iff.1 h
    obtain ⟨v, hv, hn⟩ := hd.port
    have hmem := d.port_mem
    refine ⟨⟨v, d.port, hv, hn, by omega, by omega⟩, d.decoder.name, hd.decoder, ?_⟩
    exact List.mem_map_of_mem (by cases d.decoder <;> decide)
  · rintro ⟨⟨v, n, hv, hn, hfirst, hlast⟩, name, hname, hmem⟩
    obtain ⟨decoder, -, rfl⟩ := List.mem_map.1 hmem
    have hport : ((n.toNat : Nat) : Int) = n := Int.toNat_of_nonneg (by omega)
    exact ⟨{ port := n.toNat, decoder := decoder, description := descriptionOf entry,
             port_mem := by omega },
      ofEntry_eq_ok_iff.2
        ⟨⟨v, hv, hport.symm ▸ hn⟩, hname, fun t => descriptionOf_eq_some_iff⟩⟩

end PortDef

namespace PortMap

/-! ### Definitions in order -/

/-- The order of a map leaves no choice of its definitions' places. -/
theorem eq_of_perm {m n : PortMap} (h : m.defs.Perm n.defs) : m = n := by
  have hdefs : m.defs = n.defs :=
    h.eq_of_pairwise (fun a b _ _ hab hba => absurd hab (Nat.lt_asymm hba)) m.sorted n.sorted
  obtain ⟨mdefs, _⟩ := m
  obtain ⟨ndefs, _⟩ := n
  cases hdefs
  rfl

theorem nodup_ports (m : PortMap) : (m.defs.map PortDef.port).Nodup :=
  List.pairwise_map.2 (m.sorted.imp Nat.ne_of_lt)

theorem insertDef_perm (d : PortDef) (es : List PortDef) : (insertDef d es).Perm (d :: es) := by
  induction es with
  | nil => exact .refl _
  | cons e es ih =>
    unfold insertDef
    split
    · exact .refl _
    · exact (ih.cons e).trans (.swap d e es)

theorem find?_eq_none_iff {m : PortMap} {port : Nat} :
    m.find? port = none ↔ port ∉ m.defs.map PortDef.port := by
  constructor
  · intro h hmem
    obtain ⟨d, hd, hport⟩ := List.mem_map.1 hmem
    exact port_ne_of_find?_eq_none h d hd hport
  · intro h
    refine List.find?_eq_none.2 fun d hd heq => h (List.mem_map.2 ⟨d, hd, ?_⟩)
    have hport : (d.port : Int) = port := beq_iff_eq.1 heq
    omega

/-- Definitions of different ports make up a map. -/
theorem exists_perm : ∀ {ds : List PortDef}, (ds.map PortDef.port).Nodup →
    ∃ m : PortMap, m.defs.Perm ds
  | [], _ => ⟨{}, .refl _⟩
  | d :: ds, h => by
    obtain ⟨hnew, hds⟩ := List.nodup_cons.1 h
    obtain ⟨m, hm⟩ := exists_perm hds
    have hfind : m.find? d.port = none :=
      find?_eq_none_iff.2 (mt (hm.map PortDef.port).mem_iff.1 hnew)
    exact ⟨m.insert d hfind, (insertDef_perm d m.defs).trans (hm.cons d)⟩

/-! ### The loop over the items -/

/-- The dicts among the items of a table. -/
def dictsOf (items : List Value) : List (Dict Value) :=
  items.filterMap fun
    | .dict entry => some entry
    | _ => none

/-- **One item.**  A dict adds the definition that it gives if its port is not in the map. -/
theorem addItem_dict_eq_ok_iff {m n : PortMap} {entry : Dict Value} :
    m.addItem (.dict entry) = .ok n ↔
      ∃ d, PortDef.Gives entry d ∧ d.port ∉ m.defs.map PortDef.port ∧
        n.defs.Perm (d :: m.defs) := by
  unfold addItem
  simp only [bind_eq_ok, PortDef.ofEntry_eq_ok_iff]
  refine exists_congr fun d => and_congr_right fun _ => ?_
  by_cases hnew : m.find? d.port = none
  · rw [dif_pos hnew]
    have hperm : (m.insert d hnew).defs.Perm (d :: m.defs) := insertDef_perm d m.defs
    constructor
    · intro h
      cases h
      exact ⟨find?_eq_none_iff.1 hnew, hperm⟩
    · rintro ⟨-, h⟩
      exact congrArg _ (eq_of_perm (hperm.trans h.symm))
  · rw [dif_neg hnew]
    constructor
    · intro h
      cases h
    · rintro ⟨h, -⟩
      exact absurd (find?_eq_none_iff.2 h) hnew

/-- A definition just added may as well be counted among those still to come. -/
theorem append_perm {m n : PortMap} {d : PortDef} (h : n.defs.Perm (d :: m.defs))
    (ds : List PortDef) : (n.defs ++ ds).Perm (m.defs ++ d :: ds) :=
  (h.append_right ds).trans List.perm_middle.symm

/-- **All items.**  The loop goes through if every dict gives a definition of a port that is new
to it, and leaves those definitions together with the ones of before. -/
theorem foldlM_addItem_eq_ok_iff {items : List Value} {m n : PortMap} :
    items.foldlM addItem m = .ok n ↔
      ∃ ds, List.Forall₂ PortDef.Gives (dictsOf items) ds ∧
        ((m.defs ++ ds).map PortDef.port).Nodup ∧ n.defs.Perm (m.defs ++ ds) := by
  induction items generalizing m with
  | nil =>
    constructor
    · intro h
      cases h
      refine ⟨[], .nil, ?_, ?_⟩
      · rw [List.append_nil]
        exact nodup_ports _
      · rw [List.append_nil]
    · rintro ⟨ds, hgives, -, hperm⟩
      cases hgives
      rw [List.append_nil] at hperm
      rw [eq_of_perm hperm]
      rfl
  | cons item items ih =>
    rw [List.foldlM_cons, bind_eq_ok]
    cases item with
    | dict entry =>
      constructor
      · rintro ⟨k, hk, hrest⟩
        obtain ⟨d, hd, -, hkd⟩ := addItem_dict_eq_ok_iff.1 hk
        obtain ⟨ds, hgives, hnodup, hperm⟩ := ih.1 hrest
        have hperm' := append_perm hkd ds
        refine ⟨d :: ds, .cons hd hgives, ?_, hperm.trans hperm'⟩
        exact ((hperm'.map PortDef.port).nodup_iff).1 hnodup
      · rintro ⟨ds, hgives, hnodup, hperm⟩
        obtain ⟨d, ds, hd, hrest, rfl⟩ := List.forall₂_cons_left_iff.1 hgives
        have hnew : d.port ∉ m.defs.map PortDef.port := by
          rw [List.map_append, List.map_cons] at hnodup
          exact fun hmem => (List.nodup_append.1 hnodup).2.2 _ hmem _ List.mem_cons_self rfl
        have hfind := find?_eq_none_iff.2 hnew
        have hkd : (m.insert d hfind).defs.Perm (d :: m.defs) := insertDef_perm d m.defs
        have hperm' := append_perm hkd ds
        have hnodup' := ((hperm'.map PortDef.port).nodup_iff).2 hnodup
        exact ⟨m.insert d hfind, addItem_dict_eq_ok_iff.2 ⟨d, hd, hnew, hkd⟩,
          ih.2 ⟨ds, hrest, hnodup', hperm.trans hperm'.symm⟩⟩
    | null | bool _ | int _ | float _ | text _ | list _ =>
      constructor
      · rintro ⟨k, hk, hrest⟩
        cases hk
        exact ih.1 hrest
      · exact fun h => ⟨m, rfl, ih.2 h⟩

/-- **The map of a table** has the definitions that its dicts give, all of different ports. -/
theorem ofItems_eq_ok_iff {items : List Value} {m : PortMap} :
    ofItems items = .ok m ↔
      ∃ ds, List.Forall₂ PortDef.Gives (dictsOf items) ds ∧ (ds.map PortDef.port).Nodup ∧
        m.defs.Perm ds :=
  foldlM_addItem_eq_ok_iff

/-- A table has a map if its dicts are proper entries with different numbers. -/
theorem exists_ofItems_iff {items : List Value} :
    (∃ m, ofItems items = .ok m) ↔
      (∀ entry ∈ dictsOf items, PortDef.IsProper entry) ∧
        (dictsOf items).Pairwise fun a b => PortDef.number? a ≠ PortDef.number? b := by
  have hnodup : ((dictsOf items).map PortDef.number?).Nodup ↔
      (dictsOf items).Pairwise fun a b => PortDef.number? a ≠ PortDef.number? b := List.pairwise_map
  rw [← hnodup]
  constructor
  · rintro ⟨m, hm⟩
    obtain ⟨ds, hgives, hports, -⟩ := ofItems_eq_ok_iff.1 hm
    refine ⟨fun entry hentry => ?_, (PortDef.nodup_number?_iff hgives).2 hports⟩
    obtain ⟨d, -, hd⟩ := exists_mem_of_forall₂ hgives entry hentry
    exact PortDef.exists_ofEntry_iff.1 ⟨d, PortDef.ofEntry_eq_ok_iff.2 hd⟩
  · rintro ⟨hproper, hnumbers⟩
    obtain ⟨ds, hds⟩ := exists_mapM_eq_ok fun entry hentry =>
      PortDef.exists_ofEntry_iff.2 (hproper entry hentry)
    have hgives : List.Forall₂ PortDef.Gives (dictsOf items) ds :=
      (mapM_eq_ok_iff.1 hds).imp fun _ _ => PortDef.ofEntry_eq_ok_iff.1
    have hports := (PortDef.nodup_number?_iff hgives).1 hnumbers
    obtain ⟨m, hm⟩ := exists_perm hports
    exact ⟨m, ofItems_eq_ok_iff.2 ⟨ds, hgives, hports, hm⟩⟩

end PortMap

end FarmLink
