import FarmLink.Proofs.PortMap.Views
import FarmLink.Uplink.Route
import Mathlib.Data.List.Perm.Basic

/-!
# Reordering - the order of the items of a table

The items of a table may come in any order (`build_of_reordered`). The loop over them stops at the
first entry that it cannot take, so tables without a map may fail in other ways when their items
are moved; but whether there is a map, and which, is told by the definitions that the entries give,
taken together.
-/

namespace FarmLink.PortMap

/-- Two maps that give the same answers, and route the same frames alike. -/
structure AnswersAlike (m n : PortMap) : Prop where
  listing : m.defs = n.defs
  size : m.size = n.size
  contains : ∀ p : Value, m.contains p = n.contains p
  lookup : ∀ p : Value, m.lookup p = n.lookup p
  decoderFor : ∀ p : Value, m.decoderFor p = n.decoderFor p
  route : ∀ (p : Payload) (port : Value), Uplink.route m p port = Uplink.route n p port

/-- The definitions are all that a map answers from. -/
theorem answersAlike_of_eq {m n : PortMap} (h : m = n) : AnswersAlike m n := by
  subst h
  exact ⟨rfl, rfl, fun _ => rfl, fun _ => rfl, fun _ => rfl, fun _ _ => rfl⟩

section Reordered

variable {items others : List Value}

theorem dictsOf_perm (h : items.Perm others) : (dictsOf items).Perm (dictsOf others) :=
  h.filterMap _

/-- A map of items is one of the same items in another order. -/
theorem ofItems_of_perm (h : items.Perm others) {m : PortMap} (hm : ofItems items = .ok m) :
    ofItems others = .ok m := by
  obtain ⟨ds, hgives, hnodup, hdefs⟩ := ofItems_eq_ok_iff.1 hm
  -- the definitions move along with the entries that give them
  obtain ⟨moved, hmoved, hperm⟩ := List.perm_comp_forall₂ (dictsOf_perm h).symm hgives
  have hports : (moved.map PortDef.port).Perm (ds.map PortDef.port) := hperm.map _
  exact ofItems_eq_ok_iff.2 ⟨moved, hmoved, hports.nodup_iff.2 hnodup, hdefs.trans hperm.symm⟩

/-- **The order of a table does not matter**, neither for whether there is a map nor for any of its
answers, in whatever way the two tables are handed over. -/
theorem build_of_reordered {build rebuild : Except Failure PortMap} (hperm : items.Perm others)
    (hbuild : BuildOf items build) (hrebuild : BuildOf others rebuild) :
    ((∃ m, build = .ok m) ↔ ∃ n, rebuild = .ok n) ∧
    ∀ m n, build = .ok m → rebuild = .ok n → AnswersAlike m n := by
  rw [hbuild.eq_ofItems, hrebuild.eq_ofItems]
  refine ⟨⟨?_, ?_⟩, fun m n hm hn => ?_⟩
  · rintro ⟨m, hm⟩
    exact ⟨m, ofItems_of_perm hperm hm⟩
  · rintro ⟨n, hn⟩
    exact ⟨n, ofItems_of_perm hperm.symm hn⟩
  · have hmn : Except.ok m = Except.ok n := (ofItems_of_perm hperm hm).symm.trans hn
    exact answersAlike_of_eq (Except.ok.inj hmn)

end Reordered

theorem build_of_reordered_spelled :
    spelledItems.Perm spelledItems.reverse ∧
    BuildOf spelledItems (ofFile spelledFile) ∧
    ∃ m n, ofFile spelledFile = .ok m ∧ ofOverride (.list spelledItems.reverse) = .ok n ∧
      m.defs.map PortDef.port = [1, 7] ∧ AnswersAlike m n := by
  have hperm : spelledItems.Perm spelledItems.reverse := spelledItems.reverse_perm.symm
  have hbuild : BuildOf spelledItems (ofFile spelledFile) :=
    .list (t := spelledTable) (by decide +kernel) (by decide +kernel)
  have hports : (ofFile spelledFile >>= fun m => .ok (m.defs.map PortDef.port)) = .ok [1, 7] := by
    decide +kernel
  obtain ⟨m, hm, hlisted⟩ := bind_eq_ok.1 hports
  obtain ⟨hiff, halike⟩ := build_of_reordered hperm hbuild .override
  obtain ⟨n, hn⟩ := hiff.1 ⟨m, hm⟩
  exact ⟨hperm, hbuild, m, n, hm, hn, Except.ok.inj hlisted, halike m n hm hn⟩

end FarmLink.PortMap
