import FarmLink.Proofs.Telemetry.Readings
import FarmLink.Proofs.Uplink.Handover

/-!
# Diagnostics - telemetry whose firmware version stays a text

A frame of telemetry and the same frame of diagnostics have the same tokens, so they have the same
keys. The value of a key comes from its last pair (`IsLastPair.get?_ofText`), and whether that is
kept as a text depends on the key alone. So the two differ under the key of the firmware version and
nowhere else (`diagnostics_keep_version`).
-/

namespace FarmLink

namespace Telemetry

variable {t token key value : Text}

/-- A token that is a key, a colon, and a value, with no other colon. -/
structure Pairs (token key value : Text) : Prop where
  token : token = key ++ (':' : CodePoint) :: value
  key : (':' : CodePoint) ∉ key
  value : (':' : CodePoint) ∉ value

theorem pairs_iff :
    Pairs token key value ↔ token.count (':' : CodePoint) = 1 ∧ Token.keyOf ':' token = key ∧
      Token.valueOf ':' token = value := by
  have hpair : Pairs token key value ↔ Token.pair? [':'] token = some (key, value) := by
    rw [Token.pair?_eq_some_iff]
    exact ⟨fun h => ⟨h.token, h.key, h.value⟩, fun h => ⟨h.1, h.2.1, h.2.2⟩⟩
  rw [hpair, Token.pair?_eq_ite]
  by_cases hcount : token.count (':' : CodePoint) = 1
  · rw [if_pos hcount, Option.some.injEq, Prod.mk.injEq]
    exact (and_iff_right hcount).symm
  · rw [if_neg hcount]
    exact iff_of_false nofun fun h => hcount h.1

/-- The last pair of a frame with a key gives it this value. -/
def IsLastPair (t key value : Text) : Prop :=
  ∃ before token after, Text.split ',' t = before ++ token :: after ∧ Pairs token key value ∧
    ∀ later ∈ after, ∀ other, ¬ Pairs later key other

theorem isLastPair_iff :
    IsLastPair t key value ↔
      ∃ token, ((pairTokens t).filter fun token => Token.keyOf ':' token = key).getLast? =
        some token ∧ Token.valueOf ':' token = value := by
  unfold pairTokens
  simp only [List.filter_filter, List.getLast?_filter, List.find?_eq_some_iff_append,
    Bool.and_eq_true, Bool.not_eq_true', Bool.and_eq_false_iff, decide_eq_true_eq,
    decide_eq_false_iff_not]
  constructor
  · rintro ⟨before, token, after, hsplit, hpair, hafter⟩
    obtain ⟨hcount, hkey, hvalue⟩ := pairs_iff.1 hpair
    refine ⟨token, ⟨⟨hkey, hcount⟩, after.reverse, before.reverse, ?_, fun later hlater => ?_⟩,
      hvalue⟩
    · rw [hsplit, List.reverse_append, List.reverse_cons, List.append_assoc,
        List.singleton_append]
    · have hother := hafter later (List.mem_reverse.1 hlater) (Token.valueOf ':' later)
      rw [pairs_iff] at hother
      by_contra hboth
      rw [not_or, not_not, not_not] at hboth
      exact hother ⟨hboth.2, hboth.1, rfl⟩
  · rintro ⟨token, ⟨⟨hkey, hcount⟩, after, before, hreverse, hafter⟩, hvalue⟩
    refine ⟨before.reverse, token, after.reverse, ?_, pairs_iff.2 ⟨hcount, hkey, hvalue⟩,
      fun later hlater other hpair => ?_⟩
    · rw [← List.reverse_reverse (Text.split ',' t), hreverse, List.reverse_append,
        List.reverse_cons, List.append_assoc, List.singleton_append]
    · obtain ⟨hcount', hkey', -⟩ := pairs_iff.1 hpair
      rcases hafter later (List.mem_reverse.1 hlater) with hne | hne
      · exact hne hkey'
      · exact hne hcount'

/-- **The last pair counts.** -/
theorem IsLastPair.get?_ofText (h : IsLastPair t key value) (keepText : List Text) :
    (ofText keepText t).get? key = some (readingOf keepText key value) := by
  obtain ⟨token, htoken, rfl⟩ := isLastPair_iff.1 h
  rw [Telemetry.get?_ofText, htoken, Option.map_some]

theorem exists_isLastPair {keepText : List Text} (h : (ofText keepText t).has key = true) :
    ∃ value, IsLastPair t key value := by
  obtain ⟨reading, hreading⟩ := Option.isSome_iff_exists.1 h
  rw [Telemetry.get?_ofText] at hreading
  obtain ⟨token, htoken, -⟩ := Option.map_eq_some_iff.1 hreading
  exact ⟨_, isLastPair_iff.2 ⟨token, htoken, rfl⟩⟩

/-- Keys that are texts in both readings of a frame or in neither have the same value in both. -/
theorem get?_ofText_congr {keepText other : List Text} (h : key ∈ keepText ↔ key ∈ other) :
    (ofText keepText t).get? key = (ofText other t).get? key := by
  have hreading (value : Text) : readingOf keepText key value = readingOf other key value := by
    unfold readingOf
    simp only [List.contains_iff_mem, h]
  simp only [Telemetry.get?_ofText, hreading]

theorem nodup_keys_ofText (keepText : List Text) (t : Text) : (ofText keepText t).keys.Nodup := by
  rw [ofText_eq_ofEntries]
  exact Dict.nodup_keys_ofEntries _

end Telemetry

namespace Decoder

open Telemetry

/-- **Diagnostics are telemetry but for the firmware version.**  Both decoders read every frame, and
find the same keys in the same order, each with the same value, unless it is the key of the version.
Of that key diagnostics keep the text of its last pair, which telemetry reads as a number where one
stands at its front. -/
theorem diagnostics_keep_version {p : Payload} {bs : Bytes} (h : p.toBytes = .ok bs) :
    ∃ data kept, Decoder.telemetry.run p = .ok data ∧ Decoder.diagnostics.run p = .ok kept ∧
      kept.keys = data.keys ∧ kept.keys.Nodup ∧
      (∀ key : Text, key ≠ "fw" → kept.get? key = data.get? key) ∧
      (kept.has "fw" = true → ∃ version, IsLastPair (Text.ofBytes bs) "fw" version ∧
        kept.get? "fw" = some (.text version) ∧
        data.get? "fw" = some (Reading.ofToken version).toValue) := by
  rw [Payload.run_eq_of_toBytes h, Payload.run_eq_of_toBytes h]
  refine ⟨(ofText [] (Text.ofBytes bs)).toDict, (ofText firmwareKeys (Text.ofBytes bs)).toDict,
    rfl, rfl, ?_, ?_, fun key hkey => ?_, fun hversion => ?_⟩
  · simp only [toDict, Dict.keys_mapValues, keys_ofText]
  · rw [toDict, Dict.keys_mapValues]
    exact nodup_keys_ofText _ _
  · have hkeep : key ∈ firmwareKeys ↔ key ∈ ([] : List Text) :=
      iff_of_false (mt List.mem_singleton.1 hkey) List.not_mem_nil
    simp only [toDict, Dict.get?_mapValues, get?_ofText_congr hkeep]
  · have hfound : (ofText firmwareKeys (Text.ofBytes bs)).has "fw" = true := by
      rwa [Dict.has, toDict, Dict.get?_mapValues, Option.isSome_map] at hversion
    obtain ⟨version, hlast⟩ := exists_isLastPair hfound
    refine ⟨version, hlast, ?_, ?_⟩
    · rw [toDict, Dict.get?_mapValues, hlast.get?_ofText]
      rfl
    · rw [toDict, Dict.get?_mapValues, hlast.get?_ofText]
      rfl

/-- The frame `fw:2,t:3V,fw:1:4,fw:1.50`: a version given twice, and once with two colons. -/
def versionsFrame : Bytes :=
  (Text.ofString "fw:2,t:3V,fw:1:4,fw:1.50").map fun c => UInt8.ofNat c.toNat

theorem diagnostics_keep_version_repeated :
    ∃ data kept, Decoder.telemetry.run (.bytes versionsFrame) = .ok data ∧
      Decoder.diagnostics.run (.bytes versionsFrame) = .ok kept ∧
      kept.get? "t" = data.get? "t" ∧ IsLastPair (Text.ofBytes versionsFrame) "fw" "1.50" ∧
      kept.get? "fw" = some (.text "1.50") ∧
      data.get? "fw" = some (.float (.ofBits 0x3FF8000000000000)) := by
  obtain ⟨data, kept, hdata, hkept, -, -, hsame, hversion⟩ :=
    diagnostics_keep_version (p := .bytes versionsFrame) rfl
  have hrun : Decoder.diagnostics.run (.bytes versionsFrame) =
      .ok [("fw", .text "1.50"), ("t", .float (.ofBits 0x4008000000000000))] := by
    decide +kernel
  obtain rfl := Except.ok.inj (hrun.symm.trans hkept)
  obtain ⟨version, hlast, htext, hnumber⟩ := hversion rfl
  obtain rfl : "1.50" = version := Value.text.inj (Option.some.inj htext)
  exact ⟨data, _, hdata, hkept, hsame "t" (by decide), hlast, rfl,
    hnumber.trans (by decide +kernel)⟩

end Decoder
end FarmLink
