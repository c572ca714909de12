import FarmLink.Proofs.Text.Ascii
import FarmLink.Proofs.Text.Latin
import FarmLink.Proofs.Token.WholeNumber
import FarmLink.Uplink.Decoder

/-!
# Acknowledgment - acknowledgments are read back as they were sent

A device sends the port of a command, and behind a colon how it went. The port is read back whatever
number it is, and so is the status, which ends at a second colon or with the frame
(`commandAck_reads_back`). A command has succeeded only if the status is exactly `ok`: one that is
left out or empty is taken for another, and nothing else in a frame is taken for it.
-/

namespace FarmLink

namespace Acknowledgment

/-- What stands behind the port of an acknowledgment, and the status that it gives. What a second
colon begins does not count. -/
inductive Gives : Text → Text → Prop
  | missing : Gives [] "unknown"
  | empty {tail : Text} (htail : ∀ c ∈ tail.head?, c = CodePoint.ofChar ':') :
    Gives ((':' : CodePoint) :: tail) "unknown"
  | status {status tail : Text} (hne : status ≠ []) (hstatus : (':' : CodePoint) ∉ status)
    (htail : ∀ c ∈ tail.head?, c = CodePoint.ofChar ':') :
    Gives ((':' : CodePoint) :: (status ++ tail)) status

/-- A text that stands between the first colon of a frame and the next one, or the end. -/
def IsStatusIn (t status : Text) : Prop :=
  ∃ port tail, t = port ++ (':' : CodePoint) :: (status ++ tail) ∧ (':' : CodePoint) ∉ port ∧
    (':' : CodePoint) ∉ status ∧ ∀ c ∈ tail.head?, c = CodePoint.ofChar ':'

variable {t port behind status tail : Text}

/-! ### The two parts of a frame -/

theorem ofText_of_not_mem (h : (':' : CodePoint) ∉ port) :
    ofText port = ⟨Token.integer port 0, "unknown"⟩ := by
  unfold ofText
  rw [Text.split_of_not_mem h]
  rfl

theorem ofText_append (hport : (':' : CodePoint) ∉ port) (hstatus : (':' : CodePoint) ∉ status)
    (htail : ∀ c ∈ tail.head?, c = CodePoint.ofChar ':') :
    ofText (port ++ (':' : CodePoint) :: (status ++ tail)) =
      ⟨Token.integer port 0, Text.orElse status "unknown"⟩ := by
  obtain ⟨ps, hps⟩ := Text.exists_split_append_tail hstatus htail
  unfold ofText
  rw [Text.split_append, Text.split_of_not_mem hport, hps]
  rfl

/-- **The status is what the frame gives.** -/
theorem ofText_of_gives (hport : (':' : CodePoint) ∉ port) (h : Gives behind status) :
    ofText (port ++ behind) = ⟨Token.integer port 0, status⟩ := by
  cases h with
  | missing => rw [List.append_nil, ofText_of_not_mem hport]
  | @empty tail htail =>
    rw [← List.nil_append tail, ofText_append hport List.not_mem_nil htail, Text.orElse, if_pos rfl]
  | status hne hstatus htail => rw [ofText_append hport hstatus htail, Text.orElse, if_neg hne]

/-- **Success is told by the status alone**: no other part of a frame, and no status that is left
out, is taken for `ok`. -/
theorem status_eq_ok_iff : (ofText t).status = "ok" ↔ IsStatusIn t "ok" := by
  have hunknown : ("unknown" : Text) ≠ "ok" := by decide
  constructor
  · intro h
    obtain ⟨port, behind, rfl, hport, hbehind⟩ := Text.exists_first_part ':' t
    rcases behind with - | ⟨c, rest⟩
    · rw [List.append_nil, ofText_of_not_mem hport] at h
      exact absurd h hunknown
    · obtain rfl : c = CodePoint.ofChar ':' := hbehind c rfl
      obtain ⟨status, tail, rfl, hstatus, htail⟩ := Text.exists_first_part ':' rest
      rw [ofText_append hport hstatus htail] at h
      by_cases hempty : status = []
      · rw [Text.orElse, if_pos hempty] at h
        exact absurd h hunknown
      · rw [Text.orElse, if_neg hempty] at h
        exact ⟨port, tail, by rw [← h], hport, h ▸ hstatus, htail⟩
  · rintro ⟨port, tail, rfl, hport, hstatus, htail⟩
    rw [ofText_append hport hstatus htail]
    rfl

end Acknowledgment

namespace Decoder

open Acknowledgment

/-- The dict of an acknowledgment in bytes. -/
theorem run_commandAck (bs : Bytes) :
    Decoder.commandAck.run (.bytes bs) =
      .ok ([("port", .int (Acknowledgment.ofText (Text.ofBytes bs)).port),
        ("status", .text (Acknowledgment.ofText (Text.ofBytes bs)).status),
        ("success", .bool ((Acknowledgment.ofText (Text.ofBytes bs)).status == "ok"))] :
        Dict Value) := rfl

/-- **Acknowledgments are read back as they were sent**, whatever number the port is: the status
behind the first colon up to the next one, or `unknown` where it is left out or empty. And whatever
bytes come, they tell of success exactly if that status is `ok`. -/
theorem commandAck_reads_back :
    (∀ (n : Int) (behind status : Text), n.natAbs < 10 ^ digitLimit → Gives behind status →
      (∀ c ∈ behind, c.toNat < 256) →
      ∃ bs, Text.toBytes? (Text.ofInt n ++ behind) = some bs ∧
        Decoder.commandAck.run (.bytes bs) =
          .ok ([("port", .int n), ("status", .text status), ("success", .bool (status == "ok"))] :
            Dict Value)) ∧
    ∀ bs : Bytes, ∃ (port : Int) (status : Text) (success : Bool),
      Decoder.commandAck.run (.bytes bs) =
        .ok ([("port", .int port), ("status", .text status), ("success", .bool success)] :
          Dict Value) ∧
      (success = true ↔ IsStatusIn (Text.ofBytes bs) "ok") := by
  constructor
  · intro n behind status hn hbehind hlatin
    have hcolon : (':' : CodePoint) ∉ Text.ofInt n := fun hmem =>
      absurd (Text.isNumeral_ofInt n _ hmem) (by decide)
    have hport : Token.integer (Text.ofInt n) 0 = n :=
      Token.integer_ofInt (isShowable_of_natAbs_lt le_rfl hn) 0
    have hbytes : ∀ c ∈ Text.ofInt n ++ behind, c.toNat < 256 := by
      refine List.forall_mem_append.2 ⟨fun c hc => ?_, hlatin⟩
      exact Nat.lt_trans (Text.isAscii_ofInt n c hc) (by decide)
    obtain ⟨bs, hbs, htext⟩ := Text.exists_toBytes? hbytes
    refine ⟨bs, hbs, ?_⟩
    rw [run_commandAck, htext, ofText_of_gives hcolon hbehind, hport]
  · refine fun bs => ⟨_, _, _, run_commandAck bs, ?_⟩
    rw [beq_iff_eq, status_eq_ok_iff]

/-- A port below zero with a status and more behind it, and a frame in which `ok` comes too late. -/
theorem commandAck_reads_back_late :
    (∃ bs, Text.toBytes? (Text.ofInt (-40) ++ Text.ofString ":busy:ok") = some bs ∧
      Decoder.commandAck.run (.bytes bs) =
        .ok ([("port", .int (-40)), ("status", .text "busy"), ("success", .bool false)] :
          Dict Value)) ∧
    ¬ IsStatusIn "10::ok" "ok" := by
  have hgives : Gives ":busy:ok" "busy" :=
    @Gives.status "busy" ":ok" (by decide) (by decide) (by decide)
  have hshort : (-40 : Int).natAbs < 10 ^ digitLimit :=
    Nat.lt_of_lt_of_le (by decide : 40 < 10 ^ 2)
      (Nat.pow_le_pow_right (by decide) (by decide : 2 ≤ digitLimit))
  refine ⟨commandAck_reads_back.1 (-40) ":busy:ok" "busy" hshort hgives (by decide), ?_⟩
  obtain ⟨port, status, success, hrun, hsuccess⟩ :=
    commandAck_reads_back.2 [0x31, 0x30, 0x3a, 0x3a, 0x6f, 0x6b]
  have hlate : success = false := by
    rw [run_commandAck] at hrun
    cases hrun
    decide +kernel
  intro hok
  rw [hsuccess.2 hok] at hlate
  cases hlate

end Decoder

end FarmLink
