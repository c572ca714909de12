import FarmLink.Proofs.Text.Occurrence
import FarmLink.Proofs.Text.Trimming
import FarmLink.Registration.Frame
import FarmLink.Report

/-!
# FrameGrammar - which texts are frames

A frame is the mark, a key among blanks, a pipe, and any data (`Frame.Spells`). The reader cuts at
the first pipe, which is the right one: neither blanks nor keys hold a pipe. A text of another form
is refused for the first of three reasons, each with its own message (`Frame.Refusal`). Both follow
from what the reader does with the three forms that a text can have (`Frame.exists_form`).
-/

namespace FarmLink

namespace Frame

/-- A text that is the mark, a key with blanks around it or none, a pipe, and data. -/
def Spells (t key data : Text) : Prop :=
  key ∈ frameKeys ∧ ∃ before after : Text, t = "reg:" ++ before ++ key ++ after ++ "|" ++ data ∧
    (∀ c ∈ before, Text.isBlank c = true) ∧ ∀ c ∈ after, Text.isBlank c = true

/-- What is said about a text by the first check that it fails: it lacks the mark, or has the mark
and no pipe, or has no key between the mark and the first pipe. -/
inductive Refusal (t : Text) : Text → Prop
  | mark (h : ¬ ("reg:" : Text) <+: t) : Refusal t "Multi-frame registration required"
  | pipe (hmark : ("reg:" : Text) <+: t) (h : ('|' : CodePoint) ∉ t) :
    Refusal t "Invalid frame format: missing pipe separator"
  | key {head data key : Text} (htext : t = "reg:" ++ head ++ "|" ++ data)
    (hhead : ('|' : CodePoint) ∉ head) (hcore : Text.IsCore Text.isBlank key head)
    (h : key ∉ frameKeys) : Refusal t ("Invalid frame key: " ++ Text.quoted key)

variable {t head data key message : Text}

/-! ### The forms of a text -/

theorem exists_form (t : Text) :
    ¬ ("reg:" : Text) <+: t ∨ (("reg:" : Text) <+: t ∧ ('|' : CodePoint) ∉ t) ∨
      ∃ head data : Text, t = "reg:" ++ head ++ "|" ++ data ∧ ('|' : CodePoint) ∉ head := by
  by_cases hmark : ("reg:" : Text) <+: t
  · obtain ⟨body, rfl⟩ := hmark
    by_cases hbar : ('|' : CodePoint) ∈ body
    · obtain ⟨head, data, rfl, hhead⟩ := List.eq_append_cons_of_mem hbar
      exact .inr (.inr ⟨head, data, by rw [List.append_assoc, List.append_assoc]; rfl, hhead⟩)
    · refine .inr (.inl ⟨List.prefix_append _ _, fun h => ?_⟩)
      exact (List.mem_append.1 h).elim (by decide) hbar
  · exact .inl hmark

theorem check_of_not_mark (h : ¬ ("reg:" : Text) <+: t) : check t = .error .missingMark := by
  unfold check
  cases hbody : Text.after? "reg:" t with
  | none => rfl
  | some body => exact absurd ⟨body, (Text.after?_eq_some_iff.1 hbody).symm⟩ h

theorem check_of_not_pipe (hmark : ("reg:" : Text) <+: t) (h : ('|' : CodePoint) ∉ t) :
    check t = .error .missingPipe := by
  obtain ⟨body, rfl⟩ := hmark
  have hcut : Text.cut? ['|'] body = none :=
    Text.cut?_eq_none_iff.2 fun hbar => h (List.mem_append_right _ hbar)
  unfold check
  rw [Text.after?_eq_some_iff.2 rfl]
  simp only [hcut]

theorem check_of_head (h : ('|' : CodePoint) ∉ head) (data : Text) :
    check ("reg:" ++ head ++ "|" ++ data) =
      if Text.strip Text.isBlank head ∈ frameKeys then
        .ok ⟨Text.strip Text.isBlank head, data⟩
      else .error (.unknownKey (Text.strip Text.isBlank head)) := by
  have hafter : Text.after? "reg:" ("reg:" ++ head ++ "|" ++ data) =
      some (head ++ ('|' : CodePoint) :: data) := by
    rw [Text.after?_eq_some_iff, List.append_assoc, List.append_assoc]
    rfl
  unfold check
  rw [hafter]
  simp only [Text.cut?_append h, List.contains_iff_mem]

/-! ### Frames that are read -/

/-- What stands between the mark and the first pipe: blanks and keys hold no pipe, and stripping
leaves the key. -/
theorem Spells.exists_head (h : Spells t key data) :
    ∃ head : Text, t = "reg:" ++ head ++ "|" ++ data ∧ ('|' : CodePoint) ∉ head ∧
      Text.strip Text.isBlank head = key := by
  obtain ⟨hkey, before, after, rfl, hbefore, hafter⟩ := h
  have hkeys : ∀ key ∈ frameKeys, ('|' : CodePoint) ∉ key ∧ Text.IsTrimmed Text.isBlank key := by
    decide
  obtain ⟨hbar, htrimmed⟩ := hkeys key hkey
  refine ⟨before ++ key ++ after, by simp only [List.append_assoc], ?_,
    Text.strip_eq_iff.2 ⟨htrimmed, before, after, rfl, hbefore, hafter⟩⟩
  have hblank : Text.isBlank (CodePoint.ofChar '|') ≠ true := by decide
  intro hmem
  rcases List.mem_append.1 hmem with hmem | hmem
  · exact (List.mem_append.1 hmem).elim (fun hm => hblank (hbefore _ hm)) hbar
  · exact hblank (hafter _ hmem)

theorem check_of_spells (h : Spells t key data) : check t = .ok ⟨key, data⟩ := by
  obtain ⟨head, rfl, hhead, hkey⟩ := h.exists_head
  rw [check_of_head hhead, hkey, if_pos h.1]

theorem spells_of_check {frame : Frame} (h : check t = .ok frame) :
    Spells t frame.key frame.data := by
  rcases exists_form t with hmark | ⟨hmark, hbar⟩ | ⟨head, data, rfl, hhead⟩
  · rw [check_of_not_mark hmark] at h
    cases h
  · rw [check_of_not_pipe hmark hbar] at h
    cases h
  · rw [check_of_head hhead] at h
    split at h
    · next hkey =>
      cases h
      obtain ⟨-, before, after, htext, hbefore, hafter⟩ := (Text.strip_eq_iff (t := head)).1 rfl
      refine ⟨hkey, before, after, ?_, hbefore, hafter⟩
      conv_lhs => rw [htext]
      simp only [List.append_assoc]
    · cases h

/-! ### Texts that are refused -/

theorem refusal_of_check {fault : FrameFault} (h : check t = .error fault) :
    Refusal t fault.message := by
  rcases exists_form t with hmark | ⟨hmark, hbar⟩ | ⟨head, data, rfl, hhead⟩
  · rw [check_of_not_mark hmark] at h
    cases h
    exact .mark hmark
  · rw [check_of_not_pipe hmark hbar] at h
    cases h
    exact .pipe hmark hbar
  · rw [check_of_head hhead] at h
    split at h
    · cases h
    · next hkey =>
      cases h
      exact .key rfl hhead (Text.strip_eq_iff.1 rfl) hkey

theorem Refusal.exists_check (h : Refusal t message) :
    ∃ fault : FrameFault, check t = .error fault ∧ fault.message = message := by
  cases h with
  | mark h => exact ⟨_, check_of_not_mark h, rfl⟩
  | pipe hmark h => exact ⟨_, check_of_not_pipe hmark h, rfl⟩
  | @key head data key htext hhead hcore h =>
    have hcheck := check_of_head hhead data
    rw [Text.strip_eq_iff.2 hcore, if_neg h, ← htext] at hcheck
    exact ⟨_, hcheck, rfl⟩

end Frame

namespace FrameSource

open FarmLink.Frame

theorem read_text_of_check {t : Text} {frame : Frame} (h : check t = .ok frame) :
    (text t).read = .ok frame := by
  unfold read
  simp only [toText, Frame.ofText, h]

theorem read_text_of_fault {t : Text} {fault : FrameFault} (h : check t = .error fault) :
    (text t).read = .error (.codec (.frame t fault)) := by
  unfold read
  simp only [toText, Frame.ofText, h]
  rfl

/-- **A text is read as a frame exactly if it is one.**  Then it is read by its key and its data,
pipes in the data included. Any other text is reported as a malformed frame, whole, with the message
of the first check that it fails and with no other. -/
theorem read_text_by_grammar (t : Text) :
    (∀ key data, (text t).read = .ok ⟨key, data⟩ ↔ Spells t key data) ∧
    ((¬ ∃ key data, Spells t key data) →
      ∃ e message, (text t).read = .error (.codec e) ∧
        e.report = ⟨.frame, message, [("frame", .text t)]⟩ ∧
        ∀ other, Refusal t other ↔ other = message) := by
  cases hcheck : check t with
  | ok frame =>
    have hspells := spells_of_check hcheck
    refine ⟨fun key data => ?_, fun hnone => absurd ⟨_, _, hspells⟩ hnone⟩
    rw [read_text_of_check hcheck, Except.ok.injEq]
    constructor
    · rintro rfl
      exact hspells
    · exact fun h => Except.ok.inj (hcheck.symm.trans (check_of_spells h))
  | error fault =>
    have hread := read_text_of_fault hcheck
    constructor
    · intro key data
      rw [hread]
      refine iff_of_false nofun fun h => ?_
      rw [check_of_spells h] at hcheck
      cases hcheck
    · refine fun _ => ⟨.frame t fault, fault.message, hread, rfl, fun other => ?_⟩
      refine ⟨fun h => ?_, fun h => h ▸ refusal_of_check hcheck⟩
      obtain ⟨fault', hcheck', rfl⟩ := h.exists_check
      obtain rfl := Except.error.inj (hcheck.symm.trans hcheck')
      rfl

/-- A frame with blanks around its key and a pipe in its data, and a text whose key is followed by
what is no blank. -/
theorem read_text_by_grammar_blanks :
    Spells "reg:\u2003sys |a|b" "sys" "a|b" ∧
    (text "reg:\u2003sys |a|b").read = .ok ⟨"sys", "a|b"⟩ ∧
    (¬ ∃ key data, Spells "reg:sys\u200B|x" key data) ∧
    ∃ e message, (text "reg:sys\u200B|x").read = .error (.codec e) ∧
      e.report = ⟨.frame, message, [("frame", .text "reg:sys\u200B|x")]⟩ ∧
      message = "Invalid frame key: 'sys\\u200b'" := by
  have hspells : Spells "reg:\u2003sys |a|b" "sys" "a|b" :=
    ⟨by decide, "\u2003", " ", by decide, by decide, by decide⟩
  have hrefused : check "reg:sys\u200B|x" = .error (.unknownKey "sys\u200B") := by decide
  have hnone : ¬ ∃ key data, Spells "reg:sys\u200B|x" key data := by
    rintro ⟨key, data, h⟩
    rw [check_of_spells h] at hrefused
    cases hrefused
  obtain ⟨e, message, hread, hreport, hmessage⟩ :=
    (read_text_by_grammar "reg:sys\u200B|x").2 hnone
  refine ⟨hspells, ((read_text_by_grammar _).1 _ _).2 hspells, hnone, e, message, hread, hreport,
    ?_⟩
  rw [← (hmessage _).1 (refusal_of_check hrefused)]
  decide +kernel

end FrameSource

end FarmLink
