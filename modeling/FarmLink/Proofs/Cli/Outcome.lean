import FarmLink.Cli.Run
import FarmLink.Proofs.Json.Literals
import FarmLink.Proofs.Text.Trimming
import Mathlib.Data.List.TakeWhile

/-!
# Outcome - what can be printed

A text is printed if the encoding of the output has all its characters; in UTF-8 it lacks only the
surrogates. JSON is ASCII, which every encoding has, so a document is printed whenever its numbers
are short enough, and as it is written, since it holds no control sequence of terminals.
-/

namespace FarmLink.Cli.Outcome

/-- The program ends by itself, with one of the statuses that its commands give. -/
structure IsOrderly (o : Outcome) : Prop where
  escaped : o.escaped = none
  exit : o.exit = 0 ∨ o.exit = 2 ∨ o.exit = 4

/-- A failure that no command looks out for ends the program. -/
structure IsEscape (o : Outcome) : Prop where
  escaped : o.escaped.isSome = true
  exit : o.exit = 1

/-- A complaint and nothing on the output. -/
structure IsComplaint (o : Outcome) : Prop where
  stdout : o.stdout = []
  escaped : o.escaped = none
  exit : o.exit = 2 ∨ o.exit = 4

theorem isComplaint_complaint {exit : Nat} (h : exit = 2 ∨ exit = 4) (message : Text) :
    (complaint exit message).IsComplaint := ⟨rfl, rfl, h⟩

variable {platform : Platform}

section Writable

variable {s t : Text}

theorem isWritable_iff : isWritable t platform = true ↔ ∀ c ∈ t, platform.holds c = true :=
  List.all_eq_true

theorem isWritable_of_isAscii (h : t.IsAscii) : isWritable t platform = true :=
  isWritable_iff.2 fun c hc => platform.ascii c (h c hc)

theorem isWritable_append (s t : Text) :
    isWritable (s ++ t) platform = (isWritable s platform && isWritable t platform) :=
  List.all_append

/-- In front of a text there may be any ASCII, and blanks at the end are not printed. -/
theorem isWritable_dropEndWhile_append (p : CodePoint → Bool) (hs : s.IsAscii) :
    isWritable (Text.dropEndWhile p (s ++ t)) platform =
      isWritable (Text.dropEndWhile p t) platform := by
  unfold Text.dropEndWhile
  rw [List.reverse_append, List.dropWhile_append]
  split
  · next hempty =>
    -- all of the text is dropped, and perhaps more
    have hfront : Text.IsAscii (s.reverse.dropWhile p).reverse := fun c hc =>
      hs c (List.mem_reverse.1 ((List.dropWhile_subset p) (List.mem_reverse.1 hc)))
    rw [List.isEmpty_iff.1 hempty, isWritable_of_isAscii hfront]
    rfl
  · rw [List.reverse_append, List.reverse_reverse, isWritable_append, isWritable_of_isAscii hs,
      Bool.true_and]

end Writable

/-! ### Output -/

theorem printed_of_forall {lines : List Text} (h : ∀ l ∈ lines, isWritable l platform = true) :
    printed lines platform = { stdout := lines.flatMap line } := by
  unfold printed
  simp only
  rw [if_pos (List.all_eq_true.2 h), List.takeWhile_eq_self_iff.2 h]

/-- A line that cannot be printed ends the program, whatever stands around it. -/
theorem isEscape_printed {lines : List Text} {l : Text} (hl : l ∈ lines)
    (h : isWritable l platform = false) : (printed lines platform).IsEscape := by
  have hnot : ¬ lines.all (isWritable · platform) = true := fun hall => by
    rw [List.all_eq_true.1 hall l hl] at h
    cases h
  unfold printed
  simp only
  rw [if_neg hnot]
  exact ⟨rfl, rfl⟩

/-- Without the escape character there is no control sequence. -/
theorem dropControls_of_not_mem {t : Text} (h : ('\x1b' : CodePoint) ∉ t) :
    dropControls 0 t = t := by
  induction t with
  | nil => rfl
  | cons c r ih =>
    rw [List.mem_cons, not_or] at h
    have hlength : controlLength (c :: r) = 0 := by
      cases r with
      | nil => rfl
      | cons d r => exact if_neg fun hc => h.1 hc.1.symm
    rw [dropControls, hlength]
    exact congrArg (c :: ·) (ih h.2)

/-- A document that can be printed stands on the output as it is written. -/
theorem document_of_isShowable {v : Value} (h : v.isShowable = true) (layout : Json.Layout) :
    document layout v platform = { stdout := Json.write layout 0 v ++ "\n" } := by
  have hline : ∀ l ∈ [Json.write layout 0 v], isWritable l platform = true :=
    List.forall_mem_singleton.2 (isWritable_of_isAscii (Json.isAscii_write layout 0 v))
  unfold document
  rw [if_pos h, printed_of_forall hline, List.flatMap_singleton, line,
    dropControls_of_not_mem (Json.not_mem_write layout v)]

end FarmLink.Cli.Outcome
