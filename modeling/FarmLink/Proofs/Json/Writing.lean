import FarmLink.Proofs.Json.Strings
import FarmLink.Proofs.Text.Ascii
import FarmLink.Proofs.Value.Parts

/-!
# Writing - what documents are put together from

A document is numbers, names and texts with brackets, commas, colons and blanks between them. What
holds of these and of texts put together from such texts holds of every document, since a list is
written item by item and a dict entry by entry (`Piecewise.write`). The writer escapes every
character beyond ASCII, surrogates included, so a document can be written to any output whatever
texts the value holds (`isAscii_write`).
-/

namespace FarmLink.Json

/-! ### Documents in pieces -/

/-- A property that the pieces of documents have, and texts put together from texts that have it. -/
structure Piecewise (p : Text → Prop) : Prop where
  nil : p []
  append : ∀ {s t : Text}, p s → p t → p (s ++ t)
  name : ∀ t ∈ (["null", "true", "false"] : List Text), p t
  mark : ∀ c ∈ (",:[]\x7b\x7d \n" : Text), p [c]
  int : ∀ n : Int, p (Text.ofInt n)
  text : ∀ t : Text, p (writeText t)

namespace Piecewise

variable {p : Text → Prop} (h : Piecewise p) {layout : Layout} {level : Nat}

include h

theorem cons {c : CodePoint} {t : Text} (hc : c ∈ (",:[]\x7b\x7d \n" : Text)) (ht : p t) :
    p (c :: t) :=
  h.append (h.mark c hc) ht

theorem lineBreak (layout : Layout) (level : Nat) : p (Json.lineBreak layout level) := by
  have hspaces : ∀ n, p (Text.repeated n ' ') := by
    intro n
    induction n with
    | zero => exact h.nil
    | succ n ih => exact h.cons (by decide) ih
  cases layout with
  | oneLine => exact h.nil
  | indented => exact h.cons (by decide) (hspaces _)

theorem separator (layout : Layout) (level : Nat) : p (Json.separator layout level) := by
  cases layout with
  | oneLine => exact h.cons (by decide) (h.mark ' ' (by decide))
  | indented => exact h.cons (by decide) (h.lineBreak .indented level)

theorem join {sep : Text} (hsep : p sep) : ∀ {ps : List Text}, (∀ q ∈ ps, p q) →
    p (Text.join sep ps)
  | [], _ => h.nil
  | [q], hps => hps q List.mem_cons_self
  | q :: r :: ps, hps => by
    obtain ⟨hq, hrest⟩ := List.forall_mem_cons.1 hps
    exact h.append (h.append hq hsep) (join hsep hrest)

theorem enclose {first last : CodePoint} (hfirst : first ∈ (",:[]\x7b\x7d \n" : Text))
    (hlast : last ∈ (",:[]\x7b\x7d \n" : Text)) {items : List Text} (hitems : ∀ q ∈ items, p q) :
    p (Json.enclose layout level first last items) := by
  have hend : p [last] := h.mark last hlast
  cases items with
  | nil => exact h.cons hfirst hend
  | cons item items =>
    have hjoin := h.join (h.separator layout (level + 1)) hitems
    exact h.append (h.append (h.cons hfirst (h.append (h.lineBreak layout (level + 1)) hjoin))
      (h.lineBreak layout level)) hend

end Piecewise

mutual

/-- **What holds of the pieces holds of the document**, as far as it holds of its doubles. -/
theorem Piecewise.write {p : Text → Prop} (h : Piecewise p) (layout : Layout) (level : Nat)
    (v : Value)
    (hfloat : ∀ x, (Value.float x).StandsIn v → p (x.toTextWith "Infinity" "NaN")) :
    p (Json.write layout level v) := by
  match v, hfloat with
  | .null, _ => exact h.name "null" (by decide)
  | .bool true, _ => exact h.name "true" (by decide)
  | .bool false, _ => exact h.name "false" (by decide)
  | .int n, _ => exact h.int n
  | .float x, hfloat => exact hfloat x .self
  | .text t, _ => exact h.text t
  | .list items, hfloat =>
    exact h.enclose (by decide) (by decide)
      (h.writeItems layout (level + 1) items fun _ hv x hx => hfloat x (.item hv hx))
  | .dict entries, hfloat =>
    exact h.enclose (by decide) (by decide)
      (h.writeEntries layout (level + 1) entries fun _ he x hx => hfloat x (.entry he hx))

theorem Piecewise.writeItems {p : Text → Prop} (h : Piecewise p) (layout : Layout) (level : Nat)
    (vs : List Value)
    (hfloat : ∀ v ∈ vs, ∀ x, (Value.float x).StandsIn v → p (x.toTextWith "Infinity" "NaN")) :
    ∀ item ∈ Json.writeItems layout level vs, p item := by
  match vs, hfloat with
  | [], _ => exact List.forall_mem_nil _
  | v :: vs, hfloat =>
    obtain ⟨hv, hvs⟩ := List.forall_mem_cons.1 hfloat
    exact List.forall_mem_cons.2 ⟨h.write layout level v hv, h.writeItems layout level vs hvs⟩

theorem Piecewise.writeEntries {p : Text → Prop} (h : Piecewise p) (layout : Layout) (level : Nat)
    (es : List (Text × Value))
    (hfloat : ∀ e ∈ es, ∀ x, (Value.float x).StandsIn e.2 → p (x.toTextWith "Infinity" "NaN")) :
    ∀ item ∈ Json.writeEntries layout level es, p item := by
  match es, hfloat with
  | [], _ => exact List.forall_mem_nil _
  | (k, v) :: es, hfloat =>
    obtain ⟨hv, hes⟩ := List.forall_mem_cons.1 hfloat
    have hcolon : p ": " := h.cons (by decide) (h.mark ' ' (by decide))
    exact List.forall_mem_cons.2
      ⟨h.append (h.append (h.text k) hcolon) (h.write layout level v hv),
        h.writeEntries layout level es hes⟩

end

/-! ### Documents hold ASCII only -/

theorem isAscii_unitEscape (n : Nat) : (unitEscape n).IsAscii :=
  Text.isAscii_append (by decide) (Text.isAscii_ofNatHex 4 n)

theorem isAscii_escapeChar (c : CodePoint) : (escapeChar c).IsAscii := by
  have hletter : ∀ e ∈ ("\"\\nrtbf" : Text), e.toNat < 0x80 := by decide
  have hescapes := escapes_escapeChar c
  generalize escapeChar c = s at hescapes ⊢
  cases hescapes with
  | letter he _ =>
    exact Text.isAscii_cons (by decide) (Text.isAscii_cons (hletter _ he) Text.isAscii_nil)
  | plain _ _ hrange => exact Text.isAscii_cons (by omega) Text.isAscii_nil
  | units =>
    intro d hd
    obtain ⟨n, -, hd⟩ := List.mem_flatMap.1 hd
    exact isAscii_unitEscape n d hd

theorem isAscii_writeText (t : Text) : (writeText t).IsAscii :=
  Text.isAscii_append
    (Text.isAscii_append (by decide) (Text.isAscii_flatMap isAscii_escapeChar t)) (by decide)

theorem piecewise_isAscii : Piecewise Text.IsAscii where
  nil := Text.isAscii_nil
  append := Text.isAscii_append
  name := by decide
  mark := by decide
  int := Text.isAscii_ofInt
  text := isAscii_writeText

/-- **A document is written in ASCII.** -/
theorem isAscii_write (layout : Layout) (level : Nat) (v : Value) :
    (write layout level v).IsAscii :=
  piecewise_isAscii.write layout level v fun x _ =>
    Double.isAscii_toTextWith (by decide) (by decide) x

end FarmLink.Json
