import FarmLink.Proofs.Text.Occurrence
import FarmLink.Token.Cut

/-!
# Pairs - tokens in two parts

A pair is two parts around a separator (`IsPair`), an assignment a name before the first equals
sign and any value behind it. Both readers find exactly the parts that such a token was written
from (`splitting_inverts_joining`). Around a single character a pair is a token with one of it.
-/

namespace FarmLink.Token

/-- A token is two parts around a separator, read from the left: the separator stands between them
for the first time, and what is behind holds none. -/
structure IsPair (sep token front back : Text) : Prop where
  joined : token = front ++ sep ++ back
  first : Text.FirstAt sep token front.length
  alone : ¬ sep <:+: back

/-- **A pair is read from exactly the two parts it is made of.** -/
theorem pair?_eq_some_iff_isPair {sep token a b : Text} :
    pair? sep token = some (a, b) ↔ IsPair sep token a b := by
  unfold pair?
  constructor
  · intro h
    cases hcut : Text.cut? sep token with
    | none =>
      rw [hcut] at h
      cases h
    | some parts =>
      obtain ⟨front, back⟩ := parts
      simp only [hcut] at h
      split at h
      · next hback =>
        cases h
        obtain ⟨hjoined, hfirst⟩ := Text.cut?_eq_some_iff_firstAt.1 hcut
        have halone := Text.cut?_eq_none_iff_nowhere.1 (Option.isNone_iff_eq_none.1 hback)
        exact ⟨hjoined, hfirst, halone⟩
      · cases h
  · rintro ⟨hjoined, hfirst, halone⟩
    have hcut := Text.cut?_eq_some_iff_firstAt.2 ⟨hjoined, hfirst⟩
    have hback := Text.cut?_eq_none_iff_nowhere.2 halone
    simp only [hcut, hback, Option.isNone_none, if_true]

/-- A token of no two such parts is no pair. -/
theorem pair?_eq_none_iff {sep token : Text} :
    pair? sep token = none ↔ ∀ a b, ¬ IsPair sep token a b := by
  rw [Option.eq_none_iff_forall_ne_some, Prod.forall]
  exact forall₂_congr fun a b => not_congr pair?_eq_some_iff_isPair

/-- **A pair around a character has one of it.** -/
theorem pair?_eq_some_iff {sep : CodePoint} {token a b : Text} :
    pair? [sep] token = some (a, b) ↔ token = a ++ sep :: b ∧ sep ∉ a ∧ sep ∉ b := by
  rw [pair?_eq_some_iff_isPair]
  constructor
  · rintro ⟨hjoined, hfirst, halone⟩
    rw [List.append_assoc, List.singleton_append] at hjoined
    rw [hjoined, Text.firstAt_singleton] at hfirst
    exact ⟨hjoined, hfirst, fun hb => halone (Text.singleton_infix_iff.2 hb)⟩
  · rintro ⟨rfl, ha, hb⟩
    refine ⟨?_, Text.firstAt_singleton.2 ha, fun h => hb (Text.singleton_infix_iff.1 h)⟩
    rw [List.append_assoc, List.singleton_append]

/-- The key of a token: what stands in front of its first separator. -/
def keyOf (sep : CodePoint) (token : Text) : Text := token.takeWhile fun c => c ≠ sep

/-- What stands behind the first separator of a token. -/
def valueOf (sep : CodePoint) (token : Text) : Text := (token.dropWhile fun c => c ≠ sep).drop 1

section Parts

variable {sep : CodePoint} {a : Text} (h : sep ∉ a) (b : Text)

include h

theorem keyOf_append : keyOf sep (a ++ sep :: b) = a := by
  unfold keyOf
  rw [List.takeWhile_append_of_pos fun c hc => decide_eq_true (ne_of_mem_of_not_mem hc h),
    List.takeWhile_cons_of_neg (by simp), List.append_nil]

theorem valueOf_append : valueOf sep (a ++ sep :: b) = b := by
  unfold valueOf
  rw [List.dropWhile_append_of_pos fun c hc => decide_eq_true (ne_of_mem_of_not_mem hc h),
    List.dropWhile_cons_of_neg (by simp), List.drop_one, List.tail_cons]

end Parts

/-- **A token with one separator is a pair, and no other token is.** -/
theorem pair?_eq_ite (sep : CodePoint) (token : Text) :
    pair? [sep] token =
      if token.count sep = 1 then some (keyOf sep token, valueOf sep token) else none := by
  by_cases hmem : sep ∈ token
  · obtain ⟨a, b, rfl, ha⟩ := List.eq_append_cons_of_mem hmem
    have hcount : (a ++ sep :: b).count sep = b.count sep + 1 := by
      rw [List.count_append, List.count_eq_zero.2 ha, List.count_cons_self, Nat.zero_add]
    rw [hcount, keyOf_append ha, valueOf_append ha]
    by_cases hb : sep ∈ b
    · have hpos : 0 < b.count sep := List.count_pos_iff.2 hb
      rw [if_neg (by omega)]
      refine Option.eq_none_iff_forall_not_mem.2 fun pair hpair => ?_
      obtain ⟨happend, hfirst, hsecond⟩ := pair?_eq_some_iff.1 hpair
      have hvalue := congrArg (valueOf sep) happend
      rw [valueOf_append ha, valueOf_append hfirst] at hvalue
      exact hsecond (hvalue ▸ hb)
    · rw [if_pos (by rw [List.count_eq_zero.2 hb])]
      exact pair?_eq_some_iff.2 ⟨rfl, ha, hb⟩
  · have hcount : token.count sep = 0 := List.count_eq_zero.2 hmem
    rw [if_neg (by omega)]
    refine Option.eq_none_iff_forall_not_mem.2 fun pair hpair => hmem ?_
    rw [(pair?_eq_some_iff.1 hpair).1]
    exact List.mem_append_right _ List.mem_cons_self

/-- **An assignment ends its name at the first equals sign.** -/
theorem assignment?_eq_some_iff {segment name value : Text} :
    assignment? segment = some (name, value) ↔
      segment = name ++ ('=' : CodePoint) :: value ∧ ('=' : CodePoint) ∉ name ∧ name ≠ [] := by
  unfold assignment?
  constructor
  · intro h
    cases hcut : Text.cut? ['='] segment with
    | none =>
      rw [hcut] at h
      cases h
    | some parts =>
      obtain ⟨front, back⟩ := parts
      simp only [hcut] at h
      split at h
      · cases h
      · next hname =>
        cases h
        obtain ⟨hsegment, hmem⟩ := Text.cut?_eq_some_iff.1 hcut
        exact ⟨hsegment, hmem, hname⟩
  · rintro ⟨rfl, hmem, hname⟩
    have hcut := Text.cut?_append hmem value
    simp only [hcut, if_neg hname]

/-- A segment of another form is no assignment. -/
theorem assignment?_eq_none_iff {segment : Text} :
    assignment? segment = none ↔ ∀ name value,
      ¬(segment = name ++ ('=' : CodePoint) :: value ∧ ('=' : CodePoint) ∉ name ∧ name ≠ []) := by
  rw [Option.eq_none_iff_forall_ne_some, Prod.forall]
  exact forall₂_congr fun name value => not_congr assignment?_eq_some_iff

/-- **Splitting inverts joining.** At a separator of any length, one that overlaps itself included,
a token is split into the only two parts it is made of, and a segment at its first equals sign;
what is not made of such parts is not split. -/
theorem splitting_inverts_joining {sep : Text} (hsep : sep ≠ []) (token segment : Text) :
    (∀ a b, pairAt sep token = .ok (some (a, b)) ↔ IsPair sep token a b) ∧
      (pairAt sep token = .ok none ↔ ∀ a b, ¬ IsPair sep token a b) ∧
      (∀ name value, assignment? segment = some (name, value) ↔
        segment = name ++ ('=' : CodePoint) :: value ∧ ('=' : CodePoint) ∉ name ∧ name ≠ []) ∧
      (assignment? segment = none ↔ ∀ name value,
        ¬(segment = name ++ ('=' : CodePoint) :: value ∧ ('=' : CodePoint) ∉ name ∧
          name ≠ [])) := by
  have hpair : pairAt sep token = .ok (pair? sep token) := if_neg hsep
  refine ⟨fun a b => ?_, ?_, fun name value => assignment?_eq_some_iff, assignment?_eq_none_iff⟩
  · rw [hpair, Except.ok.injEq]
    exact pair?_eq_some_iff_isPair
  · rw [hpair, Except.ok.injEq]
    exact pair?_eq_none_iff

/-- Two of one letter stand twice in three of it, and still make a pair; an equals sign behind the
first one belongs to the value. -/
theorem splitting_inverts_joining_overlapping :
    pairAt "aa" "aaa" = .ok (some (Text.ofString "", Text.ofString "a")) ∧
      assignment? "k=v=w" = some (Text.ofString "k", Text.ofString "v=w") := by
  have hsep : Text.ofString "aa" ≠ [] := by decide
  obtain ⟨hpair, -, hassignment, -⟩ := splitting_inverts_joining hsep "aaa" "k=v=w"
  refine ⟨(hpair _ _).2 ⟨by decide, by decide, by decide⟩, (hassignment _ _).2 ?_⟩
  decide

end FarmLink.Token
