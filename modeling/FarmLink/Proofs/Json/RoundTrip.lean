import FarmLink.Proofs.Dict.Order
import FarmLink.Proofs.Json.Numbers
import FarmLink.Proofs.Text.Joining
import FarmLink.Proofs.Value.Parts

/-!
# RoundTrip - written values are read back

Every value of a kind that documents have is written so that the reader gives it back, whatever the
layout: finite doubles, whole numbers that can be shown, texts without pairs of surrogates, and
dicts whose keys do not repeat, none of them too deep (`Representable`). The proof follows the
value; a list goes item by item and a dict entry by entry, each up to the separator or to the
closing bracket behind it (`readItems_write`, `readEntries_write`). Two steps of fuel per character
are enough on every level, which is what the reader allows itself.
-/

namespace FarmLink

theorem Double.eq_infinity {x : Double} (h : x.magnitude = Format.double.infinite) :
    x = .infinity x.negative := by
  obtain ⟨negative, magnitude, hlt⟩ := x
  subst h
  rfl

namespace Json

/-- What comes back from a document, up to the length of whole numbers, with lists and dicts in each
other to a depth. -/
inductive Representable : Nat → Value → Prop
  | null (depth : Nat) : Representable depth .null
  | bool (depth : Nat) (b : Bool) : Representable depth (.bool b)
  | int (depth : Nat) (n : Int) : Representable depth (.int n)
  | float (depth : Nat) {x : Double} (hfinite : x.isFinite = true) : Representable depth (.float x)
  | text (depth : Nat) {t : Text} (hunpaired : t.Unpaired) : Representable depth (.text t)
  | list {depth : Nat} {items : List Value} (hitems : ∀ v ∈ items, Representable depth v) :
      Representable (depth + 1) (.list items)
  | dict {depth : Nat} {entries : Dict Value} (hnodup : entries.keys.Nodup)
      (hkeys : ∀ e ∈ entries, e.1.Unpaired) (hvalues : ∀ e ∈ entries, Representable depth e.2) :
      Representable (depth + 1) (.dict entries)

/-- More depth does no harm. -/
theorem Representable.mono {depth more : Nat} {v : Value} (h : Representable depth v)
    (hle : depth ≤ more) : Representable more v := by
  induction h generalizing more with
  | null => exact .null more
  | bool _ b => exact .bool more b
  | int _ n => exact .int more n
  | float _ hfinite => exact .float more hfinite
  | text _ hunpaired => exact .text more hunpaired
  | list _ ih =>
    obtain ⟨more, rfl⟩ : ∃ k, more = k + 1 := ⟨more - 1, by omega⟩
    exact .list fun v hv => ih v hv (by omega)
  | dict hnodup hkeys _ ih =>
    obtain ⟨more, rfl⟩ : ∃ k, more = k + 1 := ⟨more - 1, by omega⟩
    exact .dict hnodup hkeys fun e he => ih e he (by omega)

theorem Representable.hasFiniteFloats {depth : Nat} {v : Value} (h : Representable depth v) :
    v.HasFiniteFloats := by
  induction h with
  | null | bool _ _ | int _ _ => rintro x ⟨⟩
  | float _ hfinite =>
    rintro x ⟨⟩
    exact hfinite
  | text => exact Value.hasFiniteFloats_text _
  | list _ ih => exact Value.hasFiniteFloats_list ih
  | dict _ _ _ ih => exact Value.hasFiniteFloats_dict ih

/-- A dict of few entries with keys of the program's own. -/
theorem representable_entries {depth : Nat} {d : Dict Value} (hnodup : d.keys.Nodup)
    (hkeys : ∀ k ∈ d.keys, k.IsPlain) (hvalues : ∀ e ∈ d, Representable depth e.2) :
    Representable (depth + 1) (.dict d) :=
  .dict hnodup (fun e he => (hkeys e.1 (List.mem_map_of_mem he)).unpaired) hvalues

/-! ### Where values begin and end -/

/-- A text that begins neither with a blank nor with a closing bracket or brace. -/
def Begins (t : Text) : Prop := ∃ c r, t = c :: r ∧ isBlank c = false ∧ c ≠ ']' ∧ c ≠ '\x7d'

theorem Begins.append {t : Text} (h : Begins t) (rest : Text) : Begins (t ++ rest) := by
  obtain ⟨c, r, rfl, hc⟩ := h
  exact ⟨c, r ++ rest, rfl, hc⟩

theorem Begins.join {p : Text} (h : Begins p) (sep : Text) (ps : List Text) :
    Begins (Text.join sep (p :: ps)) := by
  cases ps with
  | nil => exact h
  | cons q ps => exact (h.append sep).append _

/-- What is read as a value begins as one. -/
theorem begins_of_readValue {fuel depth : Nat} {t : Text} {result : Value × Text}
    (h : readValue fuel depth t = .ok result) : Begins t := by
  cases fuel with
  | zero => cases h
  | succ fuel =>
    cases t with
    | nil => cases h
    | cons c r =>
      have hnot (other : CodePoint) (hother : other = ' ' ∨ other = '\t' ∨ other = '\n' ∨
          other = '\r' ∨ other = ']' ∨ other = '\x7d') : c ≠ other := by
        rintro rfl
        rcases hother with rfl | rfl | rfl | rfl | rfl | rfl <;> cases h
      refine ⟨c, r, rfl, ?_, hnot _ (by simp only [true_or, or_true]),
        hnot _ (by simp only [or_true])⟩
      simp only [isBlank, Bool.or_eq_false_iff, beq_eq_false_iff_ne]
      exact ⟨⟨⟨hnot _ (.inl rfl), hnot _ (.inr (.inl rfl))⟩, hnot _ (.inr (.inr (.inl rfl)))⟩,
        hnot _ (.inr (.inr (.inr (.inl rfl))))⟩

section Blanks

variable {blanks : Text} (hblanks : ∀ b ∈ blanks, isBlank b = true)

include hblanks

theorem skipBlanks_append {c : CodePoint} (hc : isBlank c = false) (r : Text) :
    skipBlanks (blanks ++ c :: r) = c :: r := by
  unfold skipBlanks
  rw [List.dropWhile_append_of_pos hblanks,
    List.dropWhile_cons_of_neg (by rw [hc]; exact Bool.false_ne_true)]

/-- The first character behind blanks is the one expected, or another one. -/
theorem expect?_append {c d : CodePoint} (hd : isBlank d = false) (r : Text) :
    expect? c (blanks ++ d :: r) = if d = c then some r else none := by
  unfold expect?
  rw [skipBlanks_append hblanks hd]

theorem Begins.skipBlanks {t : Text} (h : Begins t) : skipBlanks (blanks ++ t) = t := by
  obtain ⟨c, r, rfl, hc, -⟩ := h
  exact skipBlanks_append hblanks hc r

theorem Begins.expect? {t : Text} (h : Begins t) {last : CodePoint}
    (hlast : last = ']' ∨ last = '\x7d') : expect? last (blanks ++ t) = none := by
  obtain ⟨c, r, rfl, hc, hlist, hdict⟩ := h
  rw [expect?_append hblanks hc, if_neg]
  rcases hlast with rfl | rfl
  · exact hlist
  · exact hdict

end Blanks

theorem expect?_cons {c d : CodePoint} (hd : isBlank d = false) (r : Text) :
    expect? c (d :: r) = if d = c then some r else none :=
  expect?_append (List.forall_mem_nil _) hd r

theorem isBlank_lineBreak (layout : Layout) (level : Nat) :
    ∀ b ∈ lineBreak layout level, isBlank b = true := by
  cases layout with
  | oneLine => exact List.forall_mem_nil _
  | indented =>
    refine List.forall_mem_cons.2 ⟨by decide, fun b hb => ?_⟩
    rw [List.eq_of_mem_replicate hb]
    decide

/-- A separator is a comma and blanks. -/
theorem exists_separator (layout : Layout) (level : Nat) :
    ∃ blanks : Text, separator layout level = (',' : CodePoint) :: blanks ∧
      ∀ b ∈ blanks, isBlank b = true := by
  cases layout with
  | oneLine => exact ⟨[(' ' : CodePoint)], rfl, by decide⟩
  | indented => exact ⟨_, rfl, isBlank_lineBreak .indented level⟩

/-- Behind a comma the row goes on. -/
theorem expect?_comma (r : Text) : expect? ',' ((',' : CodePoint) :: r) = some r := by
  rw [expect?_cons rfl, if_pos rfl]

theorem expect?_last_comma {last : CodePoint} (hlast : last = ']' ∨ last = '\x7d') (r : Text) :
    expect? last ((',' : CodePoint) :: r) = none := by
  rw [expect?_cons rfl, if_neg]
  rcases hlast with rfl | rfl <;> decide

theorem ends_lineFeed : Ends "\n" := by
  rintro _ ⟨⟩
  exact .inr (.inr (.inr rfl))

theorem ends_comma (r : Text) : Ends ((',' : CodePoint) :: r) := by
  rintro _ ⟨⟩
  exact .inl rfl

/-- What stands behind the last item: blanks and the bracket or brace that closes the row. -/
structure Closes (last : CodePoint) (tail rest : Text) : Prop where
  ends : Ends tail
  expect : expect? last tail = some rest

theorem closes_lineBreak (layout : Layout) (level : Nat) {last : CodePoint}
    (hlast : last = ']' ∨ last = '\x7d') (rest : Text) :
    Closes last (lineBreak layout level ++ last :: rest) rest where
  ends := by
    cases layout with
    | oneLine =>
      rintro _ ⟨⟩
      exact .inr (hlast.imp_right .inl)
    | indented =>
      rintro _ ⟨⟩
      exact .inr (.inr (.inr rfl))
  expect := by
    have hblank : isBlank last = false := by
      rcases hlast with rfl | rfl <;> rfl
    rw [expect?_append (isBlank_lineBreak layout level) hblank, if_pos rfl]

/-! ### Parts in a row -/

/-- The first of several parts, the comma behind it, and the others behind blanks. -/
theorem exists_join_comma (layout : Layout) (level : Nat) (p q : Text) (ps : List Text)
    (tail : Text) : ∃ blanks : Text, (∀ b ∈ blanks, isBlank b = true) ∧
      Text.join (separator layout level) (p :: q :: ps) ++ tail =
        p ++ (',' : CodePoint) ::
          (blanks ++ (Text.join (separator layout level) (q :: ps) ++ tail)) ∧
      p.length + (Text.join (separator layout level) (q :: ps)).length <
        (Text.join (separator layout level) (p :: q :: ps)).length := by
  obtain ⟨blanks, hseparator, hblanks⟩ := exists_separator layout level
  refine ⟨blanks, hblanks, ?_, ?_⟩
  · rw [Text.join_cons _ _ (List.cons_ne_nil q ps), hseparator]
    simp only [List.append_assoc, List.cons_append]
  · rw [Text.join_cons _ _ (List.cons_ne_nil q ps), hseparator]
    simp only [List.length_append, List.length_cons]
    omega

/-- Parts between brackets. -/
theorem enclose_cons_append (layout : Layout) (level : Nat) (first last : CodePoint) (p : Text)
    (ps : List Text) (rest : Text) :
    enclose layout level first last (p :: ps) ++ rest =
      first :: (lineBreak layout (level + 1) ++
        (Text.join (separator layout (level + 1)) (p :: ps) ++
          (lineBreak layout level ++ last :: rest))) := by
  simp only [enclose, List.append_assoc, List.cons_append, List.nil_append]

theorem length_join_lt_enclose (layout : Layout) (level : Nat) (first last : CodePoint) (p : Text)
    (ps : List Text) : (Text.join (separator layout (level + 1)) (p :: ps)).length + 1 <
      (enclose layout level first last (p :: ps)).length := by
  simp only [enclose, List.length_append, List.length_cons, List.length_nil]
  omega

/-! ### Items and entries -/

/-- A value is read back wherever it stands, with two steps of fuel for each of its characters. -/
def ReadsBack (layout : Layout) (depth : Nat) (v : Value) : Prop :=
  ∀ (level fuel : Nat) (rest : Text), Ends rest → 2 * (write layout level v).length ≤ fuel →
    readValue fuel depth (write layout level v ++ rest) = .ok (v, rest)

theorem ends_nil : Ends [] := by
  rintro _ ⟨⟩

/-- Nothing is read from the empty text, so a text that is read back gives fuel for one step. -/
theorem ReadsBack.of_succ {layout : Layout} {depth : Nat} {v : Value}
    (h : ∀ level fuel rest, Ends rest → 2 * (write layout level v).length ≤ fuel + 1 →
      readValue (fuel + 1) depth (write layout level v ++ rest) = .ok (v, rest)) :
    ReadsBack layout depth v := by
  intro level fuel rest hends hfuel
  cases fuel with
  | succ fuel => exact h level fuel rest hends hfuel
  | zero =>
    have hempty : write layout level v = [] := List.length_eq_zero_iff.1 (by omega)
    have hread := h level 0 [] ends_nil (by rw [hempty]; exact Nat.zero_le _)
    rw [hempty] at hread
    cases hread

theorem ReadsBack.begins {layout : Layout} {depth : Nat} {v : Value}
    (h : ReadsBack layout depth v) (level : Nat) : Begins (write layout level v) := by
  have hread := h level _ [] ends_nil (Nat.le_refl _)
  rw [List.append_nil] at hread
  exact begins_of_readValue hread

section Rows

variable {layout : Layout} {level depth : Nat} {tail rest : Text}

/-- The items of a list, with more fuel than two steps for each of their characters. -/
theorem readItems_write (hclose : Closes ']' tail rest) : ∀ {vs : List Value} {fuel : Nat},
    vs ≠ [] → (∀ v ∈ vs, ReadsBack layout depth v) →
    2 * (Text.join (separator layout level) (writeItems layout level vs)).length < fuel →
    readItems fuel depth
      (Text.join (separator layout level) (writeItems layout level vs) ++ tail) = .ok (vs, rest)
  | [], _, hne, _, _ => absurd rfl hne
  | _ :: _, 0, _, _, hfuel => absurd hfuel (Nat.not_lt_zero _)
  | [v], fuel + 1, _, h, hfuel => by
    have hv := h v List.mem_cons_self level fuel tail hclose.ends (Nat.le_of_lt_succ hfuel)
    simp only [writeItems, Text.join]
    rw [readItems, hv]
    simp only [hclose.expect]
  | v :: w :: vs, fuel + 1, _, h, hfuel => by
    obtain ⟨hv, hrest⟩ := List.forall_mem_cons.1 h
    obtain ⟨blanks, hblanks, htext, hlength⟩ := exists_join_comma layout level
      (write layout level v) (write layout level w) (writeItems layout level vs) tail
    have hfuel : 2 * (Text.join (separator layout level)
        (write layout level v :: write layout level w :: writeItems layout level vs)).length <
        fuel + 1 := hfuel
    have hbegins := (((hrest w List.mem_cons_self).begins level).join (separator layout level)
      (writeItems layout level vs)).append tail
    have hvs : readItems fuel depth (Text.join (separator layout level)
        (write layout level w :: writeItems layout level vs) ++ tail) = .ok (w :: vs, rest) :=
      readItems_write hclose (List.cons_ne_nil w vs) hrest
        (show 2 * (Text.join (separator layout level)
          (write layout level w :: writeItems layout level vs)).length < fuel by omega)
    simp only [writeItems]
    rw [htext, readItems, hv level fuel _ (ends_comma _) (by omega)]
    simp only [expect?_last_comma (.inl rfl), expect?_comma, hbegins.skipBlanks hblanks, hvs]

/-- What the reader of entries makes of an entry in front of a text. -/
def continueEntries (fuel depth : Nat) (k : Text) (v : Value) (t : Text) :
    Except Flaw (Dict Value × Text) :=
  match expect? '\x7d' t with
  | some rest => .ok ([(k, v)], rest)
  | none =>
    match expect? ',' t with
    | none => .error .malformed
    | some t =>
      match readEntries fuel depth (skipBlanks t) with
      | .error flaw => .error flaw
      | .ok (es, rest) => .ok ((k, v) :: es, rest)

/-- The key of an entry, the value behind it, and what the row goes on with. -/
theorem readEntries_entry {k : Text} {v : Value} {fuel : Nat} (hk : k.Unpaired)
    (hv : ReadsBack layout depth v) (hends : Ends tail)
    (hfuel : 2 * (write layout level v).length ≤ fuel) :
    readEntries (fuel + 1) depth (writeText k ++ ": " ++ write layout level v ++ tail) =
      continueEntries fuel depth k v tail := by
  have hcolon : Text.ofString ": " = [(':' : CodePoint), (' ' : CodePoint)] := rfl
  have hspace : ∀ b ∈ [(' ' : CodePoint)], isBlank b = true := by decide
  have htext : writeText k ++ ": " ++ write layout level v ++ tail = ('"' : CodePoint) ::
      (k.flatMap escapeChar ++ ('"' : CodePoint) :: (':' : CodePoint) ::
        ([(' ' : CodePoint)] ++ (write layout level v ++ tail))) := by
    rw [List.append_assoc, List.append_assoc, writeText_append, hcolon]
    rfl
  have hskip := ((hv.begins level).append tail).skipBlanks hspace
  rw [htext, readEntries, expect?_cons rfl, if_pos rfl]
  simp only [text?_escaped hk, expect?_cons (show isBlank ':' = false from rfl), if_true, hskip,
    hv level fuel tail hends hfuel]
  rfl

theorem begins_entry (k t : Text) : Begins (writeText k ++ ": " ++ t) :=
  ⟨'"', _, rfl, rfl, by decide, by decide⟩

/-- The entries of a dict, with more fuel than two steps for each of their characters. -/
theorem readEntries_write (hclose : Closes '\x7d' tail rest) : ∀ {es : Dict Value} {fuel : Nat},
    es ≠ [] → (∀ e ∈ es, e.1.Unpaired) → (∀ e ∈ es, ReadsBack layout depth e.2) →
    2 * (Text.join (separator layout level) (writeEntries layout level es)).length < fuel →
    readEntries fuel depth
      (Text.join (separator layout level) (writeEntries layout level es) ++ tail) = .ok (es, rest)
  | [], _, hne, _, _, _ => absurd rfl hne
  | _ :: _, 0, _, _, _, hfuel => absurd hfuel (Nat.not_lt_zero _)
  | [(k, v)], fuel + 1, _, hkeys, h, hfuel => by
    have hv : ReadsBack layout depth v := h _ List.mem_cons_self
    have hk : k.Unpaired := hkeys _ List.mem_cons_self
    simp only [writeEntries, Text.join, List.length_append] at hfuel ⊢
    rw [readEntries_entry hk hv hclose.ends (by omega)]
    simp only [continueEntries, hclose.expect]
  | (k, v) :: (l, w) :: es, fuel + 1, _, hkeys, h, hfuel => by
    obtain ⟨hk, hkeys⟩ := List.forall_mem_cons.1 hkeys
    obtain ⟨hv, hrest⟩ := List.forall_mem_cons.1 h
    have hv : ReadsBack layout depth v := hv
    obtain ⟨blanks, hblanks, htext, hlength⟩ := exists_join_comma layout level
      (writeText k ++ ": " ++ write layout level v) (writeText l ++ ": " ++ write layout level w)
      (writeEntries layout level es) tail
    have hbegins := ((begins_entry l (write layout level w)).join (separator layout level)
      (writeEntries layout level es)).append tail
    simp only [writeEntries] at hfuel ⊢
    have hes := readEntries_write hclose (List.cons_ne_nil (l, w) es) hkeys hrest
      (show 2 * (Text.join (separator layout level)
          (writeEntries layout level ((l, w) :: es))).length < fuel by
        simp only [writeEntries]
        omega)
    simp only [writeEntries] at hes
    rw [List.length_append] at hlength
    rw [htext, readEntries_entry hk hv (ends_comma _) (by omega)]
    simp only [continueEntries, expect?_last_comma (.inr rfl), expect?_comma,
      hbegins.skipBlanks hblanks, hes]

end Rows

/-! ### Values -/

section Values

variable {fuel depth : Nat} {r rest : Text}

theorem readValue_text {t : Text} (h : text? r = some (t, rest)) :
    readValue (fuel + 1) depth (('"' : CodePoint) :: r) = .ok (.text t, rest) := by
  rw [readValue.eq_def]
  simp only [if_true, h]

theorem readValue_list_nil :
    readValue (fuel + 1) (depth + 1) (('[' : CodePoint) :: (']' : CodePoint) :: rest) =
      .ok (.list [], rest) := rfl

theorem readValue_dict_nil :
    readValue (fuel + 1) (depth + 1) (('\x7b' : CodePoint) :: ('\x7d' : CodePoint) :: rest) =
      .ok (.dict [], rest) := rfl

theorem readValue_list {vs : List Value} (hopen : expect? ']' r = none)
    (hitems : readItems fuel depth (skipBlanks r) = .ok (vs, rest)) :
    readValue (fuel + 1) (depth + 1) (('[' : CodePoint) :: r) = .ok (.list vs, rest) := by
  rw [readValue.eq_def]
  simp only [if_true, hopen, hitems]
  rfl

theorem readValue_dict {es : Dict Value} (hopen : expect? '\x7d' r = none)
    (hentries : readEntries fuel depth (skipBlanks r) = .ok (es, rest)) :
    readValue (fuel + 1) (depth + 1) (('\x7b' : CodePoint) :: r) =
      .ok (.dict (Dict.ofEntries es), rest) := by
  rw [readValue.eq_def]
  simp only [if_true, hopen, hentries]
  rfl

end Values

section Written

variable {layout : Layout} {depth : Nat}

theorem readsBack_list {v : Value} {vs : List Value}
    (h : ∀ w ∈ v :: vs, ReadsBack layout depth w) :
    ReadsBack layout (depth + 1) (.list (v :: vs)) := by
  refine .of_succ fun level fuel rest _ hfuel => ?_
  have hclose := closes_lineBreak layout level (.inl rfl) rest
  have hbegins := (((h v List.mem_cons_self).begins (level + 1)).join
    (separator layout (level + 1)) (writeItems layout (level + 1) vs)).append
      (lineBreak layout level ++ (']' : CodePoint) :: rest)
  have hlength := length_join_lt_enclose layout level '[' ']' (write layout (level + 1) v)
    (writeItems layout (level + 1) vs)
  have hitems := readItems_write hclose (List.cons_ne_nil v vs) h
    (show 2 * (Text.join _ (writeItems layout (level + 1) (v :: vs))).length < fuel by
      simp only [write, writeItems] at hfuel ⊢
      omega)
  rw [write, writeItems, enclose_cons_append]
  refine readValue_list (hbegins.expect? (isBlank_lineBreak layout (level + 1)) (.inl rfl)) ?_
  rw [hbegins.skipBlanks (isBlank_lineBreak layout (level + 1))]
  exact hitems

theorem readsBack_dict {e : Text × Value} {es : Dict Value} (hnodup : Dict.keys (e :: es) |>.Nodup)
    (hkeys : ∀ f ∈ e :: es, f.1.Unpaired) (h : ∀ f ∈ e :: es, ReadsBack layout depth f.2) :
    ReadsBack layout (depth + 1) (.dict (e :: es)) := by
  obtain ⟨k, v⟩ := e
  refine .of_succ fun level fuel rest _ hfuel => ?_
  have hclose := closes_lineBreak layout level (.inr rfl) rest
  have hbegins := ((begins_entry k (write layout (level + 1) v)).join
    (separator layout (level + 1)) (writeEntries layout (level + 1) es)).append
      (lineBreak layout level ++ ('\x7d' : CodePoint) :: rest)
  have hlength := length_join_lt_enclose layout level '\x7b' '\x7d'
    (writeText k ++ ": " ++ write layout (level + 1) v) (writeEntries layout (level + 1) es)
  have hentries := readEntries_write hclose (List.cons_ne_nil (k, v) es) hkeys h
    (show 2 * (Text.join _ (writeEntries layout (level + 1) ((k, v) :: es))).length < fuel by
      simp only [write, writeEntries] at hfuel ⊢
      omega)
  have hread := readValue_dict (hbegins.expect? (isBlank_lineBreak layout (level + 1)) (.inr rfl))
    ((congrArg _ (hbegins.skipBlanks (isBlank_lineBreak layout (level + 1)))).trans hentries)
  rw [Dict.ofEntries_of_nodup hnodup] at hread
  rw [write, writeEntries, enclose_cons_append]
  exact hread

/-- **A value that documents can hold is read back from its text.**  By induction on the value; the
items of a list are read one level deeper, between the bracket and the line break behind them. -/
theorem Representable.readsBack {v : Value} (h : Representable depth v) (layout : Layout)
    (hshow : v.isShowable = true) : ReadsBack layout depth v := by
  induction h with
  | null depth => exact .of_succ fun _ _ _ _ _ => rfl
  | bool depth b =>
    cases b with
    | true => exact .of_succ fun _ _ _ _ _ => rfl
    | false => exact .of_succ fun _ _ _ _ _ => rfl
  | int depth n =>
    refine .of_succ fun level fuel rest hends _ => ?_
    rw [Value.isShowable_int] at hshow
    exact readValue_ofInt fuel depth hshow hends
  | @float depth x hfinite =>
    refine .of_succ fun level fuel rest hends _ => ?_
    rw [write, Double.toTextWith_of_isFinite hfinite]
    exact readValue_finiteText fuel depth hfinite hends
  | text depth hunpaired =>
    refine .of_succ fun level fuel rest _ _ => ?_
    rw [write, writeText_append]
    exact readValue_text (text?_escaped hunpaired rest)
  | @list depth items hitems ih =>
    have hshow := Value.isShowable_list_iff.1 hshow
    cases items with
    | nil => exact .of_succ fun _ _ _ _ _ => readValue_list_nil
    | cons v vs => exact readsBack_list fun w hw => ih w hw (hshow w hw)
  | @dict depth entries hnodup hkeys hvalues ih =>
    have hshow := Value.isShowable_dict_iff.1 hshow
    cases entries with
    | nil => exact .of_succ fun _ _ _ _ _ => readValue_dict_nil
    | cons e es => exact readsBack_dict hnodup hkeys fun f hf => ih f hf (hshow f hf)

/-- Doubles are read back, the infinite ones by their names. Of those that are no numbers only one
has a name. -/
theorem readsBack_float {x : Double} (hx : x.isNaN = true → x = .notANumber false) :
    ReadsBack layout depth (.float x) := by
  by_cases hfinite : x.isFinite = true
  · exact (Representable.float depth hfinite).readsBack layout rfl
  · by_cases hnan : x.isNaN = true
    · rw [hx hnan]
      exact .of_succ fun _ _ _ _ _ => rfl
    · have hle := mt decide_eq_true hnan
      have hge := mt decide_eq_true hfinite
      rw [Double.eq_infinity (show x.magnitude = Format.double.infinite by omega)]
      cases x.negative with
      | false => exact .of_succ fun _ _ _ _ _ => rfl
      | true => exact .of_succ fun _ _ _ _ _ => rfl

end Written

/-! ### Documents -/

/-- What is read back everywhere is read back as a document, with blanks behind it or none. -/
theorem ReadsBack.read_write {layout : Layout} {depth : Nat} {v : Value}
    (hreads : ReadsBack layout depth v) {rest : Text} (hends : Ends rest)
    (hblanks : skipBlanks rest = []) : read (write layout 0 v ++ rest) depth = .ok v := by
  have hbegins := (hreads.begins 0).append rest
  have hskip : skipBlanks (write layout 0 v ++ rest) = write layout 0 v ++ rest :=
    hbegins.skipBlanks (List.forall_mem_nil _)
  have hvalue := hreads 0 (2 * (write layout 0 v ++ rest).length + 2) rest hends (by
    rw [List.length_append]
    omega)
  unfold read
  rw [hskip, hvalue]
  simp only [hblanks, if_true]

/-- **A document is read as the value that it was written from**, whatever its layout. -/
theorem read_write {depth : Nat} {v : Value} (h : Representable depth v)
    (hshow : v.isShowable = true) (layout : Layout) {rest : Text} (hends : Ends rest)
    (hblanks : skipBlanks rest = []) : read (write layout 0 v ++ rest) depth = .ok v :=
  (h.readsBack layout hshow).read_write hends hblanks

end Json

end FarmLink
