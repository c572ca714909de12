import FarmLink.Proofs.Json.Strings
import FarmLink.Proofs.Value.Parts
import FarmLink.Proofs.Value.Showable

/-!
# Reading - what documents can hold

What the values of a document are made of comes out of the reader in few ways, so a property of all
values that are read is told by texts, names and numbers, and passes on to lists and dicts
(`Inherited.of_read`). Values, items and entries are read by each other, so one induction on the
fuel goes through all three; it carries along that what is left is the end of the document, since
the texts in it are read from there. A whole number with too many digits makes a document
unreadable, so the whole numbers of one that is read can all be shown and written again
(`isShowable_of_read`). A document without surrogates has no texts with pairs of them, whatever its
escapes (`hasUnpairedTexts_of_read`), and of the doubles that are no numbers only the one with a
name is read (`hasPlainNaNs_of_read`).
-/

namespace FarmLink

namespace Value

/-- No text in a value has a high surrogate right in front of a low one. Keys do not count. -/
def HasUnpairedTexts (v : Value) : Prop := ∀ t : Text, (text t).StandsIn v → t.Unpaired

/-- What is not a number has in a value the one pattern that its name is read as. -/
def HasPlainNaNs (v : Value) : Prop :=
  ∀ x : Double, (float x).StandsIn v → x.isNaN = true → x = .notANumber false

end Value

/-- The double nearest to a decimal is a number. -/
theorem Decimal.isNaN_toDouble (x : Decimal) : x.toDouble.isNaN = false := by
  have hround (negative : Bool) (n d : Nat) : (Double.round negative n d).isNaN = false :=
    decide_eq_false (Nat.not_lt.2 (Format.double.round_le_infinite n d))
  unfold toDouble
  split
  · rfl
  · split
    · rfl
    · split
      · exact hround _ _ _
      · split
        · rfl
        · exact hround _ _ _

namespace Json

theorem lt_of_mem_whole? {t rest : Text} {ds : List Nat} (h : whole? t = some (ds, rest)) :
    ∀ d ∈ ds, d < 10 := by
  unfold whole? at h
  split at h
  · cases h
  · cases h
    intro d hd
    rw [List.mem_singleton.1 hd]
    decide
  · next digits behind _ hrun =>
    cases h
    intro d hd
    have hmem : d ∈ (Text.takeDigits Text.asciiDigit? t).1 := by
      rw [hrun]
      exact hd
    obtain ⟨c, hc⟩ := Text.exists_of_mem_takeDigits hmem
    exact Text.asciiDigit?_lt hc

/-- A number that is read is a short whole number, or a double that is a number. -/
theorem exists_of_number {t rest : Text} {v : Value} (h : number t = .ok (v, rest)) :
    (∃ n, v = .int n ∧ isShowable n = true) ∨ ∃ x, v = .float x ∧ x.isNaN = false := by
  unfold number at h
  simp only at h
  split at h
  · cases h
  · next hwhole =>
    split at h
    · split at h
      · cases h
      · next hlength =>
        cases h
        refine .inl ⟨_, rfl, ?_⟩
        rw [isShowable_signed]
        exact isShowable_ofDigits (lt_of_mem_whole? hwhole) (by omega)
    · cases h
      exact .inr ⟨_, rfl, Decimal.isNaN_toDouble _⟩

/-! ### What is left of a document -/

theorem suffix_of_whole? {t rest : Text} {ds : List Nat} (h : whole? t = some (ds, rest)) :
    rest <:+ t := by
  have hrun := Text.takeDigits_suffix Text.asciiDigit? t
  unfold whole? at h
  split at h
  · cases h
  · cases h
    exact List.drop_suffix 1 t
  · next hdigits =>
    cases h
    rwa [hdigits] at hrun

theorem suffix_of_fraction? {t rest : Text} {ds : List Nat} (h : fraction? t = some (ds, rest)) :
    rest <:+ t := by
  cases t with
  | nil => cases h
  | cons c r =>
    have hrun := Text.takeDigits_suffix Text.asciiDigit? r
    rw [fraction?] at h
    split at h
    · split at h
      · cases h
      · next hdigits =>
        cases h
        rw [hdigits] at hrun
        exact hrun.trans (List.suffix_cons c r)
    · cases h

theorem scanSign_suffix (t : Text) : (Decimal.scanSign t).2 <:+ t := by
  cases t with
  | nil => exact List.suffix_rfl
  | cons c r =>
    rw [Decimal.scanSign]
    split_ifs
    · exact List.suffix_cons c r
    · exact List.suffix_cons c r
    · exact List.suffix_rfl

theorem suffix_of_exponent? {t rest : Text} {e : Int}
    (h : Decimal.exponent? Text.asciiDigit? t = some (e, rest)) : rest <:+ t := by
  cases t with
  | nil => cases h
  | cons c r =>
    have hsign := (scanSign_suffix r).trans (List.suffix_cons c r)
    have hrun := Text.takeDigits_suffix Text.asciiDigit? (Decimal.scanSign r).2
    rw [Decimal.exponent?] at h
    split at h
    · simp only at h
      split at h
      · cases h
      · next hdigits =>
        cases h
        rw [hdigits] at hrun
        exact hrun.trans hsign
    · cases h

theorem suffix_of_number {t rest : Text} {v : Value} (h : number t = .ok (v, rest)) :
    rest <:+ t := by
  have hfraction (r : Text) : ((fraction? r).map Prod.snd).getD r <:+ r := by
    cases hf : fraction? r with
    | none => exact List.suffix_rfl
    | some f => exact suffix_of_fraction? hf
  have hexponent (r : Text) :
      ((Decimal.exponent? Text.asciiDigit? r).getD (0, r)).2 <:+ r := by
    cases he : Decimal.exponent? Text.asciiDigit? r with
    | none => exact List.suffix_rfl
    | some e => exact suffix_of_exponent? he
  unfold number at h
  simp only at h
  split at h
  · cases h
  · next whole behind hwhole =>
    have hbehind : behind <:+ t := by
      refine (suffix_of_whole? hwhole).trans ?_
      cases t with
      | nil => exact List.suffix_rfl
      | cons c r =>
        simp only
        split_ifs
        · exact List.suffix_cons c r
        · exact List.suffix_rfl
    split at h
    · split at h
      · cases h
      · cases h
        exact hbehind
    · cases h
      exact ((hexponent _).trans (hfraction behind)).trans hbehind

theorem suffix_of_named? {t rest : Text} {v : Value} (h : named? t = some (v, rest)) :
    rest <:+ t := by
  obtain ⟨⟨name, w⟩, -, hrest⟩ := List.exists_of_findSome?_eq_some h
  obtain ⟨_, hafter, hpair⟩ := Option.map_eq_some_iff.1 hrest
  obtain ⟨-, rfl⟩ := Prod.mk.inj hpair
  rw [Text.after?_eq_some_iff.1 hafter]
  exact List.suffix_append _ _

theorem skipBlanks_suffix (t : Text) : skipBlanks t <:+ t := List.dropWhile_suffix _

theorem suffix_of_expect? {c : CodePoint} {t rest : Text} (h : expect? c t = some rest) :
    rest <:+ t := by
  unfold expect? at h
  split at h
  · cases h
  · next d r hskip =>
    split at h
    · cases h
      have hr : rest <:+ skipBlanks t := hskip ▸ List.suffix_cons d rest
      exact hr.trans (skipBlanks_suffix t)
    · cases h

/-! ### What holds of all that is read -/

/-- A property of values that texts, names and numbers have as they are read, and lists and dicts of
values that have it. What texts are read from may be told by a property of documents that passes on
to their ends. -/
structure Inherited (q : Text → Prop) (p : Value → Prop) : Prop where
  suffix : ∀ {s t : Text}, s <:+ t → q t → q s
  text : ∀ {t s rest : Text}, q t → text? t = some (s, rest) → p (.text s)
  named : ∀ e ∈ names, p e.2
  int : ∀ {n : Int}, isShowable n = true → p (.int n)
  float : ∀ {x : Double}, x.isNaN = false → p (.float x)
  list : ∀ {items : List Value}, (∀ v ∈ items, p v) → p (.list items)
  dict : ∀ {entries : Dict Value}, (∀ e ∈ entries, p e.2) → p (.dict entries)

namespace Inherited

variable {q : Text → Prop} {p : Value → Prop} (h : Inherited q p)

include h

theorem of_number {t rest : Text} {v : Value} (hread : number t = .ok (v, rest)) : p v := by
  rcases exists_of_number hread with ⟨n, rfl, hn⟩ | ⟨x, rfl, hx⟩
  · exact h.int hn
  · exact h.float hx

theorem of_named? {t rest : Text} {v : Value} (hread : named? t = some (v, rest)) : p v := by
  obtain ⟨⟨name, w⟩, hname, hrest⟩ := List.exists_of_findSome?_eq_some hread
  obtain ⟨_, -, hpair⟩ := Option.map_eq_some_iff.1 hrest
  obtain ⟨rfl, -⟩ := Prod.mk.inj hpair
  exact h.named _ hname

end Inherited

/-- What the three readers give with some fuel has a property, and what they leave is the end of
what they were given. -/
structure ReadsOnly (q : Text → Prop) (p : Value → Prop) (fuel : Nat) : Prop where
  value : ∀ {depth t v rest}, readValue fuel depth t = .ok (v, rest) → (q t → p v) ∧ rest <:+ t
  items : ∀ {depth t vs rest}, readItems fuel depth t = .ok (vs, rest) →
    (q t → ∀ v ∈ vs, p v) ∧ rest <:+ t
  entries : ∀ {depth t es rest}, readEntries fuel depth t = .ok (es, rest) →
    (q t → ∀ e ∈ es, p e.2) ∧ rest <:+ t

section Step

variable {q : Text → Prop} {p : Value → Prop} {fuel depth : Nat} {t rest : Text}
  (ih : ReadsOnly q p fuel) (hp : Inherited q p)

include ih hp

theorem ReadsOnly.of_readValue {v : Value} (h : readValue (fuel + 1) depth t = .ok (v, rest)) :
    (q t → p v) ∧ rest <:+ t := by
  cases t with
  | nil => cases h
  | cons c r =>
    have hr : r <:+ c :: r := List.suffix_cons c r
    unfold readValue at h
    split at h
    -- a text
    · split at h
      · cases h
      · next htext =>
        cases h
        exact ⟨fun hq => hp.text (hp.suffix hr hq) htext, (suffix_of_text? htext).trans hr⟩
    · split at h
      -- a list, empty or with items
      · split at h
        · cases h
        · split at h
          · next hclose =>
            cases h
            exact ⟨fun _ => hp.list (List.forall_mem_nil _), (suffix_of_expect? hclose).trans hr⟩
          · split at h
            · cases h
            · next hitems =>
              cases h
              obtain ⟨hvalues, hrest⟩ := ih.items hitems
              have hitems := (skipBlanks_suffix r).trans hr
              exact ⟨fun hq => hp.list (hvalues (hp.suffix hitems hq)), hrest.trans hitems⟩
      · split at h
        -- a dict, empty or with entries
        · split at h
          · cases h
          · split at h
            · next hclose =>
              cases h
              exact ⟨fun _ => hp.dict (List.forall_mem_nil _), (suffix_of_expect? hclose).trans hr⟩
            · split at h
              · cases h
              · next hentries =>
                cases h
                obtain ⟨hvalues, hrest⟩ := ih.entries hentries
                have hentries := (skipBlanks_suffix r).trans hr
                refine ⟨fun hq => hp.dict fun e he => ?_, hrest.trans hentries⟩
                exact hvalues (hp.suffix hentries hq) e (Dict.mem_of_mem_ofEntries he)
        -- a name or a number
        · split at h
          · next hnamed =>
            cases h
            exact ⟨fun _ => hp.of_named? hnamed, suffix_of_named? hnamed⟩
          · exact ⟨fun _ => hp.of_number h, suffix_of_number h⟩

theorem ReadsOnly.of_readItems {vs : List Value}
    (h : readItems (fuel + 1) depth t = .ok (vs, rest)) :
    (q t → ∀ v ∈ vs, p v) ∧ rest <:+ t := by
  rw [readItems] at h
  split at h
  · cases h
  · next hfirst =>
    obtain ⟨hvalue, hfirst⟩ := ih.value hfirst
    split at h
    · next hclose =>
      cases h
      exact ⟨fun hq => List.forall_mem_singleton.2 (hvalue hq),
        (suffix_of_expect? hclose).trans hfirst⟩
    · split at h
      · cases h
      · next hcomma =>
        split at h
        · cases h
        · next hitems =>
          cases h
          obtain ⟨hvalues, hrest⟩ := ih.items hitems
          have hitems := ((skipBlanks_suffix _).trans (suffix_of_expect? hcomma)).trans hfirst
          exact ⟨fun hq => List.forall_mem_cons.2 ⟨hvalue hq, hvalues (hp.suffix hitems hq)⟩,
            hrest.trans hitems⟩

theorem ReadsOnly.of_readEntries {es : List (Text × Value)}
    (h : readEntries (fuel + 1) depth t = .ok (es, rest)) :
    (q t → ∀ e ∈ es, p e.2) ∧ rest <:+ t := by
  rw [readEntries] at h
  split at h
  · cases h
  · next hquote =>
    split at h
    · cases h
    · next hkey =>
      split at h
      · cases h
      · next hcolon =>
        split at h
        · cases h
        · next hfirst =>
          obtain ⟨hvalue, hfirst⟩ := ih.value hfirst
          have hstart := (((skipBlanks_suffix _).trans (suffix_of_expect? hcolon)).trans
            (suffix_of_text? hkey)).trans (suffix_of_expect? hquote)
          have hfirst := hfirst.trans hstart
          split at h
          · next hclose =>
            cases h
            exact ⟨fun hq => List.forall_mem_singleton.2 (hvalue (hp.suffix hstart hq)),
              (suffix_of_expect? hclose).trans hfirst⟩
          · split at h
            · cases h
            · next hcomma =>
              split at h
              · cases h
              · next hentries =>
                cases h
                obtain ⟨hvalues, hrest⟩ := ih.entries hentries
                have hentries :=
                  ((skipBlanks_suffix _).trans (suffix_of_expect? hcomma)).trans hfirst
                exact ⟨fun hq => List.forall_mem_cons.2 ⟨hvalue (hp.suffix hstart hq),
                  hvalues (hp.suffix hentries hq)⟩, hrest.trans hentries⟩

end Step

theorem Inherited.readsOnly {q : Text → Prop} {p : Value → Prop} (hp : Inherited q p)
    (fuel : Nat) : ReadsOnly q p fuel := by
  induction fuel with
  | zero =>
    constructor
    · intro depth t v rest h
      cases h
    · intro depth t vs rest h
      cases h
    · intro depth t es rest h
      cases h
  | succ fuel ih => exact ⟨ih.of_readValue hp, ih.of_readItems hp, ih.of_readEntries hp⟩

/-- **What is inherited holds of every document.** -/
theorem Inherited.of_read {q : Text → Prop} {p : Value → Prop} (hp : Inherited q p) {t : Text}
    {depth : Nat} {v : Value} (ht : q t) (h : read t depth = .ok v) : p v := by
  unfold read at h
  split at h
  · cases h
  · next hvalue =>
    split at h
    · cases h
      exact ((hp.readsOnly _).value hvalue).1 (hp.suffix (skipBlanks_suffix t) ht)
    · cases h

theorem inherited_isShowable : Inherited (fun _ => True) fun v => v.isShowable = true where
  suffix _ _ := trivial
  text _ _ := rfl
  named := by
    intro e he
    simp only [names, List.mem_cons, List.not_mem_nil, or_false] at he
    rcases he with rfl | rfl | rfl | rfl | rfl | rfl <;> rfl
  int hn := by rwa [Value.isShowable_int]
  float _ := rfl
  list := Value.isShowable_list_iff.2
  dict := Value.isShowable_dict_iff.2

/-- **The whole numbers of a document are short enough to be shown.** -/
theorem isShowable_of_read {t : Text} {depth : Nat} {v : Value} (h : read t depth = .ok v) :
    v.isShowable = true :=
  inherited_isShowable.of_read trivial h

theorem inherited_hasUnpairedTexts : Inherited Text.IsPlain Value.HasUnpairedTexts where
  suffix hsuffix ht := ht.subset hsuffix.subset
  text ht htext := by
    rintro t ⟨⟩
    exact unpaired_of_text? htext ht
  named := by
    intro e he t ht
    simp only [names, List.mem_cons, List.not_mem_nil, or_false] at he
    rcases he with rfl | rfl | rfl | rfl | rfl | rfl <;> cases ht
  int _ := by rintro t ⟨⟩
  float _ := by rintro t ⟨⟩
  list hitems := by
    intro t ht
    cases ht with
    | item hv ht => exact hitems _ hv t ht
  dict hentries := by
    intro t ht
    cases ht with
    | entry he ht => exact hentries _ he t ht

/-- **No text of a document without surrogates has a pair of them.** -/
theorem hasUnpairedTexts_of_read {t : Text} {depth : Nat} {v : Value} (ht : t.IsPlain)
    (h : read t depth = .ok v) : v.HasUnpairedTexts :=
  inherited_hasUnpairedTexts.of_read ht h

theorem inherited_hasPlainNaNs : Inherited (fun _ => True) Value.HasPlainNaNs where
  suffix _ _ := trivial
  text _ _ := by rintro x ⟨⟩
  named := by
    intro e he x hx hnan
    simp only [names, List.mem_cons, List.not_mem_nil, or_false] at he
    rcases he with rfl | rfl | rfl | rfl | rfl | rfl <;> cases hx
    · rfl
    · cases hnan
    · cases hnan
  int _ := by rintro x ⟨⟩
  float hnumber := by
    rintro x ⟨⟩ hnan
    rw [hnumber] at hnan
    cases hnan
  list hitems := by
    intro x hx
    cases hx with
    | item hv hx => exact hitems _ hv x hx
  dict hentries := by
    intro x hx
    cases hx with
    | entry he hx => exact hentries _ he x hx

theorem hasPlainNaNs_of_read {t : Text} {depth : Nat} {v : Value} (h : read t depth = .ok v) :
    v.HasPlainNaNs :=
  inherited_hasPlainNaNs.of_read trivial h

/-! ### Numbers of too many digits -/

end Json

end FarmLink
