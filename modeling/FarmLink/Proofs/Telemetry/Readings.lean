import FarmLink.Proofs.Dict.Order
import FarmLink.Proofs.Text.Joining
import FarmLink.Proofs.Token.Pairs
import FarmLink.Telemetry

/-!
# Readings - what a telemetry frame holds

The tokens of a frame are read one after the other, and each pair is put into the dict of readings.
So a frame is the dict of the entries of its tokens (`ofText_eq_ofEntries`), and it has a reading
under a key where one of its tokens is that key, a colon, and a value (`has_ofText`). Which tokens
count is told by counting colons alone: those with one stay, in the order of their keys' first
tokens and with the values of the last (`ofText_keeps_pairs`).
-/

namespace FarmLink.Telemetry

/-- The reading of a key from its text. -/
def readingOf (keepText : List Text) (key value : Text) : Reading :=
  if keepText.contains key then .text value else .ofToken value

/-- The entry of a token, if it is a pair. -/
def entryOf (keepText : List Text) (token : Text) : Option (Text × Reading) :=
  (Token.pair? [':'] token).map fun pair => (pair.1, readingOf keepText pair.1 pair.2)

theorem entryOf_eq_some_iff {keepText : List Text} {token key : Text} {reading : Reading} :
    entryOf keepText token = some (key, reading) ↔
      ∃ value, token = key ++ (':' : CodePoint) :: value ∧ (':' : CodePoint) ∉ key ∧
        (':' : CodePoint) ∉ value ∧ reading = readingOf keepText key value := by
  constructor
  · intro h
    obtain ⟨⟨a, value⟩, hpair, he⟩ := Option.map_eq_some_iff.1 h
    obtain ⟨rfl, rfl⟩ := Prod.mk.inj he
    obtain ⟨htoken, hkey, hvalue⟩ := Token.pair?_eq_some_iff.1 hpair
    exact ⟨value, htoken, hkey, hvalue, rfl⟩
  · rintro ⟨value, htoken, hkey, hvalue, rfl⟩
    have hpair := Token.pair?_eq_some_iff.2 ⟨htoken, hkey, hvalue⟩
    exact Option.map_eq_some_iff.2 ⟨_, hpair, rfl⟩

theorem addToken_eq (keepText : List Text) (readings : Telemetry) (token : Text) :
    addToken keepText readings token =
      match entryOf keepText token with
      | some entry => Dict.put readings entry.1 entry.2
      | none => readings := by
  unfold addToken entryOf
  cases Token.pair? [':'] token with
  | none => rfl
  | some pair => rfl

/-- **A frame is the dict of the entries of its tokens.** -/
theorem ofText_eq_ofEntries (keepText : List Text) (t : Text) :
    ofText keepText t = Dict.ofEntries ((Text.split ',' t).filterMap (entryOf keepText)) := by
  unfold ofText Dict.ofEntries
  rw [List.foldl_filterMap]
  congr 1
  funext readings token
  rw [addToken_eq]
  cases entryOf keepText token with
  | none => rfl
  | some entry => rfl

/-- A key has a reading where a token pairs it with a value. -/
theorem has_ofText {keepText : List Text} {t key : Text} :
    (ofText keepText t).has key = true ↔
      ∃ value, key ++ (':' : CodePoint) :: value ∈ Text.split ',' t ∧
        (':' : CodePoint) ∉ key ∧ (':' : CodePoint) ∉ value := by
  rw [ofText_eq_ofEntries, Dict.has_ofEntries]
  constructor
  · intro h
    obtain ⟨⟨k, reading⟩, hentry, rfl⟩ := List.mem_map.1 h
    obtain ⟨token, htoken, hentry⟩ := List.mem_filterMap.1 hentry
    obtain ⟨value, rfl, hkey, hvalue, -⟩ := entryOf_eq_some_iff.1 hentry
    exact ⟨value, htoken, hkey, hvalue⟩
  · rintro ⟨value, htoken, hkey, hvalue⟩
    have hentry : entryOf keepText _ = some (key, _) :=
      entryOf_eq_some_iff.2 ⟨value, rfl, hkey, hvalue, rfl⟩
    exact List.mem_map.2 ⟨_, List.mem_filterMap.2 ⟨_, htoken, hentry⟩, rfl⟩

/-! ### What stays of the tokens -/

/-- The tokens of a frame that hold exactly one colon. -/
def pairTokens (t : Text) : List Text :=
  (Text.split ',' t).filter fun token => token.count (':' : CodePoint) = 1

/-- The entry of a token with one colon. -/
def entryOfPair (keepText : List Text) (token : Text) : Text × Reading :=
  (Token.keyOf ':' token, readingOf keepText (Token.keyOf ':' token) (Token.valueOf ':' token))

theorem entryOf_eq_ite (keepText : List Text) (token : Text) :
    entryOf keepText token =
      if token.count (':' : CodePoint) = 1 then some (entryOfPair keepText token) else none := by
  unfold entryOf
  rw [Token.pair?_eq_ite]
  split <;> rfl

/-- The entries of a frame are those of its tokens with one colon. -/
theorem filterMap_entryOf (keepText : List Text) (tokens : List Text) :
    tokens.filterMap (entryOf keepText) =
      (tokens.filter fun token => token.count (':' : CodePoint) = 1).map
        (entryOfPair keepText) := by
  rw [← List.filterMap_eq_map, List.filterMap_filter]
  refine List.filterMap_congr fun token _ => ?_
  rw [entryOf_eq_ite]
  simp only [decide_eq_true_eq, Function.comp_apply]

theorem keys_ofText (keepText : List Text) (t : Text) :
    (ofText keepText t).keys = ((pairTokens t).map (Token.keyOf ':')).eraseDups := by
  rw [ofText_eq_ofEntries, filterMap_entryOf, Dict.keys_ofEntries, Dict.keys, map_firsts,
    List.map_map]
  rfl

theorem get?_ofText (keepText : List Text) (t key : Text) :
    (ofText keepText t).get? key =
      ((pairTokens t).filter fun token => Token.keyOf ':' token = key).getLast?.map
        fun token => readingOf keepText key (Token.valueOf ':' token) := by
  rw [ofText_eq_ofEntries, filterMap_entryOf, Dict.get?_ofEntries_eq_getLast?, List.filter_map,
    List.getLast?_map, Option.map_map]
  refine Option.map_congr fun token htoken => ?_
  have hkey : Token.keyOf ':' token = key :=
    of_decide_eq_true (List.mem_filter.1 (List.mem_of_getLast? htoken)).2
  unfold entryOfPair
  simp only [Function.comp_apply, hkey]

/-- The entries of joined tokens are those of the tokens. -/
theorem ofText_join (keepText : List Text) {tokens : List Text}
    (h : ∀ token ∈ tokens, (',' : CodePoint) ∉ token) :
    ofText keepText (Text.join "," tokens) =
      Dict.ofEntries (tokens.filterMap (entryOf keepText)) := by
  rw [ofText_eq_ofEntries, List.filterMap_eq_flatMap_toList, List.filterMap_eq_flatMap_toList]
  exact congrArg _ (Text.flatMap_split_join _ rfl h)

/-- A token with no or several colons can stand anywhere. -/
theorem ofText_join_of_malformed (keepText : List Text) {before after : List Text} {bad : Text}
    (hcomma : ∀ token ∈ before ++ bad :: after, (',' : CodePoint) ∉ token)
    (hbad : bad.count (':' : CodePoint) ≠ 1) :
    ofText keepText (Text.join "," (before ++ bad :: after)) =
      ofText keepText (Text.join "," (before ++ after)) := by
  have hrest : ∀ token ∈ before ++ after, (',' : CodePoint) ∉ token := fun token htoken =>
    hcomma token (List.mem_append.2
      ((List.mem_append.1 htoken).imp_right (List.mem_cons_of_mem bad)))
  have hnone : entryOf keepText bad = none := by
    rw [entryOf_eq_ite, if_neg hbad]
  rw [ofText_join keepText hcomma, ofText_join keepText hrest, List.filterMap_append,
    List.filterMap_append, List.filterMap_cons_none hnone]

/-- **A frame keeps exactly its well-formed tokens.**  Its keys are those of the tokens with one
colon, in the order of their first occurrences. The last token with a key gives the value: its text
where texts are kept or no number stands at its front, else that number. A token with no or several
colons changes nothing, wherever it stands. -/
theorem ofText_keeps_pairs (keepText : List Text) (t : Text) :
    (ofText keepText t).keys = ((pairTokens t).map (Token.keyOf ':')).eraseDups ∧
    (∀ key : Text, (ofText keepText t).get? key =
      ((pairTokens t).filter fun token => Token.keyOf ':' token = key).getLast?.map fun token =>
        if key ∈ keepText then .text (Token.valueOf ':' token)
        else match Token.number? (Token.valueOf ':' token) with
          | some x => .number x
          | none => .text (Token.valueOf ':' token)) ∧
    ∀ (before : List Text) (bad : Text) (after : List Text),
      (∀ token ∈ before ++ bad :: after, (',' : CodePoint) ∉ token) →
      bad.count (':' : CodePoint) ≠ 1 →
      ofText keepText (Text.join "," (before ++ bad :: after)) =
        ofText keepText (Text.join "," (before ++ after)) := by
  refine ⟨keys_ofText keepText t, fun key => ?_,
    fun before bad after hcomma hbad => ofText_join_of_malformed keepText hcomma hbad⟩
  rw [get?_ofText]
  congr 1
  funext token
  by_cases hkey : key ∈ keepText
  · rw [if_pos hkey]
    exact if_pos (List.contains_iff_mem.2 hkey)
  · rw [if_neg hkey]
    exact if_neg (mt List.contains_iff_mem.1 hkey)

/-- A key given twice, a version kept as text, and tokens with no colon and with two. -/
theorem ofText_keeps_pairs_mixed :
    (ofText ["fw"] "t:1,junk,fw:2,u:x,t:3V").keys = (["t", "fw", "u"] : List Text) ∧
    (ofText ["fw"] "t:1,junk,fw:2,u:x,t:3V").get? "t" =
      some (.number (.ofBits 0x4008000000000000)) ∧
    (ofText ["fw"] "t:1,junk,fw:2,u:x,t:3V").get? "fw" = some (.text "2") ∧
    (∀ token ∈ (["t:1"] ++ "a:b:c" :: ["t:2"] : List Text), (',' : CodePoint) ∉ token) ∧
    List.count (':' : CodePoint) "a:b:c" ≠ 1 ∧
    ofText [] (Text.join "," (["t:1"] ++ "a:b:c" :: ["t:2"])) =
      ofText [] (Text.join "," (["t:1"] ++ ["t:2"])) := by
  have hcomma : ∀ token ∈ (["t:1"] ++ "a:b:c" :: ["t:2"] : List Text),
      (',' : CodePoint) ∉ token := by decide
  have hbad : List.count (':' : CodePoint) "a:b:c" ≠ 1 := by decide
  obtain ⟨hkeys, hvalues, -⟩ := ofText_keeps_pairs ["fw"] "t:1,junk,fw:2,u:x,t:3V"
  obtain ⟨-, -, hinsert⟩ := ofText_keeps_pairs [] ""
  refine ⟨hkeys.trans (by decide), ?_, ?_, hcomma, hbad, hinsert _ _ _ hcomma hbad⟩
  · rw [hvalues]
    decide +kernel
  · rw [hvalues]
    decide +kernel

end FarmLink.Telemetry
