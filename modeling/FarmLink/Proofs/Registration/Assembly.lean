import FarmLink.Proofs.Registration.Composition
import FarmLink.Proofs.Registration.FrameGrammar

/-!
# Assembly - documents in frames read as one

Frames are read one by one, their data joined and read as a document. The same comes out when the
whole frames are joined as they are (`assemble_eq_ofText_join`): the head of a frame has no equals
sign, so as a segment it declares nothing, and a frame without data adds only that head. A frame
that is refused decides the outcome by itself; nothing behind it counts.
-/

namespace FarmLink

namespace Frame

/-- A text that is read as a frame. -/
def Accepted (t : Text) : Prop := ∃ frame, ofText t = .ok frame

theorem accepted_iff {t : Text} : Accepted t ↔ (ofText t).isOk = true := by
  unfold Accepted
  cases ofText t with
  | error e =>
    simp only [reduceCtorEq, exists_false, Except.isOk, Except.toBool, Bool.false_eq_true]
  | ok frame => exact ⟨fun _ => rfl, fun _ => ⟨frame, rfl⟩⟩

instance (t : Text) : Decidable (Accepted t) := decidable_of_iff _ accepted_iff.symm

theorem ofText_eq_ok_iff {t : Text} {frame : Frame} :
    ofText t = .ok frame ↔ check t = .ok frame := by
  unfold ofText
  cases check t with
  | error fault => simp only [reduceCtorEq]
  | ok f => simp only [Except.ok.injEq]

end Frame

namespace FrameSource

@[simp] theorem toText_text (t : Text) : (text t).toText = .ok t := rfl

@[simp] theorem toText_bytes (bs : Bytes) : (payload (.bytes bs)).toText = .ok (Text.ofBytes bs) :=
  rfl

theorem read_text_eq_ok {t : Text} {frame : Frame} (h : Frame.ofText t = .ok frame) :
    (text t).read = .ok frame :=
  read_text_of_check (Frame.ofText_eq_ok_iff.1 h)

/-- A refused frame is reported with its whole text. -/
theorem read_text_eq_error {t : Text} (h : ¬ Frame.Accepted t) :
    ∃ fault, Frame.check t = .error fault ∧
      (text t).read = .error (.codec (.frame t fault)) := by
  cases hcheck : Frame.check t with
  | ok frame => exact absurd ⟨frame, Frame.ofText_eq_ok_iff.2 hcheck⟩ h
  | error fault => exact ⟨fault, rfl, read_text_of_fault hcheck⟩

/-- Of what is handed over only the text counts. -/
theorem read_eq_of_toText {source : FrameSource} {t : Text} (h : source.toText = .ok t) :
    source.read = (text t).read := by
  unfold read
  rw [h]
  rfl

end FrameSource

namespace Registration

/-! ### The heads of frames -/

/-- What is between the mark and the pipe of a frame holds no equals sign. -/
theorem not_mem_of_strip_mem {head : Text} (h : Text.strip Text.isBlank head ∈ frameKeys) :
    ('=' : CodePoint) ∉ head := by
  intro hmem
  have hstrip : ('=' : CodePoint) ∈ Text.strip Text.isBlank head := (Text.mem_strip_iff rfl).2 hmem
  have hkeys : ∀ key ∈ frameKeys, ('=' : CodePoint) ∉ key := by decide
  exact hkeys _ h hstrip

/-- The head of a frame declares nothing. -/
theorem ofText_of_accepted {t : Text} {frame : Frame} (h : Frame.ofText t = .ok frame) :
    ofText t = ofText frame.data := by
  have hspells := Frame.spells_of_check (Frame.ofText_eq_ok_iff.1 h)
  obtain ⟨head, ht, hbar, hkey⟩ := hspells.exists_head
  have hmark : ∀ c ∈ ("reg:" : Text), c ≠ ('|' : CodePoint) ∧ c ≠ ('=' : CodePoint) := by decide
  have hempty : ofText ("reg:" ++ head) = {} := by
    apply ofText_of_unnamed
    · intro hc
      rcases List.mem_append.1 hc with hc | hc
      · exact (hmark _ hc).1 rfl
      · exact hbar hc
    · refine .inl fun hc => ?_
      rcases List.mem_append.1 hc with hc | hc
      · exact (hmark _ hc).2 rfl
      · exact not_mem_of_strip_mem (hkey.symm ▸ hspells.1) hc
  rw [ht, ofText_append, hempty, empty_merge]

/-! ### Joined documents -/

theorem ofText_join_cons (t : Text) (ts : List Text) :
    ofText (Text.join "|" (t :: ts)) = (ofText t).merge (ofText (Text.join "|" ts)) := by
  cases ts with
  | nil => exact (merge_empty (ofText t)).symm
  | cons u ts => rw [Text.join_cons _ _ (List.cons_ne_nil u ts), ofText_append]

/-- A frame without data adds nothing to the document, as the empty text would. -/
theorem ofText_documentOf_cons (frame : Frame) (frames : List Frame) :
    ofText (documentOf (frame :: frames)) =
      (ofText frame.data).merge (ofText (documentOf frames)) := by
  unfold documentOf
  rw [List.map_cons]
  by_cases h : frame.data = []
  · rw [List.filter_cons_of_neg (by simp [h]), h]
    exact (empty_merge _).symm
  · rw [List.filter_cons_of_pos (by simpa using h), ofText_join_cons]

/-- Frames that are all read hold the document of the joined frames. -/
theorem exists_frames {texts : List Text} (h : ∀ t ∈ texts, Frame.Accepted t) :
    ∃ frames, (texts.map FrameSource.text).mapM FrameSource.read = .ok frames ∧
      ofText (documentOf frames) = ofText (Text.join "|" texts) := by
  induction texts with
  | nil => exact ⟨[], rfl, rfl⟩
  | cons t texts ih =>
    obtain ⟨frame, hframe⟩ := h t List.mem_cons_self
    obtain ⟨frames, hread, hdoc⟩ := ih fun u hu => h u (List.mem_cons_of_mem _ hu)
    have hone := FrameSource.read_text_eq_ok hframe
    refine ⟨frame :: frames, ?_, ?_⟩
    · rw [List.map_cons, List.mapM_cons, hone, hread]
      rfl
    · rw [ofText_documentOf_cons, hdoc, ofText_join_cons, ofText_of_accepted hframe]

/-! ### Outcomes -/

/-- Of a frame that is handed over only its text counts. -/
theorem assemble_eq_of_toText {sources : List FrameSource} {texts : List Text}
    (h : List.Forall₂ (fun s t => s.toText = .ok t) sources texts) :
    assemble sources = assemble (texts.map .text) := by
  have hread : sources.mapM FrameSource.read = (texts.map .text).mapM FrameSource.read := by
    induction h with
    | nil => rfl
    | cons hs _ ih =>
      rw [List.map_cons, List.mapM_cons, List.mapM_cons, ih, FrameSource.read_eq_of_toText hs]
  unfold assemble
  rw [hread]

/-- A frame that is not accepted, and only accepted ones in front, decides the outcome. -/
theorem assemble_eq_error {before : List Text} {t : Text} (after : List Text)
    (hbefore : ∀ u ∈ before, Frame.Accepted u) (ht : ¬ Frame.Accepted t) :
    ∃ fault, Frame.check t = .error fault ∧
      assemble ((before ++ t :: after).map .text) = .error (.codec (.frame t fault)) := by
  obtain ⟨fault, hcheck, hfault⟩ := FrameSource.read_text_eq_error ht
  refine ⟨fault, hcheck, ?_⟩
  have hread : ∀ s ∈ before.map FrameSource.text, ∃ frame, s.read = .ok frame := by
    intro s hs
    obtain ⟨u, hu, rfl⟩ := List.mem_map.1 hs
    obtain ⟨frame, hframe⟩ := hbefore u hu
    exact ⟨frame, FrameSource.read_text_eq_ok hframe⟩
  unfold assemble
  rw [List.map_append, List.map_cons, mapM_eq_error _ hread hfault]
  rfl

/-- **Frames read as the document of the joined frames.**  Where all frames are accepted, their
registration is that of the frames joined by pipes, heads included; otherwise the first frame that
is not accepted is reported. Texts and bytes always have a text (`toText_text`, `toText_bytes`). -/
theorem assemble_eq_ofText_join {sources : List FrameSource} {texts : List Text}
    (h : List.Forall₂ (fun s t => s.toText = .ok t) sources texts) :
    ((∀ t ∈ texts, Frame.Accepted t) →
      assemble sources = .ok (ofText (Text.join "|" texts))) ∧
    ((¬ ∀ t ∈ texts, Frame.Accepted t) →
      ∃ before t after fault, texts = before ++ t :: after ∧ (∀ u ∈ before, Frame.Accepted u) ∧
        Frame.check t = .error fault ∧ assemble sources = .error (.codec (.frame t fault))) := by
  rw [assemble_eq_of_toText h]
  constructor
  · intro hall
    obtain ⟨frames, hread, hdoc⟩ := exists_frames hall
    unfold assemble
    rw [hread, ← hdoc]
    rfl
  · intro hnot
    obtain ⟨before, t, after, rfl, hbefore, ht⟩ := exists_first hnot
    obtain ⟨fault, hcheck, herror⟩ := assemble_eq_error after hbefore ht
    exact ⟨before, t, after, fault, rfl, hbefore, hcheck, herror⟩

/-- Frames as text and as bytes, one without data and one with blanks around its key; and a batch
whose second frame has no pipe. -/
theorem assemble_eq_ofText_join_mixed :
    (∀ t ∈ (["reg: fields |fields=t,u", "reg:sys|", "reg:states|states=u,v|x=1"] : List Text),
      Frame.Accepted t) ∧
    assemble [.text "reg: fields |fields=t,u",
        .payload (.bytes [0x72, 0x65, 0x67, 0x3a, 0x73, 0x79, 0x73, 0x7c]),
        .text "reg:states|states=u,v|x=1"] =
      .ok (ofText (Text.join "|"
        ["reg: fields |fields=t,u", "reg:sys|", "reg:states|states=u,v|x=1"])) ∧
    (¬ ∀ t ∈ (["reg:sys|", "reg:sys", "none"] : List Text), Frame.Accepted t) ∧
    ∃ before t after fault, (["reg:sys|", "reg:sys", "none"] : List Text) = before ++ t :: after ∧
      (∀ u ∈ before, Frame.Accepted u) ∧ Frame.check t = .error fault ∧
      assemble [.text "reg:sys|", .text "reg:sys", .text "none"] =
        .error (.codec (.frame t fault)) := by
  have haccepted : ∀ t ∈
      (["reg: fields |fields=t,u", "reg:sys|", "reg:states|states=u,v|x=1"] : List Text),
      Frame.Accepted t := by decide
  have hrefused : ¬ ∀ t ∈ (["reg:sys|", "reg:sys", "none"] : List Text), Frame.Accepted t := by
    decide
  refine ⟨haccepted, ?_, hrefused, ?_⟩
  · exact (assemble_eq_ofText_join (.cons rfl (.cons rfl (.cons rfl .nil)))).1 haccepted
  · exact (assemble_eq_ofText_join (.cons rfl (.cons rfl (.cons rfl .nil)))).2 hrefused

end Registration

end FarmLink
