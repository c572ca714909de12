import FarmLink.Proofs.Binary.Narrowing
import FarmLink.Proofs.Registration.DictForm

/-!
# Hashing - registrations that are the same hash alike

Registrations compare their metadata as maps, but are hashed by a list of them in the order of their
keys. Both tell the same registrations apart (`same_iff_hashed_alike`), since a map has one sorted
list. Fields are compared by kind and attributes, bounds as numbers (`Field.Agrees`); the two zeros
are one number, and they hash alike.
-/

namespace FarmLink

/-! ### Bounds -/

namespace Double

variable {x y : Double}

/-- **Finite doubles are the same exactly if they have the same value.** -/
theorem same_iff_value_eq (hx : x.isFinite = true) (hy : y.isFinite = true) :
    x.same y = true ↔ x.value = y.value := by
  have hnan : ∀ z : Double, z.isFinite = true → z.isNaN = false := fun z hz =>
    decide_eq_false (Nat.lt_asymm (of_decide_eq_true hz))
  unfold same
  rw [hnan x hx, hnan y hy]
  simp only [Bool.not_false, Bool.true_and, Bool.or_eq_true, Bool.and_eq_true, beq_iff_eq]
  constructor
  · rintro (⟨hzero, hzero'⟩ | ⟨hsign, hmagnitude⟩)
    · have hvalue : ∀ z : Double, z.isZero = true → z.value = 0 := by
        intro z hz
        have hmagnitude : z.magnitude = 0 := beq_iff_eq.1 hz
        simp [value, signed, hmagnitude, Format.value]
      rw [hvalue x hzero, hvalue y hzero']
    · rw [value, value, hsign, hmagnitude]
  · intro h
    have hmagnitude : x.magnitude = y.magnitude := by
      have habs := congrArg abs h
      rw [value, value, abs_signed _ (Format.value_nonneg _ _),
        abs_signed _ (Format.value_nonneg _ _)] at habs
      exact Format.double.value_strictMono.injective habs
    cases hzero : x.isZero with
    | true => exact .inl ⟨rfl, by rwa [isZero, ← hmagnitude]⟩
    | false =>
      have hzero' : y.isZero = false := by rwa [isZero, ← hmagnitude]
      exact .inr ⟨by rw [negative_eq_decide hzero, negative_eq_decide hzero', h], hmagnitude⟩

/-- What hashes a number does not tell the zeros apart. -/
theorem hashDouble_of_same (h : x.same y = true) : hashDouble x = hashDouble y := by
  unfold same at h
  simp only [Bool.and_eq_true, Bool.or_eq_true, beq_iff_eq] at h
  rcases h with ⟨-, ⟨hzero, hzero'⟩ | ⟨hsign, hmagnitude⟩⟩
  · have hhash : ∀ z : Double, z.isZero = true → hashDouble z = 0 := by
      intro z hz
      have hunits : z.units = 0 := by
        rw [units, beq_iff_eq.1 hz]
        rfl
      unfold hashDouble
      rw [hunits, Nat.zero_mul, Nat.zero_mod]
      cases z.negative <;> rfl
    rw [hhash x hzero, hhash y hzero']
  · unfold hashDouble units
    rw [hsign, hmagnitude]

end Double

theorem sameBound_iff {b c : Option Double} (hb : ∀ x ∈ b.toList, x.isFinite = true)
    (hc : ∀ x ∈ c.toList, x.isFinite = true) :
    sameBound b c = true ↔ Option.Rel (fun x y : Double => x.value = y.value) b c := by
  rcases b with - | x
  · rcases c with - | y
    · exact iff_of_true rfl .none
    · exact iff_of_false Bool.false_ne_true nofun
  · rcases c with - | y
    · exact iff_of_false Bool.false_ne_true nofun
    · rw [rel_some_iff]
      exact Double.same_iff_value_eq (hb x (Option.mem_toList.2 rfl))
        (hc y (Option.mem_toList.2 rfl))

theorem map_hashDouble_of_sameBound {b c : Option Double} (h : sameBound b c = true) :
    b.map hashDouble = c.map hashDouble := by
  rcases b with - | x
  · rcases c with - | y
    · rfl
    · cases h
  · rcases c with - | y
    · cases h
    · rw [Option.map_some, Option.map_some, Double.hashDouble_of_same h]

/-! ### Channels -/

namespace Field

/-- Channels of one kind that agree in every attribute, in bounds as in numbers. -/
inductive Agrees : Field → Field → Prop
  | continuous {f g : ContinuousField} (key : f.key = g.key) (name : f.name = g.name)
      (unit : f.unit = g.unit)
      (minValue : Option.Rel (fun x y : Double => x.value = y.value) f.minValue g.minValue)
      (maxValue : Option.Rel (fun x y : Double => x.value = y.value) f.maxValue g.maxValue)
      (stateClass : f.stateClass = g.stateClass) : Agrees (.continuous f) (.continuous g)
  | enumerated {f g : EnumeratedField} (key : f.key = g.key) (name : f.name = g.name)
      (values : f.values = g.values) : Agrees (.enumerated f) (.enumerated g)

variable {f g : Field} {fs gs : List Field}

/-- **Channels with finite bounds are the same exactly if they agree.** -/
theorem same_iff_agrees (hf : ∀ x ∈ f.bounds, x.isFinite = true)
    (hg : ∀ x ∈ g.bounds, x.isFinite = true) : f.same g = true ↔ Agrees f g := by
  cases f with
  | continuous f =>
    cases g with
    | continuous g =>
      have hmin := sameBound_iff (fun x hx => hf x (List.mem_append_left _ hx)) fun x hx =>
        hg x (List.mem_append_left _ hx)
      have hmax := sameBound_iff (fun x hx => hf x (List.mem_append_right _ hx)) fun x hx =>
        hg x (List.mem_append_right _ hx)
      simp only [same, Bool.and_eq_true, beq_iff_eq, hmin, hmax]
      constructor
      · rintro ⟨⟨⟨⟨⟨hkey, hname⟩, hunit⟩, hmin⟩, hmax⟩, hclass⟩
        exact .continuous hkey hname hunit hmin hmax hclass
      · rintro ⟨hkey, hname, hunit, hmin, hmax, hclass⟩
        exact ⟨⟨⟨⟨⟨hkey, hname⟩, hunit⟩, hmin⟩, hmax⟩, hclass⟩
    | enumerated g => exact iff_of_false Bool.false_ne_true fun h => by cases h
  | enumerated f =>
    cases g with
    | continuous g => exact iff_of_false Bool.false_ne_true fun h => by cases h
    | enumerated g =>
      obtain ⟨key, name, values⟩ := f
      obtain ⟨key', name', values'⟩ := g
      simp only [same, beq_iff_eq, EnumeratedField.mk.injEq]
      constructor
      · rintro ⟨hkey, hname, hvalues⟩
        exact .enumerated hkey hname hvalues
      · intro h
        cases h with
        | enumerated hkey hname hvalues => exact ⟨hkey, hname, hvalues⟩

theorem sameAll_iff (hf : ∀ f ∈ fs, ∀ x ∈ f.bounds, x.isFinite = true)
    (hg : ∀ g ∈ gs, ∀ x ∈ g.bounds, x.isFinite = true) :
    sameAll fs gs = true ↔ List.Forall₂ Agrees fs gs := by
  induction fs generalizing gs with
  | nil =>
    cases gs with
    | nil => exact iff_of_true rfl .nil
    | cons g gs => exact iff_of_false Bool.false_ne_true nofun
  | cons f fs ih =>
    cases gs with
    | nil => exact iff_of_false Bool.false_ne_true nofun
    | cons g gs =>
      obtain ⟨hf, hfs⟩ := List.forall_mem_cons.1 hf
      obtain ⟨hg, hgs⟩ := List.forall_mem_cons.1 hg
      rw [sameAll, Bool.and_eq_true, same_iff_agrees hf hg, ih hfs hgs, List.forall₂_cons]

/-- What is the same hashes alike, channel by channel. -/
theorem digest_of_same (h : f.same g = true) : f.digest = g.digest := by
  cases f with
  | continuous f =>
    cases g with
    | continuous g =>
      simp only [same, Bool.and_eq_true, beq_iff_eq] at h
      obtain ⟨⟨⟨⟨⟨hkey, hname⟩, hunit⟩, hmin⟩, hmax⟩, hclass⟩ := h
      simp only [digest, hkey, hname, hunit, hclass, map_hashDouble_of_sameBound hmin,
        map_hashDouble_of_sameBound hmax]
    | enumerated g => cases h
  | enumerated f =>
    cases g with
    | continuous g => cases h
    | enumerated g =>
      rw [eq_of_beq (show (f == g) = true from h)]

theorem map_digest_of_sameAll (h : sameAll fs gs = true) : fs.map digest = gs.map digest := by
  induction fs generalizing gs with
  | nil =>
    cases gs with
    | nil => rfl
    | cons g gs => cases h
  | cons f fs ih =>
    cases gs with
    | nil => cases h
    | cons g gs =>
      rw [sameAll, Bool.and_eq_true] at h
      rw [List.map_cons, List.map_cons, digest_of_same h.1, ih h.2]

end Field

/-! ### Registrations -/

namespace Registration

/-- Metadata are the same exactly if every name has the same text in both, or none. -/
theorem sameMetadata_iff {a b : Dict Text} (ha : a.keys.Nodup) (hb : b.keys.Nodup) :
    sameMetadata a b = true ↔ ∀ name, a.get? name = b.get? name := by
  rw [← same_mapValues_text, Value.same_dict_iff (by rwa [Dict.keys_mapValues])
    (by rwa [Dict.keys_mapValues])]
  simp only [Dict.get?_mapValues, Value.rel_map_text_iff]

/-- **Registrations are the same exactly if they are hashed by the same.**  Two documents make the
same registration exactly if their fields agree one by one, their commands are equal, and each name
has the same metadata in both; and exactly if their fields agree, their commands are equal, and the
lists of their metadata by name are equal. So what is the same hashes alike, and the order in which
metadata arrived does not show in the hash. -/
theorem same_iff_hashed_alike (a b : Text) :
    ((ofText a).same (ofText b) = true ↔
      List.Forall₂ Field.Agrees (ofText a).fields (ofText b).fields ∧
        (ofText a).commands = (ofText b).commands ∧
        ∀ name, (ofText a).metadata.get? name = (ofText b).metadata.get? name) ∧
    ((ofText a).same (ofText b) = true ↔
      List.Forall₂ Field.Agrees (ofText a).canonical.fields (ofText b).canonical.fields ∧
        (ofText a).canonical.commands = (ofText b).canonical.commands ∧
        (ofText a).canonical.metadata = (ofText b).canonical.metadata) ∧
    ((ofText a).same (ofText b) = true → (ofText a).digest = (ofText b).digest) ∧
    ∀ arrived : Dict Text, arrived.Perm (ofText a).metadata →
      ({ ofText a with metadata := arrived } : Registration).digest = (ofText a).digest := by
  have hfinite : ∀ t, ∀ f ∈ (ofText t).fields, ∀ x ∈ f.bounds, x.isFinite = true :=
    fun _ _ => Field.isFinite_of_mem_bounds
  have hkeys : ∀ t, (ofText t).metadata.keys.Nodup := fun t => (isWellFormed_ofText t).names_nodup
  have hsorted := Dict.sorted_eq_iff (hkeys a) (hkeys b)
  have hsame : (ofText a).same (ofText b) = true ↔
      List.Forall₂ Field.Agrees (ofText a).fields (ofText b).fields ∧
        (ofText a).commands = (ofText b).commands ∧
        ∀ name, (ofText a).metadata.get? name = (ofText b).metadata.get? name := by
    unfold same
    rw [Bool.and_eq_true, Bool.and_eq_true, beq_iff_eq, and_assoc,
      Field.sameAll_iff (hfinite a) (hfinite b), sameMetadata_iff (hkeys a) (hkeys b)]
  refine ⟨hsame, ?_, fun h => ?_, fun arrived harrived => ?_⟩
  · rw [hsame, ← hsorted]
    rfl
  · obtain ⟨-, hcommands, hmetadata⟩ := hsame.1 h
    unfold same at h
    rw [Bool.and_eq_true, Bool.and_eq_true] at h
    unfold digest canonical
    rw [Field.map_digest_of_sameAll h.1.1, hcommands, hsorted.2 hmetadata]
  · unfold digest canonical
    rw [← Dict.sorted_eq_of_perm (hkeys a) harrived.symm]

/-- Metadata in another order, one of them given twice, and a bound that is the other zero. -/
theorem same_iff_hashed_alike_zeros :
    (ofText "x=1|fields=t:::0:5|y=2").same (ofText "y=1|fields=t:::-0:5|x=1|y=2") = true ∧
    (ofText "x=1|fields=t:::0:5|y=2").canonical.metadata =
      (ofText "y=1|fields=t:::-0:5|x=1|y=2").canonical.metadata ∧
    (ofText "x=1|fields=t:::0:5|y=2").digest = (ofText "y=1|fields=t:::-0:5|x=1|y=2").digest ∧
    ({ ofText "x=1|fields=t:::0:5|y=2" with metadata := [("y", "2"), ("x", "1")] } :
      Registration).digest = (ofText "x=1|fields=t:::0:5|y=2").digest := by
  have hsame : (ofText "x=1|fields=t:::0:5|y=2").same
      (ofText "y=1|fields=t:::-0:5|x=1|y=2") = true := by
    decide +kernel
  have hmetadata : (ofText "x=1|fields=t:::0:5|y=2").metadata =
      ([("x", "1"), ("y", "2")] : Dict Text) := by
    decide +kernel
  obtain ⟨-, hcanonical, hdigest, harrived⟩ :=
    same_iff_hashed_alike "x=1|fields=t:::0:5|y=2" "y=1|fields=t:::-0:5|x=1|y=2"
  refine ⟨hsame, (hcanonical.1 hsame).2.2, hdigest hsame, harrived _ ?_⟩
  rw [hmetadata]
  exact List.Perm.swap _ _ _

end Registration

end FarmLink
