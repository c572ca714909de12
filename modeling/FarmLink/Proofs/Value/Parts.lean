import FarmLink.Proofs.Dict.Order
import FarmLink.Value.Basic

/-!
# Parts - what stands in a value

Lists and dicts hold values that hold values in turn. What holds of all parts of a value holds of
all parts of what stands in it, so a proof that follows the value takes such a condition along.
-/

namespace FarmLink.Value

/-- A value is another one, or stands in one of its items or entries. -/
inductive StandsIn (w : Value) : Value → Prop
  | self : StandsIn w w
  | item {items : List Value} {v : Value} (hv : v ∈ items) (h : StandsIn w v) :
      StandsIn w (.list items)
  | entry {entries : Dict Value} {e : Text × Value} (he : e ∈ entries) (h : StandsIn w e.2) :
      StandsIn w (.dict entries)

theorem StandsIn.trans {u v w : Value} (huv : u.StandsIn v) (hvw : v.StandsIn w) :
    u.StandsIn w := by
  induction hvw with
  | self => exact huv
  | item hv _ ih => exact .item hv ih
  | entry he _ ih => exact .entry he ih

/-- What a dict holds under a key stands in it. -/
theorem standsIn_value {entries : Dict Value} {key : Text} (h : entries.value key ≠ .null) :
    (entries.value key).StandsIn (.dict entries) := by
  unfold Dict.value at h ⊢
  cases hfound : entries.get? key with
  | none =>
    rw [hfound] at h
    exact absurd rfl h
  | some v => exact .entry (Dict.mem_of_get? hfound) .self

/-- All doubles in a value are finite. -/
def HasFiniteFloats (v : Value) : Prop := ∀ x : Double, (float x).StandsIn v → x.isFinite = true

theorem HasFiniteFloats.item {items : List Value} (h : (list items).HasFiniteFloats) :
    ∀ v ∈ items, v.HasFiniteFloats := fun _ hv _ hx => h _ (.item hv hx)

theorem HasFiniteFloats.entry {entries : Dict Value} (h : (dict entries).HasFiniteFloats) :
    ∀ e ∈ entries, e.2.HasFiniteFloats := fun _ he _ hx => h _ (.entry he hx)

theorem hasFiniteFloats_text (t : Text) : (text t).HasFiniteFloats := by
  rintro x ⟨⟩

theorem hasFiniteFloats_list {items : List Value} (h : ∀ v ∈ items, v.HasFiniteFloats) :
    (list items).HasFiniteFloats := by
  intro x hx
  cases hx with
  | item hv hx => exact h _ hv x hx

theorem hasFiniteFloats_dict {entries : Dict Value} (h : ∀ e ∈ entries, e.2.HasFiniteFloats) :
    (dict entries).HasFiniteFloats := by
  intro x hx
  cases hx with
  | entry he hx => exact h _ he x hx

end FarmLink.Value
