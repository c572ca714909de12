import FarmLink.Proofs.Text.Digits

/-!
# Bits - numbers as rows of bits

A number of a width is the row of its bits, the highest first. Two such rows in a row are the one of
the number that both make up (`bitsOf_append`), so digits of one width are regrouped into digits of
another one by arithmetic alone. A row tells the number (`bitsOf_injective`), and rows of one width
one after the other tell all of their numbers (`flatMap_injective`).
-/

namespace FarmLink

/-- The low bits of a number, the highest first. -/
def bitsOf : Nat → Nat → List Bool
  | 0, _ => []
  | width + 1, n => n.testBit width :: bitsOf width n

/-- The bits of a byte. -/
def byteBits (b : UInt8) : List Bool := bitsOf 8 b.toNat

theorem length_bitsOf : ∀ width n : Nat, (bitsOf width n).length = width
  | 0, _ => rfl
  | width + 1, n => by rw [bitsOf, List.length_cons, length_bitsOf width]

theorem length_byteBits (b : UInt8) : (byteBits b).length = 8 := length_bitsOf 8 b.toNat

theorem bitsOf_congr {width m n : Nat} (h : ∀ i < width, m.testBit i = n.testBit i) :
    bitsOf width m = bitsOf width n := by
  induction width with
  | zero => rfl
  | succ width ih =>
    rw [bitsOf, bitsOf, h width (Nat.lt_succ_self width),
      ih fun i hi => h i (Nat.lt_succ_of_lt hi)]

/-- Bits above the width do not count. -/
theorem bitsOf_mod (width n : Nat) : bitsOf width (n % 2 ^ width) = bitsOf width n := by
  refine bitsOf_congr fun i hi => ?_
  rw [Nat.testBit_mod_two_pow, decide_eq_true hi, Bool.true_and]

/-- The bits of a multiple of a power of two end with zeros. -/
theorem bitsOf_of_mod_eq_zero {width n : Nat} (h : n % 2 ^ width = 0) :
    ∀ bit ∈ bitsOf width n, bit = false := by
  have hzero : ∀ width, ∀ bit ∈ bitsOf width 0, bit = false := by
    intro width
    induction width with
    | zero => exact List.forall_mem_nil _
    | succ width ih => exact List.forall_mem_cons.2 ⟨Nat.zero_testBit width, ih⟩
  rw [← bitsOf_mod, h]
  exact hzero width

/-- A row of bits is cut into quotient and remainder. -/
theorem bitsOf_add (front back n : Nat) :
    bitsOf (front + back) n = bitsOf front (n / 2 ^ back) ++ bitsOf back n := by
  induction front with
  | zero => rw [Nat.zero_add, bitsOf, List.nil_append]
  | succ front ih =>
    rw [Nat.succ_add, bitsOf, bitsOf, ih, Nat.testBit_div_two_pow, List.cons_append]

/-- **Two rows of bits are those of one number.** -/
theorem bitsOf_append {back n : Nat} (h : n < 2 ^ back) (front m : Nat) :
    bitsOf front m ++ bitsOf back n = bitsOf (front + back) (2 ^ back * m + n) := by
  have hdiv : (2 ^ back * m + n) / 2 ^ back = m := by
    rw [Nat.mul_add_div (Nat.two_pow_pos back), Nat.div_eq_of_lt h, Nat.add_zero]
  have hmod : (2 ^ back * m + n) % 2 ^ back = n := by
    rw [Nat.mul_add_mod, Nat.mod_eq_of_lt h]
  rw [bitsOf_add, hdiv, ← bitsOf_mod back (2 ^ back * m + n), hmod]

theorem testBit_eq_of_bitsOf {width m n : Nat} (h : bitsOf width m = bitsOf width n) :
    ∀ i < width, m.testBit i = n.testBit i := by
  induction width with
  | zero => exact fun i hi => absurd hi (Nat.not_lt_zero i)
  | succ width ih =>
    obtain ⟨htop, hrest⟩ := List.cons.inj h
    intro i hi
    rcases Nat.lt_succ_iff_lt_or_eq.1 hi with hi | rfl
    · exact ih hrest i hi
    · exact htop

/-- **The bits of a number tell it.** -/
theorem bitsOf_injective {width m n : Nat} (hm : m < 2 ^ width) (hn : n < 2 ^ width)
    (h : bitsOf width m = bitsOf width n) : m = n := by
  refine Nat.eq_of_testBit_eq fun i => ?_
  by_cases hi : i < width
  · exact testBit_eq_of_bitsOf h i hi
  · have hle : 2 ^ width ≤ 2 ^ i := Nat.pow_le_pow_right Nat.two_pos (Nat.le_of_not_lt hi)
    rw [Nat.testBit_lt_two_pow (Nat.lt_of_lt_of_le hm hle),
      Nat.testBit_lt_two_pow (Nat.lt_of_lt_of_le hn hle)]

theorem byteBits_injective {b c : UInt8} (h : byteBits b = byteBits c) : b = c :=
  UInt8.toNat_inj.1 (bitsOf_injective b.toNat_lt c.toNat_lt h)

/-! ### Rows one after the other -/

section Rows

variable {α : Type} {width : Nat} {f : α → List Bool} (hwidth : ∀ a, (f a).length = width)

include hwidth

theorem length_flatMap_rows (as : List α) : (as.flatMap f).length = width * as.length := by
  induction as with
  | nil => rfl
  | cons a as ih =>
    rw [List.flatMap_cons, List.length_append, hwidth, ih, List.length_cons, Nat.mul_succ,
      Nat.add_comm]

/-- By induction on the items: the first row ends where the others begin. -/
theorem flatMap_injective : ∀ {as bs : List α}, (∀ a ∈ as, ∀ b ∈ bs, f a = f b → a = b) →
    as.length = bs.length → as.flatMap f = bs.flatMap f → as = bs
  | [], [], _, _, _ => rfl
  | a :: as, b :: bs, hf, hlength, h => by
    rw [List.flatMap_cons, List.flatMap_cons] at h
    obtain ⟨hfirst, hrest⟩ := List.append_inj h ((hwidth a).trans (hwidth b).symm)
    have hlength : as.length = bs.length := Nat.succ.inj hlength
    have hf' : ∀ x ∈ as, ∀ y ∈ bs, f x = f y → x = y := fun x hx y hy =>
      hf x (List.mem_cons_of_mem _ hx) y (List.mem_cons_of_mem _ hy)
    rw [hf a List.mem_cons_self b List.mem_cons_self hfirst, flatMap_injective hf' hlength hrest]

end Rows

/-- **Digits one after the other have the bits of the number that they write.** -/
theorem flatMap_bitsOf {width : Nat} {ns : List Nat} (h : ∀ n ∈ ns, n < 2 ^ width) :
    ns.flatMap (bitsOf width) = bitsOf (width * ns.length) (Text.ofDigits (2 ^ width) ns) := by
  induction ns using List.reverseRecOn with
  | nil => rfl
  | append_singleton ns n ih =>
    have hlast : n < 2 ^ width := h n (List.mem_append_right _ List.mem_cons_self)
    rw [List.flatMap_append, List.flatMap_singleton,
      ih fun m hm => h m (List.mem_append_left _ hm), bitsOf_append hlast, Text.ofDigits_concat,
      List.length_append, List.length_singleton, Nat.mul_succ]

theorem flatMap_byteBits (bs : List UInt8) : bs.flatMap byteBits =
    bitsOf (8 * bs.length) (Text.ofDigits 256 (bs.map UInt8.toNat)) := by
  have hlt : ∀ n ∈ bs.map UInt8.toNat, n < 2 ^ 8 := List.forall_mem_map.2 fun b _ => b.toNat_lt
  have hbits : (bs.map UInt8.toNat).flatMap (bitsOf 8) = bitsOf (8 * (bs.map UInt8.toNat).length)
      (Text.ofDigits 256 (bs.map UInt8.toNat)) := flatMap_bitsOf hlt
  rw [List.flatMap_map, List.length_map] at hbits
  exact hbits

theorem length_flatMap_byteBits (bs : List UInt8) :
    (bs.flatMap byteBits).length = 8 * bs.length :=
  length_flatMap_rows length_byteBits bs

/-- Bytes of a number are known from bits that begin with theirs. -/
theorem eq_of_flatMap_byteBits_prefix {bs cs : List UInt8} {bits : List Bool}
    (hlength : bs.length = cs.length) (hbs : bs.flatMap byteBits <+: bits)
    (hcs : cs.flatMap byteBits <+: bits) : bs = cs := by
  have hbits : (bs.flatMap byteBits).length = (cs.flatMap byteBits).length := by
    rw [length_flatMap_byteBits, length_flatMap_byteBits, hlength]
  have hsame := (List.prefix_of_prefix_length_le hbs hcs (Nat.le_of_eq hbits)).eq_of_length hbits
  exact flatMap_injective length_byteBits (fun b _ c _ => byteBits_injective) hlength hsame

end FarmLink
