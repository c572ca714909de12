/-!
# Words - whole numbers as bytes

Fixed-width numbers in frames, least significant byte first unless said otherwise.
-/

namespace FarmLink

/-- How many numbers a number of bytes can hold. -/
def byteRange (width : Nat) : Nat := Nat.pow 256 width

/-- The lowest `width` bytes of a number, least significant first. -/
def littleEndian : Nat → Nat → List UInt8
  | 0, _ => []
  | width + 1, n => UInt8.ofNat n :: littleEndian width (n / 256)

/-- The lowest `width` bytes of a number, most significant first. -/
def bigEndian (width n : Nat) : List UInt8 := (littleEndian width n).reverse

/-- The number whose bytes, least significant first, are given. -/
def ofLittleEndian : List UInt8 → Nat
  | [] => 0
  | b :: r => b.toNat + 256 * ofLittleEndian r

theorem length_littleEndian : ∀ width n : Nat, (littleEndian width n).length = width
  | 0, _ => rfl
  | width + 1, n => by rw [littleEndian, List.length_cons, length_littleEndian width]

/-- Bytes hold a number modulo the size of their width. -/
theorem ofLittleEndian_littleEndian :
    ∀ width n : Nat, ofLittleEndian (littleEndian width n) = n % byteRange width
  | 0, n => by simp [littleEndian, ofLittleEndian, byteRange, Nat.mod_one]
  | width + 1, n => by
    have h : byteRange (width + 1) = 256 * byteRange width := Nat.mul_comm ..
    rw [littleEndian, ofLittleEndian, ofLittleEndian_littleEndian width, h, Nat.mod_mul,
      UInt8.toNat_ofNat']

theorem littleEndian_ofLittleEndian :
    ∀ bs : List UInt8, littleEndian bs.length (ofLittleEndian bs) = bs
  | [] => rfl
  | b :: r => by
    have hb := b.toNat_lt
    rw [List.length_cons, littleEndian, ofLittleEndian]
    have h1 : (b.toNat + 256 * ofLittleEndian r) / 256 = ofLittleEndian r := by omega
    have h2 : UInt8.ofNat (b.toNat + 256 * ofLittleEndian r) = b := by
      apply UInt8.toNat_inj.1
      rw [UInt8.toNat_ofNat']
      omega
    rw [h1, h2, littleEndian_ofLittleEndian r]

theorem ofLittleEndian_lt : ∀ bs : List UInt8, ofLittleEndian bs < byteRange bs.length
  | [] => Nat.one_pos
  | b :: r => by
    have hb := b.toNat_lt
    have hr := ofLittleEndian_lt r
    have hstep : byteRange (b :: r).length = 256 * byteRange r.length := Nat.mul_comm ..
    rw [ofLittleEndian, hstep]
    omega

/-- A single byte is its own only byte. -/
theorem littleEndian_toNat (b : UInt8) : littleEndian 1 b.toNat = [b] := by
  rw [littleEndian, littleEndian, UInt8.ofNat_toNat]

end FarmLink
