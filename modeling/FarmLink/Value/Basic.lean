import FarmLink.Binary.Double
import FarmLink.Dict

/-!
# Value - data of any shape

Decoded frames, server commands and port tables are made of the same values: nothing, truth
values, whole numbers of any size, doubles, texts, lists, and dicts in entry order. Truth values
count as the numbers zero and one, and a double equals a whole number when their values agree.
-/

namespace FarmLink

/-- Data of any shape. -/
inductive Value
  | null
  | bool (b : Bool)
  | int (n : Int)
  | float (x : Double)
  | text (t : Text)
  | list (items : List Value)
  | dict (entries : List (Text × Value))

namespace Value

instance : Inhabited Value := ⟨null⟩

mutual

/-- Whether two values are the same one, kinds included. -/
def isSame : Value → Value → Bool
  | .null, .null => true
  | .bool a, .bool b => a == b
  | .int m, .int n => m == n
  | .float x, .float y => x == y
  | .text s, .text t => s == t
  | .list vs, .list ws => areSame vs ws
  | .dict es, .dict fs => areSameEntries es fs
  | _, _ => false

/-- Whether two lists hold the same values. -/
def areSame : List Value → List Value → Bool
  | [], [] => true
  | v :: vs, w :: ws => isSame v w && areSame vs ws
  | _, _ => false

/-- Whether two dicts have the same entries in the same order. -/
def areSameEntries : List (Text × Value) → List (Text × Value) → Bool
  | [], [] => true
  | (k, v) :: es, (l, w) :: fs => k == l && isSame v w && areSameEntries es fs
  | _, _ => false

end

mutual

theorem eq_of_isSame {v w : Value} (h : isSame v w = true) : v = w := by
  cases v <;> cases w <;> simp only [isSame, beq_iff_eq, Bool.false_eq_true] at h <;>
    first
    | rfl
    | exact congrArg _ h
    | exact congrArg _ (eq_of_areSame h)
    | exact congrArg _ (eq_of_areSameEntries h)

theorem eq_of_areSame {vs ws : List Value} (h : areSame vs ws = true) : vs = ws := by
  match vs, ws with
  | [], [] => rfl
  | v :: vs, w :: ws =>
    simp only [areSame, Bool.and_eq_true] at h
    rw [eq_of_isSame h.1, eq_of_areSame h.2]

theorem eq_of_areSameEntries {es fs : List (Text × Value)} (h : areSameEntries es fs = true) :
    es = fs := by
  match es, fs with
  | [], [] => rfl
  | (k, v) :: es, (l, w) :: fs =>
    simp only [areSameEntries, Bool.and_eq_true, beq_iff_eq] at h
    rw [h.1.1, eq_of_isSame h.1.2, eq_of_areSameEntries h.2]

end

mutual

theorem isSame_self : ∀ v : Value, isSame v v = true
  | .null => rfl
  | .bool _ | .int _ | .float _ | .text _ => by simp [isSame]
  | .list vs => by rw [isSame, areSame_self vs]
  | .dict es => by rw [isSame, areSameEntries_self es]

theorem areSame_self : ∀ vs : List Value, areSame vs vs = true
  | [] => rfl
  | v :: vs => by simp [areSame, isSame_self v, areSame_self vs]

theorem areSameEntries_self : ∀ es : List (Text × Value), areSameEntries es es = true
  | [] => rfl
  | (_, v) :: es => by simp [areSameEntries, isSame_self v, areSameEntries_self es]

end

instance : DecidableEq Value := fun v w =>
  decidable_of_iff (isSame v w = true) ⟨eq_of_isSame, fun h => h ▸ isSame_self v⟩

/-- Whether a value says yes: a number other than zero, or something that is not empty. -/
def isTruthy : Value → Bool
  | null => false
  | bool b => b
  | int n => n != 0
  | float x => !x.isZero
  | text t => !t.isEmpty
  | list items => !items.isEmpty
  | dict entries => !entries.isEmpty

/-- A value that says yes, or another one in its place. -/
def orElse (v other : Value) : Value := if v.isTruthy then v else other

def isNull : Value → Bool
  | null => true
  | _ => false

theorem isNull_iff {v : Value} : v.isNull = true ↔ v = null := by
  cases v <;> simp [isNull]

/-- Neither nothing nor the empty text. -/
def isPresent : Value → Bool
  | null => false
  | text t => !t.isEmpty
  | _ => true

/-- The whole number that a value equals. -/
def whole? : Value → Option Int
  | bool b => some (if b then 1 else 0)
  | int n => some n
  | float x => x.toInt?
  | _ => none

/-- Whether a value equals a whole number. -/
def equals (v : Value) (n : Int) : Bool := v.whole? == some n

/-- Whether all whole numbers in a value satisfy a condition. -/
def allInts (p : Int → Bool) : Value → Bool
  | int n => p n
  | list items => inItems items
  | dict entries => inEntries entries
  | _ => true
where
  inItems : List Value → Bool
    | [] => true
    | v :: vs => v.allInts p && inItems vs
  inEntries : List (Text × Value) → Bool
    | [] => true
    | (_, v) :: es => v.allInts p && inEntries es

end Value

/-- The value of a key, nothing where there is none. -/
def Dict.value (d : Dict Value) (key : Text) : Value := (d.get? key).getD .null

end FarmLink
