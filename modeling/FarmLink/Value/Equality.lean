import FarmLink.Value.Basic

/-!
# Equality - when two values count as equal

Numbers of any kind are equal when they are the same number, a truth value being zero or one.
Lists are equal item by item; dicts are equal as maps, the order of their entries does not count.
What is not a number equals nothing.
-/

namespace FarmLink.Value

/-- Equality with a number, where one of the two is no double. -/
def sameNumber (v w : Value) : Bool :=
  match v.whole? with
  | some n => w.equals n
  | none => false

mutual

/-- Equality of values. -/
def same : Value → Value → Bool
  | .null, w => w.isNull
  | .text s, w => match w with
    | .text t => s == t
    | _ => false
  | .float x, w => match w with
    | .float y => x.same y
    | _ => sameNumber (.float x) w
  | .list vs, w => match w with
    | .list ws => sameItems vs ws
    | _ => false
  | .dict es, w => match w with
    | .dict fs => es.length == fs.length && sameEntries es fs
    | _ => false
  | .bool b, w => sameNumber (.bool b) w
  | .int n, w => sameNumber (.int n) w

/-- Equality of lists. -/
def sameItems : List Value → List Value → Bool
  | [], ws => ws.isEmpty
  | v :: vs, ws => match ws with
    | w :: ws => same v w && sameItems vs ws
    | [] => false

/-- Whether the entries of a dict stand in another one too. -/
def sameEntries : List (Text × Value) → List (Text × Value) → Bool
  | [], _ => true
  | (k, v) :: es, fs => match Dict.get? fs k with
    | some w => same v w && sameEntries es fs
    | none => false

end

variable {vs ws : List Value} {d e : Dict Value}

@[simp] theorem same_text (s t : Text) : (text s).same (text t) = (s == t) := by
  rw [same]

@[simp] theorem same_int (m n : Int) : (int m).same (int n) = (m == n) := by
  rw [same, Bool.eq_iff_iff, beq_iff_eq]
  change (some n == some m) = true ↔ m = n
  rw [beq_iff_eq, Option.some.injEq]
  exact eq_comm

@[simp] theorem same_float (x y : Double) : (float x).same (float y) = x.same y := by
  rw [same]

@[simp] theorem same_list : (list vs).same (list ws) = sameItems vs ws := by
  rw [same]

@[simp] theorem same_dict :
    (dict d).same (dict e) = (d.length == e.length && sameEntries d e) := by
  rw [same]

end FarmLink.Value
