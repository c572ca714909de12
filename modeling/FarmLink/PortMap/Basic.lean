import FarmLink.Failure
import FarmLink.Uplink.Decoder

/-!
# PortMap - which decoder reads the frames of which port

A port map holds at most one definition per port, in the order of the ports, so two maps with the
same definitions are the same map: `pairwise_insertDef` says that a new port keeps this order, and
`find?_of_mem` that each definition is found under its port. Ports are looked up by any value:
truth values and doubles find the port that they equal.
-/

namespace FarmLink

/-- The first and the last port open to applications. -/
def PortDef.firstPort : Nat := 1

def PortDef.lastPort : Nat := 223

/-- A port open to applications, and what reads its frames. -/
structure PortDef where
  port : Nat
  decoder : Decoder
  description : Option Text := none
  port_mem : PortDef.firstPort ≤ port ∧ port ≤ PortDef.lastPort := by decide
deriving DecidableEq, Repr

/-- The definitions of the ports in use, by increasing port. -/
structure PortMap where
  defs : List PortDef := []
  sorted : defs.Pairwise (fun a b => a.port < b.port) := by decide
deriving DecidableEq, Repr

namespace PortMap

/-- The definition of a port. -/
def find? (m : PortMap) (port : Int) : Option PortDef := m.defs.find? fun d => (d.port : Int) == port

theorem port_ne_of_find?_eq_none {m : PortMap} {port : Nat} (h : m.find? port = none) :
    ∀ e ∈ m.defs, e.port ≠ port := by
  intro e he hp
  have h := List.find?_eq_none.1 h e he
  simp [hp] at h

/-- **Each definition is found under its port.** -/
theorem find?_of_mem {m : PortMap} {d : PortDef} (h : d ∈ m.defs) : m.find? d.port = some d := by
  obtain ⟨defs, sorted⟩ := m
  simp only [find?] at h ⊢
  induction defs with
  | nil => simp at h
  | cons e es ih =>
    rw [List.pairwise_cons] at sorted
    rcases List.mem_cons.1 h with rfl | h
    · simp
    · have hp := sorted.1 d h
      have hn : ¬ (e.port : Int) = d.port := by omega
      simp [hn, ih sorted.2 h]

/-- A definition at its place among others. -/
def insertDef (d : PortDef) : List PortDef → List PortDef
  | [] => [d]
  | e :: es => if d.port < e.port then d :: e :: es else e :: insertDef d es

theorem mem_insertDef {d e : PortDef} {es : List PortDef} :
    e ∈ insertDef d es ↔ e = d ∨ e ∈ es := by
  induction es with
  | nil => simp [insertDef]
  | cons f es ih =>
    simp only [insertDef]
    split
    · simp
    · simp only [List.mem_cons, ih]
      exact ⟨fun h => h.elim (.inr ∘ .inl) (·.imp_right .inr),
        fun h => h.elim (.inr ∘ .inl) (·.imp_right .inr)⟩

/-- A new port keeps the ports in increasing order. -/
theorem pairwise_insertDef {d : PortDef} {es : List PortDef}
    (sorted : es.Pairwise fun a b => a.port < b.port) (new : ∀ e ∈ es, e.port ≠ d.port) :
    (insertDef d es).Pairwise fun a b => a.port < b.port := by
  induction es with
  | nil => simp [insertDef]
  | cons f es ih =>
    rw [List.pairwise_cons] at sorted
    have hf := new f (by simp)
    simp only [insertDef]
    split
    · next hd =>
      refine List.pairwise_cons.2 ⟨fun e he => ?_, List.pairwise_cons.2 sorted⟩
      rcases List.mem_cons.1 he with rfl | he
      · exact hd
      · exact Nat.lt_trans hd (sorted.1 e he)
    · refine List.pairwise_cons.2 ⟨fun e he => ?_, ih sorted.2 fun e he => new e (by simp [he])⟩
      rcases mem_insertDef.1 he with rfl | he
      · omega
      · exact sorted.1 e he

/-- A map with the definition of one more port. -/
def insert (m : PortMap) (d : PortDef) (new : m.find? d.port = none) : PortMap where
  defs := insertDef d m.defs
  sorted := pairwise_insertDef m.sorted (port_ne_of_find?_eq_none new)

/-- The definition that a value finds. -/
def lookupKey (m : PortMap) (port : Value) : Except Mismatch (Option PortDef) := do
  let key ← port.key
  return key.bind m.find?

/-- The definition of a port, or that there is none. -/
def lookup (m : PortMap) (port : Value) : Except Failure PortDef :=
  match m.lookupKey port with
  | .error e => .error (.mismatch e)
  | .ok (some d) => .ok d
  | .ok none => .error (CodecError.unknownPort port).failure

/-- Whether a port has a definition. -/
def contains (m : PortMap) (port : Value) : Except Mismatch Bool := do
  let found ← m.lookupKey port
  return found.isSome

/-- The number of definitions. -/
def size (m : PortMap) : Nat := m.defs.length

end PortMap

/-- The dict form of a definition. -/
def PortDef.toDict (d : PortDef) : Dict Value :=
  [("port", .int d.port), ("decoder", .text d.decoder.name),
    ("description", .ofText? d.description)]

end FarmLink
