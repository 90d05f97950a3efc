/-
# Lib.BitSet -- finite sets of naturals as little-endian byte strings

`toByteArray` writes a finite set of naturals as the shortest byte string that has a bit for each
member, `valueOf` reads it back, as `java.util.BitSet` documents them. `valueOf_toByteArray` is the
round trip and `length_toByteArray` gives the length by the greatest member. -/
import Mathlib.Data.Finset.Range
import Mathlib.Data.Finset.Lattice.Fold
import Mathlib.Order.Lattice.Nat
import Mathlib.Tactic.Common

set_option autoImplicit false

namespace Clb.Lib.BitSet

/-- The byte that holds the members from `8 * k` to `8 * k + 7`. -/
def byteAt (bits : Finset Nat) (k : Nat) : UInt8 :=
  UInt8.ofNat (BitVec.ofBoolListLE ((List.range 8).map fun j => decide (8 * k + j ∈ bits))).toNat

/-- One more than the greatest member. -/
def length (bits : Finset Nat) : Nat := bits.sup (· + 1)

def toByteArray (bits : Finset Nat) : List UInt8 :=
  (List.range ((length bits + 7) / 8)).map (byteAt bits)

def bitAt (bytes : List UInt8) (i : Nat) : Bool :=
  (bytes.getD (i / 8) 0).toBitVec.getLsbD (i % 8)

def valueOf (bytes : List UInt8) : Finset Nat :=
  (Finset.range (8 * bytes.length)).filter fun i => bitAt bytes i = true

theorem lt_length {bits : Finset Nat} {i : Nat} (member : i ∈ bits) : i < length bits :=
  Finset.le_sup (f := (· + 1)) member

theorem length_le_iff {bits : Finset Nat} {n : Nat} : length bits ≤ n ↔ ∀ i ∈ bits, i < n := by
  simp only [length, Finset.sup_le_iff, Nat.succ_le_iff]

theorem getLsbD_byteAt (bits : Finset Nat) (k : Nat) {j : Nat} (small : j < 8) :
    (byteAt bits k).toBitVec.getLsbD j = decide (8 * k + j ∈ bits) := by
  unfold byteAt
  rw [UInt8.toBitVec_ofNat', BitVec.getLsbD_ofNat, BitVec.testBit_toNat, BitVec.getLsbD_ofBoolListLE]
  simp [small]

theorem bitAt_toByteArray (bits : Finset Nat) {i : Nat} (within : i / 8 < (length bits + 7) / 8) :
    bitAt (toByteArray bits) i = decide (i ∈ bits) := by
  have position : 8 * (i / 8) + i % 8 = i := Nat.div_add_mod i 8
  unfold bitAt toByteArray
  rw [List.getD_eq_getElem?_getD, List.getElem?_map, List.getElem?_range within]
  simp only [Option.map_some, Option.getD_some]
  rw [getLsbD_byteAt bits (i / 8) (Nat.mod_lt i (by decide)), position]

/-- Reading back what was written gives the same set. -/
theorem valueOf_toByteArray (bits : Finset Nat) : valueOf (toByteArray bits) = bits := by
  ext i
  simp only [valueOf, Finset.mem_filter, Finset.mem_range]
  constructor
  · rintro ⟨within, set⟩
    rw [bitAt_toByteArray bits] at set
    · simpa using set
    · simp only [toByteArray, List.length_map, List.length_range] at within
      omega
  · intro member
    have below := lt_length member
    refine ⟨?_, ?_⟩
    · simp only [toByteArray, List.length_map, List.length_range]
      omega
    · rw [bitAt_toByteArray bits (by omega)]
      simpa using member

theorem length_toByteArray (bits : Finset Nat) :
    (toByteArray bits).length = (length bits + 7) / 8 := by
  simp [toByteArray]

end Clb.Lib.BitSet
