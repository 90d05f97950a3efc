/-
# Lib.Pieces -- a list cut into pieces of one size

`piece size i xs` is the part of `xs` from `i * size` to `(i + 1) * size`, shorter at the end of the
list, and `pieceCount` is the number of pieces. The pieces in order make up the list
(`flatten_pieces`), each has the length `pieceLength` gives it (`length_piece`), and these lengths
add up to the whole (`sum_pieceLength`). -/
import Mathlib.Algebra.BigOperators.Group.List.Basic
import Mathlib.Algebra.GroupWithZero.Nat
import Mathlib.Tactic.Common

set_option autoImplicit false

namespace Clb.Lib

variable {α : Type}

def piece (size i : Nat) (xs : List α) : List α := (xs.drop (i * size)).take size

/-- The number of pieces of `size` elements that hold `total` elements. -/
def pieceCount (total size : Nat) : Nat := (total + size - 1) / size

/-- The length of piece `i` of `total` elements. -/
def pieceLength (total size i : Nat) : Nat := min size (total - i * size)

def pieces (size : Nat) (xs : List α) : List (List α) :=
  (List.range (pieceCount xs.length size)).map fun i => piece size i xs

theorem length_piece (size i : Nat) (xs : List α) :
    (piece size i xs).length = pieceLength xs.length size i := by
  simp [piece, pieceLength]

theorem total_le_pieceCount_mul (total : Nat) {size : Nat} (positive : 0 < size) :
    total ≤ pieceCount total size * size := by
  have high := Nat.lt_div_mul_add (a := total + size - 1) positive
  unfold pieceCount
  omega

theorem lt_pieceCount_iff {total size i : Nat} (positive : 0 < size) :
    i < pieceCount total size ↔ i * size < total := by
  unfold pieceCount
  rw [← Nat.succ_le_iff, Nat.le_div_iff_mul_le positive, Nat.succ_mul]
  omega

theorem pieceLength_pos {total size i : Nat} (positive : 0 < size) (within : i < pieceCount total size) :
    0 < pieceLength total size i := by
  have := (lt_pieceCount_iff positive).mp within
  unfold pieceLength
  omega

theorem pieceCount_pos {total size : Nat} (positive : 0 < size) (nonempty : 0 < total) :
    0 < pieceCount total size :=
  (lt_pieceCount_iff positive).mpr (by omega)

theorem flatten_range_piece (size n : Nat) (xs : List α) :
    ((List.range n).map fun i => piece size i xs).flatten = xs.take (n * size) := by
  induction n with
  | zero => simp
  | succ n ih =>
    rw [List.range_succ, List.map_append, List.flatten_append, ih, Nat.succ_mul, List.take_add]
    simp [piece]

/-- The pieces in order make up the list. -/
theorem flatten_pieces {size : Nat} (positive : 0 < size) (xs : List α) :
    (pieces size xs).flatten = xs := by
  unfold pieces
  rw [flatten_range_piece, List.take_of_length_le (total_le_pieceCount_mul xs.length positive)]

/-- The lengths of the pieces add up to the whole. -/
theorem sum_pieceLength (total : Nat) {size : Nat} (positive : 0 < size) :
    ((List.range (pieceCount total size)).map fun i => pieceLength total size i).sum = total := by
  have whole := congrArg List.length (flatten_pieces positive (List.replicate total ()))
  rw [List.length_flatten, pieces, List.map_map] at whole
  simpa [Function.comp_def, length_piece] using whole

end Clb.Lib
