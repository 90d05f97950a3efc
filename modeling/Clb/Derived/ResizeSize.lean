/-
# Derived.ResizeSize -- the size a picture is scaled to

`SizePair.getResizePair` multiplies in `int` before it divides. `getResizePair_scaled_iff` says for
which sizes the result is what it should be: the product must not overflow, and it must not be
smaller than the divisor. An overflow is never hidden by the division (`tdiv_bmod_eq_iff`). -/
import Clb.Derived.Pool
import Clb.Document.Decimal

set_option autoImplicit false

namespace Clb

/-- A positive `int`. -/
abbrev Dimension := {n : Int // 1 ≤ n ∧ IsInt n}

namespace SizePair

/-- The dimension that the resize type names. -/
def chosen (size : SizePair) (useWidth : Bool) : Int := if useWidth then size.width else size.height

def other (size : SizePair) (useWidth : Bool) : Int := if useWidth then size.height else size.width

/-- What the size for a resize point should be, and that it is computed without overflow. -/
structure Scaled (size : SizePair) (point : Int) (useWidth : Bool) (dst : SizePair) : Prop where
  noOverflow : point ≤ size.chosen useWidth → IsInt (point * size.other useWidth)
  width : 1 ≤ dst.width ∧ dst.width ≤ size.width
  height : 1 ≤ dst.height ∧ dst.height ≤ size.height
  chosen : dst.chosen useWidth = min point (size.chosen useWidth)
  other : dst.other useWidth = size.other useWidth * dst.chosen useWidth / size.chosen useWidth

end SizePair

/-- **The quotient of the `int` product is the exact one if and only if the product fits.** -/
theorem tdiv_bmod_eq_iff {n c : Int} (nonneg : 0 ≤ n) (positive : 0 < c) (fits : c < 2 ^ 31) :
    (n.bmod (2 ^ 32)).tdiv c = n / c ↔ n < 2 ^ 31 := by
  constructor
  · intro same
    by_contra large
    have quotient : 1 ≤ n / c := by
      rw [Int.le_ediv_iff_mul_le positive]
      omega
    rcases Int.lt_or_le (n.bmod (2 ^ 32)) 0 with negative | nonneg'
    · have opposite := Int.tdiv_nonneg (Int.neg_nonneg_of_nonpos negative.le) positive.le
      rw [Int.neg_tdiv] at opposite
      omega
    · have behind : n.bmod (2 ^ 32) + c ≤ n := by
        simp only [Int.bmod] at nonneg' ⊢
        split at nonneg' <;> split <;> omega
      have smaller : n.bmod (2 ^ 32) / c + 1 ≤ n / c := by
        rw [← Int.add_mul_ediv_right _ 1 positive.ne', Int.one_mul]
        exact Int.ediv_le_ediv positive behind
      rw [Int.tdiv_eq_ediv_of_nonneg nonneg'] at same
      omega
  · intro small
    rw [Int.bmod_eq_of_le (by omega) (by omega), Int.tdiv_eq_ediv_of_nonneg nonneg]

namespace SizePair

variable {size : SizePair} {point : Int} {useWidth : Bool}

theorem getResizePair_small (small : size.chosen useWidth < point) :
    size.getResizePair point useWidth = size := by
  unfold getResizePair chosen at *
  cases useWidth with
  | true => exact if_pos small
  | false => exact if_pos small

theorem getResizePair_large (large : point ≤ size.chosen useWidth) :
    (size.getResizePair point useWidth).chosen useWidth = point ∧
      (size.getResizePair point useWidth).other useWidth =
        ((point * size.other useWidth).bmod (2 ^ 32)).tdiv (size.chosen useWidth) := by
  have notSmall := Int.not_lt.mpr large
  unfold getResizePair chosen other at *
  cases useWidth with
  | true =>
    simp only [if_true] at notSmall ⊢
    rw [if_neg notSmall]
    exact ⟨rfl, rfl⟩
  | false =>
    simp only [Bool.false_eq_true, if_false] at notSmall ⊢
    rw [if_neg notSmall]
    exact ⟨rfl, rfl⟩

theorem bounds_iff {dst : SizePair} (useWidth : Bool) :
    (1 ≤ dst.width ∧ dst.width ≤ size.width) ∧ (1 ≤ dst.height ∧ dst.height ≤ size.height) ↔
      (1 ≤ dst.chosen useWidth ∧ dst.chosen useWidth ≤ size.chosen useWidth) ∧
        (1 ≤ dst.other useWidth ∧ dst.other useWidth ≤ size.other useWidth) := by
  cases useWidth with
  | true => exact Iff.rfl
  | false => exact and_comm

theorem scaled_iff (chosenPos : 1 ≤ size.chosen useWidth) (chosenFits : size.chosen useWidth < 2 ^ 31)
    (otherPos : 1 ≤ size.other useWidth) (pointPos : 1 ≤ point) :
    Scaled size point useWidth (size.getResizePair point useWidth) ↔
      (point ≤ size.chosen useWidth → point * size.other useWidth < 2 ^ 31 ∧
        size.chosen useWidth ≤ point * size.other useWidth) := by
  by_cases small : size.chosen useWidth < point
  · refine iff_of_true ?_ fun large => absurd small (Int.not_lt.mpr large)
    rw [getResizePair_small small]
    obtain ⟨width, height⟩ := (@bounds_iff size size useWidth).mpr
      ⟨⟨chosenPos, le_rfl⟩, ⟨otherPos, le_rfl⟩⟩
    refine ⟨fun large => absurd small (Int.not_lt.mpr large), width, height, ?_, ?_⟩
    · exact (min_eq_right small.le).symm
    · exact (Int.mul_ediv_cancel _ (by omega)).symm
  · have large := Int.not_lt.mp small
    obtain ⟨chosenEq, otherEq⟩ := getResizePair_large large
    have nonneg : 0 ≤ point * size.other useWidth := Int.mul_nonneg (by omega) (by omega)
    have positive : 0 < size.chosen useWidth := by omega
    have exact_ := @tdiv_bmod_eq_iff (point * size.other useWidth) _ nonneg positive chosenFits
    rw [forall_prop_of_true large]
    constructor
    · intro scaled
      have quotient := scaled.other
      rw [chosenEq, Int.mul_comm] at quotient
      refine ⟨exact_.mp (otherEq.symm.trans quotient), ?_⟩
      have one := ((bounds_iff useWidth).mp ⟨scaled.width, scaled.height⟩).2.1
      rw [quotient, Int.le_ediv_iff_mul_le positive, Int.one_mul] at one
      exact one
    · rintro ⟨fits, enough⟩
      have quotient := otherEq.trans (exact_.mpr fits)
      have one : 1 ≤ point * size.other useWidth / size.chosen useWidth := by
        rw [Int.le_ediv_iff_mul_le positive, Int.one_mul]
        exact enough
      have atMost : point * size.other useWidth / size.chosen useWidth ≤ size.other useWidth := by
        refine Int.ediv_le_of_le_mul positive ?_
        rw [Int.mul_comm]
        exact Int.mul_le_mul_of_nonneg_left large (by omega)
      obtain ⟨width, height⟩ := (@bounds_iff size (size.getResizePair point useWidth) useWidth).mpr
        ⟨by rw [chosenEq]; exact ⟨pointPos, large⟩, by rw [quotient]; exact ⟨one, atMost⟩⟩
      refine ⟨fun _ => ⟨by omega, by omega⟩, width, height, ?_, ?_⟩
      · rw [chosenEq, min_eq_left large]
      · rw [quotient, chosenEq, Int.mul_comm]

/-- **The size is computed as it should be if and only if the product fits into an `int` and is not
smaller than the divisor**, where the picture is scaled at all. -/
theorem getResizePair_scaled_iff (width height point : Dimension) (useWidth : Bool) :
    Scaled ⟨width.1, height.1⟩ point.1 useWidth
        (getResizePair ⟨width.1, height.1⟩ point.1 useWidth) ↔
      (point.1 ≤ chosen ⟨width.1, height.1⟩ useWidth →
        point.1 * other ⟨width.1, height.1⟩ useWidth < 2 ^ 31 ∧
          chosen ⟨width.1, height.1⟩ useWidth ≤ point.1 * other ⟨width.1, height.1⟩ useWidth) := by
  obtain ⟨width, widthPos, -, widthFits⟩ := width
  obtain ⟨height, heightPos, -, heightFits⟩ := height
  cases useWidth with
  | true => exact scaled_iff widthPos (Int.lt_of_le_of_lt widthFits (by decide)) heightPos point.2.1
  | false => exact scaled_iff heightPos (Int.lt_of_le_of_lt heightFits (by decide)) widthPos point.2.1

/-- A picture whose product overflows, and one that is too elongated. -/
theorem getResizePair_wrong_sizes :
    getResizePair ⟨50000, 50000⟩ 50000 true = ⟨50000, -35899⟩ ∧
      getResizePair ⟨1000, 1⟩ 100 true = ⟨100, 0⟩ := by
  decide

end SizePair

end Clb
