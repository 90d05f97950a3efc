/-
# Clb.Lib.Window -- the part of a list that lies in an absolute index range

A list laid out from offset `pos` of some longer sequence shows, through the
half-open index range `[a, b)`, the elements whose absolute index is in that
range: `window pos a b xs`.  The window of a concatenation is the concatenation
of the windows (`window_append`), which is what a loop over consecutive pieces
needs; `chunkStarts` lists the offsets at which the pieces begin, `emptyStarts`
those at which an empty piece stands.
-/
import Mathlib.Data.List.Basic
import Mathlib.Tactic.Common

namespace Clb.Lib

set_option autoImplicit false

variable {pos offset : Nat} {α : Type*}

/-- The elements of `xs`, laid out from absolute index `pos`, whose index lies
in `[a, b)`. -/
def window (pos a b : Nat) (xs : List α) : List α :=
  (xs.drop (a - pos)).take (b - max pos a)

@[simp] theorem window_nil (pos a b : Nat) : window pos a b ([] : List α) = [] := by
  simp [window]

theorem window_append (pos a b : Nat) (xs ys : List α) :
    window pos a b (xs ++ ys) = window pos a b xs ++ window (pos + xs.length) a b ys := by
  unfold window
  rw [List.drop_append, List.take_append, List.length_drop]
  have skipped : a - pos - xs.length = a - (pos + xs.length) := by omega
  have left : b - max pos a - (xs.length - (a - pos)) = b - max (pos + xs.length) a := by omega
  rw [skipped, left]

theorem length_window (pos a b : Nat) (xs : List α) :
    (window pos a b xs).length = min b (pos + xs.length) - max pos a := by
  simp only [window, List.length_take, List.length_drop]
  omega

theorem window_eq_nil_of_le (pos a b : Nat) (xs : List α) (before : b ≤ pos) :
    window pos a b xs = [] := by
  have none : b - max pos a = 0 := by omega
  simp [window, none]

theorem window_eq_nil_of_past (pos a b : Nat) (xs : List α) (past : pos + xs.length ≤ a) :
    window pos a b xs = [] := by
  rw [window, List.drop_eq_nil_of_le (by omega), List.take_nil]

/-- Past its end a list is not affected by where the window closes. -/
theorem window_congr_end (pos a b b' : Nat) (xs : List α)
    (hb : pos + xs.length ≤ b) (hb' : pos + xs.length ≤ b') :
    window pos a b xs = window pos a b' xs := by
  unfold window
  rw [List.take_of_length_le (by simp only [List.length_drop]; omega),
    List.take_of_length_le (by simp only [List.length_drop]; omega)]

/-- Reading `[a, b)` of a list laid out from `0`. -/
theorem window_zero (a b : Nat) (xs : List α) :
    window 0 a b xs = (xs.drop a).take (b - a) := by
  simp [window]

/-- The absolute offsets at which consecutive pieces laid out from `pos` begin. -/
def chunkStarts : Nat → List (List α) → List Nat
  | _, [] => []
  | pos, chunk :: rest => pos :: chunkStarts (pos + chunk.length) rest

theorem le_of_mem_chunkStarts {chunks : List (List α)}
    (member : offset ∈ chunkStarts pos chunks) : pos ≤ offset := by
  induction chunks generalizing pos with
  | nil => simp [chunkStarts] at member
  | cons chunk rest ih =>
    simp only [chunkStarts, List.mem_cons] at member
    rcases member with rfl | member
    · exact Nat.le_refl _
    · have := ih member
      omega

/-- The absolute offsets at which an empty piece stands. -/
def emptyStarts : Nat → List (List α) → List Nat
  | _, [] => []
  | pos, chunk :: rest =>
    (if chunk.isEmpty then [pos] else []) ++ emptyStarts (pos + chunk.length) rest

theorem mem_emptyStarts_cons {chunk : List α} {rest : List (List α)} :
    offset ∈ emptyStarts pos (chunk :: rest) ↔
      (chunk = [] ∧ offset = pos) ∨ offset ∈ emptyStarts (pos + chunk.length) rest := by
  cases chunk with
  | nil => simp [emptyStarts]
  | cons a chunk => simp [emptyStarts]

theorem le_of_mem_emptyStarts {chunks : List (List α)}
    (member : offset ∈ emptyStarts pos chunks) : pos ≤ offset := by
  induction chunks generalizing pos with
  | nil => simp [emptyStarts] at member
  | cons chunk rest ih =>
    rcases mem_emptyStarts_cons.mp member with ⟨-, rfl⟩ | later
    · exact Nat.le_refl _
    · have := ih later
      omega

end Clb.Lib
