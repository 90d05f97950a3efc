/-
# Lib.Trim -- the blanks around a text

`trim` removes the characters up to the blank from both ends of a text, as `String.trim` of Java does.
A text is its trimmed form with blanks around it (`exists_trim_split`), and the trimmed form neither
begins nor ends in a blank (`trimmed_trim`). -/
import Mathlib.Data.List.DropRight

set_option autoImplicit false

namespace Clb.Lib

/-- The characters that are removed. -/
def blank (c : Char) : Bool := decide (c.toNat ≤ 32)

def trim (t : List Char) : List Char := (t.dropWhile blank).rdropWhile blank

def Blanks (t : List Char) : Prop := ∀ c ∈ t, blank c = true

instance (t : List Char) : Decidable (Blanks t) := List.decidableBAll _ t

/-- The text neither begins nor ends in a blank. -/
structure Trimmed (t : List Char) : Prop where
  head : ∀ c ∈ t.head?, blank c = false
  last : ∀ c ∈ t.getLast?, blank c = false

variable {b r s t : List Char}

theorem Blanks.not_mem (all : Blanks b) {c : Char} (visible : blank c = false) : c ∉ b := by
  intro member
  rw [all c member] at visible
  cases visible

theorem Blanks.append (first : Blanks s) (second : Blanks t) : Blanks (s ++ t) := by
  intro c member
  exact (List.mem_append.mp member).elim (first c) (second c)

/-- A text is blanks, its trimmed form, and blanks. -/
theorem exists_trim_split (t : List Char) :
    ∃ front behind, Blanks front ∧ Blanks behind ∧ t = front ++ trim t ++ behind := by
  refine ⟨t.takeWhile blank, (t.dropWhile blank).rtakeWhile blank,
    fun c member => List.mem_takeWhile_imp member, fun c member => List.mem_rtakeWhile_imp member, ?_⟩
  unfold trim
  rw [List.append_assoc, List.rdropWhile_append_rtakeWhile, List.takeWhile_append_dropWhile]

theorem head_dropWhile (t : List Char) : ∀ c ∈ (t.dropWhile blank).head?, blank c = false := by
  intro c member
  have := List.head?_dropWhile_not blank t
  rw [Option.mem_def.mp member] at this
  simpa using this

theorem trimmed_trim (t : List Char) : Trimmed (trim t) where
  head c member := by
    obtain ⟨rest, whole⟩ := List.rdropWhile_prefix blank (t.dropWhile blank)
    refine head_dropWhile t c ?_
    rw [← whole]
    unfold trim at member
    rw [List.head?_append, Option.mem_def.mp member]
    rfl
  last c member := by
    obtain ⟨given, rfl⟩ := List.mem_getLast?_eq_getLast member
    exact eq_false_of_ne_true (List.rdropWhile_last_not blank (t.dropWhile blank) given)

theorem not_blanks_trim (given : trim t ≠ []) : ¬Blanks (trim t) := by
  intro all
  obtain ⟨c, rest, whole⟩ := List.exists_cons_of_ne_nil given
  have visible := (trimmed_trim t).head c (by rw [whole]; rfl)
  exact all.not_mem visible (by rw [whole]; exact List.mem_cons_self)

/-- A text without blanks at its end is some blanks and its trimmed rest. -/
theorem exists_blanks_append (last : ∀ c ∈ r.getLast?, blank c = false) :
    ∃ b, Blanks b ∧ r = b ++ trim r := by
  obtain ⟨front, behind, blanksFront, blanksBehind, whole⟩ := exists_trim_split r
  cases found : behind.getLast? with
  | none =>
    rw [List.getLast?_eq_none_iff.mp found, List.append_nil] at whole
    exact ⟨front, blanksFront, whole⟩
  | some c =>
    have visible := last c (by rw [whole, List.getLast?_append, found]; rfl)
    exact absurd (List.mem_of_getLast? found) (blanksBehind.not_mem visible)

/-- Blanks in front of a text are as many blanks behind it, if the text is the same. -/
theorem Blanks.exists_behind (all : Blanks b) {w : List Char} (same : w ++ s = b ++ (w ++ t)) :
    ∃ b', Blanks b' ∧ b'.length = b.length ∧ s = b' ++ t := by
  rw [← List.append_assoc] at same
  rcases List.append_eq_append_iff.mp same with ⟨b', moved, rest⟩ | ⟨b', moved, rest⟩
  · have perm : b.Perm b' :=
      (List.perm_append_left_iff w).mp (List.perm_append_comm.trans (.of_eq moved))
    exact ⟨b', fun c member => all c (perm.mem_iff.mpr member), perm.length_eq.symm, rest⟩
  · have lengths := congrArg List.length moved
    simp only [List.length_append] at lengths
    obtain rfl : b = [] := List.eq_nil_of_length_eq_zero (by omega)
    obtain rfl : b' = [] := by simpa using lengths
    exact ⟨[], all, rfl, rest.symm⟩

theorem length_trim_le (t : List Char) : (trim t).length ≤ t.length := by
  obtain ⟨front, behind, -, -, whole⟩ := exists_trim_split t
  have lengths := congrArg List.length whole
  simp only [List.length_append] at lengths
  omega

theorem mem_of_mem_trim {c : Char} (member : c ∈ trim t) : c ∈ t := by
  obtain ⟨front, behind, -, -, whole⟩ := exists_trim_split t
  rw [whole]
  exact List.mem_append_left _ (List.mem_append_right _ member)

theorem trim_blanks_append (all : Blanks b) : trim (b ++ t) = trim t := by
  unfold trim
  rw [List.dropWhile_append_of_pos all]

theorem trim_eq_nil_iff : trim t = [] ↔ Blanks t := by
  constructor
  · intro empty
    obtain ⟨front, behind, blanksFront, blanksBehind, whole⟩ := exists_trim_split t
    rw [empty, List.append_nil] at whole
    rw [whole]
    exact blanksFront.append blanksBehind
  · intro all
    rw [← List.append_nil t, trim_blanks_append all]
    rfl

end Clb.Lib
