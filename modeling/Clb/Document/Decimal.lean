/-
# Document.Decimal -- numbers written out and parsed back

`decimalText` is what Java makes of an `int` in a string. `parseInt_decimalText` is the round trip for
every `int`; the text holds digits and a leading minus sign only. -/
import Clb.Document.Facade

set_option autoImplicit false

namespace Clb

/-- The values of a Java `int`. -/
def IsInt (n : Int) : Prop := -2147483648 ≤ n ∧ n ≤ 2147483647

instance (n : Int) : Decidable (IsInt n) := inferInstanceAs (Decidable (_ ∧ _))

theorem isDigit_of_mem_toDigits {m : Nat} {c : Char} (member : c ∈ Nat.toDigits 10 m) :
    c.isDigit = true :=
  Nat.isDigit_of_mem_toDigits (by decide) (by decide) member

theorem mem_decimalText {n : Int} {c : Char} (member : c ∈ decimalText n) :
    c = '-' ∨ c.isDigit = true := by
  unfold decimalText at member
  split at member
  · rcases List.mem_cons.mp member with rfl | inside
    · exact .inl rfl
    · exact .inr (isDigit_of_mem_toDigits inside)
  · exact .inr (isDigit_of_mem_toDigits member)

/-- The text of a number is not the word for the latest version. -/
theorem decimalText_ne_latest (n : Int) : decimalText n ≠ "latest".toList := by
  intro same
  have letter : 'l' ∈ decimalText n := same ▸ by decide
  rcases mem_decimalText letter with minus | digit
  · exact absurd minus (by decide)
  · exact absurd digit (by decide)

theorem head_toDigits_ne {m : Nat} {sign : Char} (other : sign.isDigit = false) :
    ((Nat.toDigits 10 m).head? == some sign) = false := by
  rw [beq_eq_false_iff_ne]
  intro head
  have digit := isDigit_of_mem_toDigits (List.mem_of_mem_head? head)
  rw [other] at digit
  cases digit

/-- An `int` that was written out is parsed back. -/
theorem parseInt_decimalText {n : Int} (fits : IsInt n) : parseInt (decimalText n) = some n := by
  have digits : (Nat.toDigits 10 n.natAbs).all Char.isDigit = true :=
    List.all_eq_true.mpr fun c => isDigit_of_mem_toDigits
  have value : Nat.ofDigitChars 10 (Nat.toDigits 10 n.natAbs) 0 = n.natAbs :=
    Nat.ofDigitChars_toDigits (by decide) (by decide)
  unfold parseInt decimalText
  by_cases negative : n < 0
  · simp only [negative, if_true, List.head?_cons, beq_self_eq_true, Bool.true_or, List.tail_cons]
    rw [if_pos ⟨Nat.toDigits_ne_nil, digits⟩, value, if_pos (by obtain ⟨low, -⟩ := fits; omega)]
    exact congrArg some (by omega)
  · simp only [negative, if_false, @head_toDigits_ne _ '-' rfl,
      @head_toDigits_ne _ '+' rfl, Bool.or_false, Bool.false_eq_true]
    rw [if_pos ⟨Nat.toDigits_ne_nil, digits⟩, value, if_pos (by obtain ⟨-, high⟩ := fits; omega)]
    exact congrArg some (by omega)

theorem decimalText_injective {m n : Int} (fitsM : IsInt m) (fitsN : IsInt n)
    (same : decimalText m = decimalText n) : m = n := by
  have parsed := parseInt_decimalText fitsM
  rw [same, parseInt_decimalText fitsN] at parsed
  exact (Option.some.inj parsed).symm

theorem decimalText_natCast (n : Nat) : decimalText n = Nat.toDigits 10 n := by
  unfold decimalText
  rw [if_neg (by omega), Int.natAbs_natCast]

theorem decimalText_natCast_injective {m n : Nat} (same : decimalText m = decimalText n) : m = n := by
  rw [decimalText_natCast, decimalText_natCast] at same
  have value := congrArg (Nat.ofDigitChars 10 · 0) same
  simpa [Nat.ofDigitChars_toDigits] using value

theorem minus_not_mem_decimalText (n : Nat) : '-' ∉ decimalText n := by
  rw [decimalText_natCast]
  intro member
  exact absurd (isDigit_of_mem_toDigits member) (by decide)

/-- A text up to its first separator and the text after it. -/
theorem append_sep_inj {a a' b b' : Text} {c : Char} (without : c ∉ a) (without' : c ∉ a')
    (same : a ++ c :: b = a' ++ c :: b') : a = a' ∧ b = b' := by
  have before : ∀ {a b : Text}, c ∉ a → (a ++ c :: b).takeWhile (· != c) = a := by
    intro a b without
    rw [List.takeWhile_append_of_pos, List.takeWhile_cons_of_neg (by simp), List.append_nil]
    rintro x inside
    rw [bne_iff_ne]
    rintro rfl
    exact without inside
  have first : a = a' := by rw [← before (b := b) without, same, before without']
  refine ⟨first, ?_⟩
  rw [first] at same
  exact (List.cons.inj (List.append_cancel_left same)).2

end Clb
