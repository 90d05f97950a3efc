/-
# Lib.Percent -- percent-encoded bytes

An encoding of a byte string writes each byte as itself, unless it is the percent sign, or as a
percent sign and two hexadecimal digits. `Encoding` is that relation, `decode` inverts it
(`decode_of_encoding`, `encoding_of_decode`), and `Escaped` is what a text needs for that: behind
every percent sign that a scan from the left meets stand two digits (`escaped_iff`). An escape takes
three bytes for one, so a text that is its own decoding has no percent sign (`Encoding.length_lt`). -/
import Mathlib.Tactic.Common

set_option autoImplicit false

namespace Clb.Lib.Percent

/-- The value of a hexadecimal digit. -/
def hexValue (c : UInt8) : Option UInt8 :=
  if 48 ≤ c ∧ c ≤ 57 then some (c - 48)
  else if 65 ≤ c ∧ c ≤ 70 then some (c - 55)
  else if 97 ≤ c ∧ c ≤ 102 then some (c - 87)
  else none

/-- The first text is a percent-encoding of the second one. -/
inductive Encoding : List UInt8 → List UInt8 → Prop
  | nil : Encoding [] []
  | plain {c : UInt8} {e t : List UInt8} (other : c ≠ 37) (rest : Encoding e t) :
      Encoding (c :: e) (c :: t)
  | escape {h l x y : UInt8} {e t : List UInt8} (high : hexValue h = some x)
      (low : hexValue l = some y) (rest : Encoding e t) :
      Encoding (37 :: h :: l :: e) ((16 * x + y) :: t)

/-- Every percent sign that a scan from the left meets is followed by two hexadecimal digits. -/
inductive Escaped : List UInt8 → Prop
  | nil : Escaped []
  | plain {c : UInt8} {s : List UInt8} (other : c ≠ 37) (rest : Escaped s) : Escaped (c :: s)
  | escape {h l : UInt8} {s : List UInt8} (high : (hexValue h).isSome = true)
      (low : (hexValue l).isSome = true) (rest : Escaped s) : Escaped (37 :: h :: l :: s)

def decode : List UInt8 → Option (List UInt8)
  | [] => some []
  | c :: rest =>
    if c = 37 then
      match rest with
      | h :: l :: more => do
          let x ← hexValue h
          let y ← hexValue l
          return (16 * x + y) :: (← decode more)
      | _ => none
    else
      (decode rest).map (c :: ·)

variable {e s t : List UInt8}

theorem decode_plain {c : UInt8} (other : c ≠ 37) : decode (c :: s) = (decode s).map (c :: ·) := by
  rw [decode.eq_def]
  exact if_neg other

theorem decode_escape (h l : UInt8) :
    decode (37 :: h :: l :: s) =
      (hexValue h).bind fun x => (hexValue l).bind fun y => (decode s).map ((16 * x + y) :: ·) := by
  rw [decode.eq_def]
  simp only [Option.map_eq_bind]
  rfl

theorem decode_of_encoding (encodes : Encoding e t) : decode e = some t := by
  induction encodes with
  | nil => rfl
  | plain other _ ih => rw [decode_plain other, ih]; rfl
  | escape high low _ ih => rw [decode_escape, high, low, ih]; rfl

theorem encoding_of_decode (decoded : decode e = some t) : Encoding e t := by
  induction e using decode.induct generalizing t with
  | case1 =>
    obtain rfl := Option.some.inj decoded
    exact .nil
  | case2 h l more ih =>
    simp only [decode_escape, Option.bind_eq_some_iff, Option.map_eq_some_iff] at decoded
    obtain ⟨x, high, y, low, rest, read, rfl⟩ := decoded
    exact .escape high low (ih read)
  | case3 rest short =>
    -- one digit or none behind the percent sign
    rw [decode.eq_def] at decoded
    match rest, short with
    | [], _ => cases decoded
    | [h], _ => cases decoded
    | h :: l :: more, short => exact (short h l more rfl).elim
  | case4 c rest other ih =>
    rw [decode_plain other, Option.map_eq_some_iff] at decoded
    obtain ⟨u, read, rfl⟩ := decoded
    exact .plain other (ih read)

theorem escaped_iff : Escaped s ↔ ∃ t, Encoding s t := by
  constructor
  · intro escaped
    induction escaped with
    | nil => exact ⟨[], .nil⟩
    | plain other _ ih =>
      obtain ⟨t, encodes⟩ := ih
      exact ⟨_, .plain other encodes⟩
    | escape high low _ ih =>
      obtain ⟨t, encodes⟩ := ih
      obtain ⟨x, high⟩ := Option.isSome_iff_exists.mp high
      obtain ⟨y, low⟩ := Option.isSome_iff_exists.mp low
      exact ⟨_, .escape high low encodes⟩
  · rintro ⟨t, encodes⟩
    induction encodes with
    | nil => exact .nil
    | plain other _ ih => exact .plain other ih
    | escape high low _ ih => exact .escape (by simp [high]) (by simp [low]) ih

/-- A text without a percent sign encodes itself. -/
theorem encoding_self (without : 37 ∉ s) : Encoding s s := by
  induction s with
  | nil => exact .nil
  | cons c rest ih =>
    rw [List.mem_cons, not_or] at without
    exact .plain (Ne.symm without.1) (ih without.2)

theorem Encoding.length_le (encodes : Encoding e t) : t.length ≤ e.length := by
  induction encodes with
  | nil => exact Nat.le_refl 0
  | plain _ _ ih => exact Nat.succ_le_succ ih
  | escape _ _ _ ih =>
    simp only [List.length_cons]
    omega

/-- A text with a percent sign is longer than what it encodes. -/
theorem Encoding.length_lt (encodes : Encoding e t) (sign : 37 ∈ e) : t.length < e.length := by
  induction encodes with
  | nil => cases sign
  | plain other _ ih =>
    exact Nat.succ_lt_succ (ih ((List.mem_cons.mp sign).resolve_left (Ne.symm other)))
  | escape _ _ rest _ =>
    have shorter := rest.length_le
    simp only [List.length_cons]
    omega

/-- A byte other than the digits of its escapes stands in an encoding only where it is encoded. -/
theorem Encoding.not_mem_zero (encodes : Encoding e t) (without : 0 ∉ t) : 0 ∉ e := by
  induction encodes with
  | nil => exact without
  | plain _ _ ih =>
    rw [List.mem_cons, not_or] at without ⊢
    exact ⟨without.1, ih without.2⟩
  | escape high low _ ih =>
    rw [List.mem_cons, not_or] at without
    simp only [List.mem_cons, not_or]
    refine ⟨by decide, ?_, ?_, ih without.2⟩
    · rintro rfl
      cases high
    · rintro rfl
      cases low

end Clb.Lib.Percent
