/-
# Lib.Base64 -- the padded Base64 text of a byte string

Three bytes become four characters of the standard alphabet; a last group of one or two bytes is
padded with `=`. `decode_encode` is the round trip, `length_encode` the length of the text.
`encodeChunked` breaks the text into lines, from which it can still be read (`encodeChunked_injective`). -/
import Mathlib.Tactic.Common

set_option autoImplicit false

namespace Clb.Lib.Base64

/-- The character of a six bit group. -/
def symbol (n : Nat) : Char :=
  if n < 26 then Char.ofNat ('A'.toNat + n)
  else if n < 52 then Char.ofNat ('a'.toNat + (n - 26))
  else if n < 62 then Char.ofNat ('0'.toNat + (n - 52))
  else if n = 62 then '+'
  else '/'

/-- The six bit group of a character, 64 for the padding and every character outside the alphabet. -/
def sextet (c : Char) : Nat :=
  if 'A' ≤ c ∧ c ≤ 'Z' then c.toNat - 'A'.toNat
  else if 'a' ≤ c ∧ c ≤ 'z' then c.toNat - 'a'.toNat + 26
  else if '0' ≤ c ∧ c ≤ '9' then c.toNat - '0'.toNat + 52
  else if c = '+' then 62
  else if c = '/' then 63
  else 64

theorem sextet_symbol {n : Nat} (small : n < 64) : sextet (symbol n) = n := by
  have all : ∀ k : Fin 64, sextet (symbol k.val) = k.val := by decide
  exact all ⟨n, small⟩

theorem symbol_ne_padding {n : Nat} (small : n < 64) : symbol n ≠ '=' := by
  have all : ∀ k : Fin 64, symbol k.val ≠ '=' := by decide
  exact all ⟨n, small⟩

def encode : List UInt8 → List Char
  | [] => []
  | [a] => [symbol (a.toNat / 4), symbol (a.toNat % 4 * 16), '=', '=']
  | [a, b] =>
    [symbol (a.toNat / 4), symbol (a.toNat % 4 * 16 + b.toNat / 16),
      symbol (b.toNat % 16 * 4), '=']
  | a :: b :: c :: rest =>
    symbol (a.toNat / 4) :: symbol (a.toNat % 4 * 16 + b.toNat / 16) ::
      symbol (b.toNat % 16 * 4 + c.toNat / 64) :: symbol (c.toNat % 64) :: encode rest

/-- The bytes of a text of whole groups; a trailing incomplete group is dropped. -/
def decode : List Char → List UInt8
  | w :: x :: y :: z :: rest =>
    let a := UInt8.ofNat (sextet w * 4 + sextet x / 16)
    let b := UInt8.ofNat (sextet x % 16 * 16 + sextet y / 4)
    let c := UInt8.ofNat (sextet y % 4 * 64 + sextet z)
    if y = '=' then [a]
    else if z = '=' then [a, b]
    else a :: b :: c :: decode rest
  | _ => []

theorem ofNat_eq_of_toNat {a : UInt8} {n : Nat} (same : n = a.toNat) : UInt8.ofNat n = a := by
  rw [same, UInt8.ofNat_toNat]

/-- Decoding inverts encoding. -/
theorem decode_encode (bytes : List UInt8) : decode (encode bytes) = bytes := by
  induction bytes using encode.induct with
  | case1 => rfl
  | case2 a =>
    have ha := a.toNat_lt
    simp only [encode, decode, if_true]
    rw [sextet_symbol (by omega), sextet_symbol (by omega)]
    exact congrArg (fun x => [x]) (ofNat_eq_of_toNat (by omega))
  | case3 a b =>
    have ha := a.toNat_lt
    have hb := b.toNat_lt
    simp only [encode, decode, if_true, symbol_ne_padding (n := b.toNat % 16 * 4) (by omega),
      if_false]
    rw [sextet_symbol (by omega), sextet_symbol (by omega), sextet_symbol (by omega)]
    rw [ofNat_eq_of_toNat (a := a) (by omega), ofNat_eq_of_toNat (a := b) (by omega)]
  | case4 a b c rest ih =>
    have ha := a.toNat_lt
    have hb := b.toNat_lt
    have hc := c.toNat_lt
    simp only [encode, decode,
      symbol_ne_padding (n := b.toNat % 16 * 4 + c.toNat / 64) (by omega),
      symbol_ne_padding (n := c.toNat % 64) (by omega), if_false]
    rw [sextet_symbol (by omega), sextet_symbol (by omega), sextet_symbol (by omega),
      sextet_symbol (by omega), ih]
    rw [ofNat_eq_of_toNat (a := a) (by omega), ofNat_eq_of_toNat (a := b) (by omega),
      ofNat_eq_of_toNat (a := c) (by omega)]

theorem length_encode (bytes : List UInt8) :
    (encode bytes).length = 4 * ((bytes.length + 2) / 3) := by
  induction bytes using encode.induct with
  | case1 => rfl
  | case2 a => simp [encode]
  | case3 a b => simp [encode]
  | case4 a b c rest ih =>
    simp only [encode, List.length_cons, ih]
    omega

theorem encode_eq_nil_iff (bytes : List UInt8) : encode bytes = [] ↔ bytes = [] := by
  rw [← List.length_eq_zero_iff, length_encode, ← List.length_eq_zero_iff]
  omega

theorem symbol_visible {n : Nat} (small : n < 64) : '+' ≤ symbol n := by
  have all : ∀ k : Fin 64, '+' ≤ symbol k.val := by decide
  exact all ⟨n, small⟩

/-- The text holds no white space. -/
theorem encode_visible (bytes : List UInt8) : ∀ c ∈ encode bytes, '+' ≤ c := by
  induction bytes using encode.induct with
  | case1 => simp [encode]
  | case2 a =>
    have ha := a.toNat_lt
    simp only [encode, List.forall_mem_cons]
    exact ⟨symbol_visible (by omega), symbol_visible (by omega), by decide, by decide, by simp⟩
  | case3 a b =>
    have ha := a.toNat_lt
    have hb := b.toNat_lt
    simp only [encode, List.forall_mem_cons]
    exact ⟨symbol_visible (by omega), symbol_visible (by omega), symbol_visible (by omega),
      by decide, by simp⟩
  | case4 a b c rest ih =>
    have ha := a.toNat_lt
    have hb := b.toNat_lt
    have hc := c.toNat_lt
    simp only [encode, List.forall_mem_cons]
    exact ⟨symbol_visible (by omega), symbol_visible (by omega), symbol_visible (by omega),
      symbol_visible (by omega), ih⟩

theorem encode_injective : Function.Injective encode :=
  Function.LeftInverse.injective decode_encode

/-! ## Texts in lines -/

/-- A text broken into lines of `width` characters that end in CR LF; `room` is what is left of the
current line. -/
def inLines (width : Nat) : Nat → List Char → List Char
  | _, [] => ['\r', '\n']
  | 0, c :: rest => '\r' :: '\n' :: c :: inLines width (width - 1) rest
  | room + 1, c :: rest => c :: inLines width room rest

/-- The encoding in lines of 76 characters; an empty input stays empty. -/
def encodeChunked (bytes : List UInt8) : List Char :=
  if bytes = [] then [] else inLines 76 76 (encode bytes)

/-- Without the line ends the text is there again. -/
theorem filter_inLines {width room : Nat} {text : List Char} (visible : ∀ c ∈ text, '+' ≤ c) :
    (inLines width room text).filter (fun c => '+' ≤ c) = text := by
  induction text generalizing room with
  | nil => rfl
  | cons c rest ih =>
    obtain ⟨first, others⟩ := List.forall_mem_cons.mp visible
    have tail : ∀ room, (c :: inLines width room rest).filter (fun c => '+' ≤ c) = c :: rest := by
      intro room
      rw [List.filter_cons_of_pos (by simpa using first), ih others]
    cases room with
    | zero => exact tail (width - 1)
    | succ room => exact tail room

theorem encodeChunked_injective {a b : List UInt8} (filledA : a ≠ []) (filledB : b ≠ [])
    (same : encodeChunked a = encodeChunked b) : a = b := by
  unfold encodeChunked at same
  rw [if_neg filledA, if_neg filledB] at same
  have texts := congrArg (List.filter fun c => decide ('+' ≤ c)) same
  rw [filter_inLines (encode_visible a), filter_inLines (encode_visible b)] at texts
  exact encode_injective texts

end Clb.Lib.Base64
