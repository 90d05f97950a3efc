/-
# Clb.Nginx.Meaning -- what a single byte range means, and what the module makes of it

RFC 2616, 14.35.1 gives three forms of a single range: `a-b`, `a-` and `-k`, with digit strings of any
length.  `ByteRange.selected` is the range of positions the RFC assigns to one, over the natural
numbers.  The parser reads `-k` as `0-k`, does not clamp the last position, wraps at `2 ^ 64`, and the
handler takes the stored pair (0, 0) for no range at all; `rangeMeaning_iff` says for which requests the
answer is the one of the RFC nevertheless.
-/
import Clb.Nginx.Serve

namespace Clb.Nginx

set_option autoImplicit false

/-- `1*DIGIT`. -/
structure Digits where
  bytes : Bytes
  nonempty : bytes ≠ []
  digits : bytes.all isDigit = true

/-- The number a digit string denotes. -/
def Digits.value (d : Digits) : Nat := decimal d.bytes

/-- What the parser makes of a digit string. -/
def Digits.read (d : Digits) : Int64 := d.bytes.foldl pushDigit 0

/-- A `byte-range-spec` or a `suffix-byte-range-spec`. -/
inductive ByteRange where
  | fromTo (first last : Digits)
  | openEnded (first : Digits)
  | suffix (length : Digits)

namespace ByteRange

/-- The digits before and after the dash. -/
def parts : ByteRange → Bytes × Bytes
  | .fromTo first last => (first.bytes, last.bytes)
  | .openEnded first => (first.bytes, [])
  | .suffix length => ([], length.bytes)

/-- The header value `bytes=<first>-<last>`. -/
def header (range : ByteRange) : Bytes :=
  [98, 121, 116, 101, 115, 61] ++ (range.parts.1 ++ 45 :: range.parts.2)

def numbers : ByteRange → List Digits
  | .fromTo first last => [first, last]
  | .openEnded first => [first]
  | .suffix length => [length]

/-- The positions of a file of `n` bytes that a range selects; `none` for one that is not satisfiable
or whose last position is before its first one. -/
def selected (n : Nat) : ByteRange → Option (Nat × Nat)
  | .fromTo first last =>
    if first.value ≤ last.value ∧ first.value < n then
      some (first.value, min last.value (n - 1))
    else
      none
  | .openEnded first => if first.value < n then some (first.value, n - 1) else none
  | .suffix length => if 0 < length.value then some (n - min length.value n, n - 1) else none

/-- The ranges that the module answers as the RFC asks. -/
def Plain (n : Nat) : ByteRange → Prop
  | .fromTo first last =>
    first.value < 2 ^ 63 ∧ last.value < 2 ^ 63 ∧
      (last.value < first.value ∨ (last.value ≠ 0 ∧ last.value < n))
  | .openEnded first => first.value < 2 ^ 63 ∧ (n ≤ first.value ∨ n ≠ 1)
  | .suffix length => length.value = 0

end ByteRange

/-- The stored pair and the status answer the positions that are to be selected: these are stored and
answered with 206, and where there are none the answer is not a 206. -/
def Answers (f : StoredFile) (stored : UInt64 × UInt64) : Option (Nat × Nat) → Prop
  | some (first, last) =>
    stored.1.toNat = first ∧ stored.2.toNat = last ∧ (respond f stored.1 stored.2).status = 206
  | none => (respond f stored.1 stored.2).status ≠ 206

/-- The stored pair and the status agree with the RFC, and no number is read as a smaller one. -/
def AgreesWithRfc (f : StoredFile) (range : ByteRange) (stored : UInt64 × UInt64) : Prop :=
  Answers f stored (range.selected f.content.length) ∧
    ∀ d ∈ range.numbers, (d.value : Int) ≤ d.read.toInt

/-! ## The parser on a single range -/

theorem afterBytes_bytes (p : Bytes) :
    afterBytes ([98, 121, 116, 101, 115, 61] ++ p) = some p := by
  simp [afterBytes, ngxStrnstr]

section Single

variable {first last : Bytes} (digits : first.all isDigit = true)

include digits

theorem dropWhile_digits_dash : (first ++ 45 :: last).dropWhile isDigit = 45 :: last := by
  rw [List.dropWhile_append_of_pos (by simpa using digits),
    List.dropWhile_cons_of_neg (by simp [isDigit_dash])]

theorem takeWhile_digits_dash : (first ++ 45 :: last).takeWhile isDigit = first := by
  rw [List.takeWhile_append_of_pos (by simpa using digits),
    List.takeWhile_cons_of_neg (by simp [isDigit_dash]), List.append_nil]

/-- A single range is read to its end and stored if its bounds are in order. -/
theorem gridfsParseRange_single (digits' : last.all isDigit = true) (n : UInt64) :
    ∃ fuel, gridfsParseRange fuel ([98, 121, 116, 101, 115, 61] ++ (first ++ 45 :: last)) n =
      some (accepted (Int64.ofNat (decimal first)) (lastPosition n last)) := by
  have allRead : last.dropWhile isDigit = [] := by simpa using digits'
  have ends : stalls ([98, 121, 116, 101, 115, 61] ++ (first ++ 45 :: last)) = false := by
    simp only [stalls, afterBytes_bytes, dropWhile_digits_dash digits, allRead]
    rfl
  obtain ⟨fuel, parsed⟩ := (@gridfsParseRange_yields_iff _ n _).mpr ⟨ends, rfl⟩
  refine ⟨fuel, parsed.trans (congrArg some ?_)⟩
  simp only [storedRange, requestedRange, afterBytes_bytes, dropWhile_digits_dash digits,
    takeWhile_digits_dash digits, digits', if_true, rangeBounds]

end Single

theorem ByteRange.all_isDigit_parts (range : ByteRange) :
    range.parts.1.all isDigit = true ∧ range.parts.2.all isDigit = true := by
  cases range with
  | fromTo first last => exact ⟨first.digits, last.digits⟩
  | openEnded first => exact ⟨first.digits, rfl⟩
  | suffix length => exact ⟨rfl, length.digits⟩

/-- What the parser stores for a single range. -/
def ByteRange.stored (n : UInt64) (range : ByteRange) : UInt64 × UInt64 :=
  accepted (Int64.ofNat (decimal range.parts.1)) (lastPosition n range.parts.2)

theorem gridfsParseRange_header (range : ByteRange) (n : UInt64) :
    ∃ fuel, gridfsParseRange fuel range.header n = some (range.stored n) :=
  gridfsParseRange_single range.all_isDigit_parts.1 range.all_isDigit_parts.2 n

/-! ## The stored pair in natural numbers -/

theorem Digits.le_read_iff (d : Digits) : (d.value : Int) ≤ d.read.toInt ↔ d.value < 2 ^ 63 := by
  have read : d.read = Int64.ofNat d.value := pushDigit_decimal d.bytes d.digits
  rw [read]
  constructor
  · intro kept
    have high := (Int64.ofNat d.value).toInt_lt
    omega
  · intro small
    exact Int.le_of_eq (Int64.toInt_ofNat_of_lt small).symm

theorem accepted_ofNat {a b : Nat} (ha : a < 2 ^ 63) (hb : b < 2 ^ 63) :
    accepted (Int64.ofNat a) (Int64.ofNat b) =
      if b < a then (0, 0) else (UInt64.ofNat a, UInt64.ofNat b) := by
  have order : Int64.ofNat a > Int64.ofNat b ↔ b < a := by
    rw [gt_iff_lt, Int64.lt_iff_toInt_lt, Int64.toInt_ofNat_of_lt ha, Int64.toInt_ofNat_of_lt hb]
    omega
  unfold accepted
  simp only [order]
  rfl

theorem lastPosition_of_digits {n : UInt64} {last : Digits} :
    lastPosition n last.bytes = Int64.ofNat last.value := by
  rw [lastPosition, if_neg last.nonempty]
  rfl

theorem lastPosition_nil (f : StoredFile) (nonempty : f.content ≠ []) :
    lastPosition f.length [] = Int64.ofNat (f.content.length - 1) := by
  have positive : 0 < f.content.length := List.length_pos_of_ne_nil nonempty
  rw [lastPosition, if_pos rfl]
  have minusOne : f.length - 1 = UInt64.ofNat (f.content.length - 1) := by
    rw [UInt64.ofNat_sub positive]
    rfl
  rw [minusOne, UInt64.toInt64_ofNat']

theorem toNat_ofNat_of_lt {a : Nat} (small : a < 2 ^ 63) : (UInt64.ofNat a).toNat = a :=
  UInt64.toNat_ofNat_of_lt' (by
    change a < 2 ^ 64
    omega)

/-- The handler answers with 206 unless it holds two zeros. -/
theorem status_respond_iff (f : StoredFile) {a b : Nat} (ha : a < 2 ^ 63) (hb : b < 2 ^ 63) :
    (respond f (UInt64.ofNat a) (UInt64.ofNat b)).status = 206 ↔ ¬ (a = 0 ∧ b = 0) := by
  have zero : ∀ {m : Nat}, m < 2 ^ 63 → (UInt64.ofNat m = 0 ↔ m = 0) := by
    intro m small
    rw [← UInt64.toNat_inj, toNat_ofNat_of_lt small]
    rfl
  unfold respond
  simp only [zero ha, zero hb]
  split
  · rename_i both
    simp [both]
  · rename_i some_
    simp [some_]

/-- The answer to bounds that fit into `off_t`. -/
theorem answers_accepted_iff (f : StoredFile) {a b : Nat} (ha : a < 2 ^ 63) (hb : b < 2 ^ 63)
    (wanted : Option (Nat × Nat)) :
    Answers f (accepted (Int64.ofNat a) (Int64.ofNat b)) wanted ↔
      match wanted with
      | some (first, last) => a ≤ b ∧ b ≠ 0 ∧ first = a ∧ last = b
      | none => b < a ∨ b = 0 := by
  rw [accepted_ofNat ha hb]
  by_cases order : b < a
  · have zeros : (respond f 0 0).status ≠ 206 := by simp [respond]
    rw [if_pos order]
    cases wanted with
    | none => exact iff_of_true zeros (.inl order)
    | some positions => exact iff_of_false (fun h => zeros h.2.2) fun h => by omega
  · rw [if_neg order]
    have status := status_respond_iff f ha hb
    cases wanted with
    | none =>
      simp only [Answers, ne_eq, status]
      omega
    | some positions =>
      simp only [Answers, status, toNat_ofNat_of_lt ha, toNat_ofNat_of_lt hb]
      omega

/-- Every run on the header value of a single range stores the same pair. -/
theorem exists_parsed_iff (range : ByteRange) (n : UInt64) (P : UInt64 × UInt64 → Prop) :
    (∃ fuel stored, gridfsParseRange fuel range.header n = some stored ∧ P stored) ↔
      P (range.stored n) := by
  obtain ⟨enough, parsed⟩ := gridfsParseRange_header range n
  constructor
  · rintro ⟨fuel, stored, parsed', holds⟩
    rwa [gridfsParseRange_eq parsed, ← gridfsParseRange_eq parsed']
  · intro holds
    exact ⟨enough, _, parsed, holds⟩

/-- **A single range is answered as the RFC asks exactly if it is plain.** -/
theorem rangeMeaning_iff (f : StoredFile) (nonempty : f.content ≠ []) (range : ByteRange) :
    (∃ fuel stored, gridfsParseRange fuel range.header f.length = some stored ∧
      AgreesWithRfc f range stored) ↔ range.Plain f.content.length := by
  have positive : 0 < f.content.length := List.length_pos_of_ne_nil nonempty
  have fits : f.content.length < 2 ^ 63 := f.fits
  rw [exists_parsed_iff, AgreesWithRfc, and_comm]
  cases range with
  | fromTo first last =>
    simp only [ByteRange.numbers, List.mem_cons, List.not_mem_nil, or_false, forall_eq_or_imp,
      forall_eq, Digits.le_read_iff, ByteRange.Plain, ByteRange.stored, ByteRange.parts,
      lastPosition_of_digits, and_assoc]
    refine and_congr_right fun small => and_congr_right fun small' => ?_
    rw [← Digits.value, answers_accepted_iff f small small', ByteRange.selected]
    split_ifs with satisfiable
    · simp only [true_and]
      omega
    · simp only
      omega
  | openEnded first =>
    simp only [ByteRange.numbers, List.mem_cons, List.not_mem_nil, or_false, forall_eq,
      Digits.le_read_iff, ByteRange.Plain, ByteRange.stored, ByteRange.parts,
      lastPosition_nil f nonempty]
    refine and_congr_right fun small => ?_
    rw [← Digits.value, answers_accepted_iff f small (by omega), ByteRange.selected]
    split_ifs with satisfiable
    · simp only [and_true]
      omega
    · simp only
      omega
  | suffix length =>
    simp only [ByteRange.numbers, List.mem_cons, List.not_mem_nil, or_false, forall_eq,
      Digits.le_read_iff, ByteRange.Plain, ByteRange.stored, ByteRange.parts,
      lastPosition_of_digits]
    -- the parser starts at zero, where no suffix shorter than the file starts
    have start : decimal [] = 0 := rfl
    rw [start]
    constructor
    · rintro ⟨small, answers⟩
      rw [answers_accepted_iff f (by omega) small, ByteRange.selected] at answers
      split_ifs at answers with some_
      · simp only at answers
        omega
      · omega
    · intro zero
      refine ⟨by omega, ?_⟩
      rw [answers_accepted_iff f (by omega) (by omega), ByteRange.selected, if_neg (by omega)]
      exact .inr zero

/-- The digits of `1` and `3`. -/
def one : Digits := { bytes := [49], nonempty := by decide, digits := by decide }

def three : Digits := { bytes := [51], nonempty := by decide, digits := by decide }

theorem rangeMeaning_iff_oneToThree :
    (∃ fuel stored,
        gridfsParseRange fuel (ByteRange.fromTo one three).header twoChunks.length = some stored ∧
          AgreesWithRfc twoChunks (.fromTo one three) stored) ↔
      (ByteRange.fromTo one three).Plain twoChunks.content.length :=
  rangeMeaning_iff twoChunks (by decide) (.fromTo one three)

/-- `bytes=-1` of the four-byte file: its last byte is asked for, and the first two are stored. -/
theorem rangeMeaning_suffix :
    ¬ ∀ (f : StoredFile) (range : ByteRange), f.content ≠ [] →
      ∃ fuel stored, gridfsParseRange fuel range.header f.length = some stored ∧
        AgreesWithRfc f range stored := by
  intro always
  obtain ⟨fuel, stored, parsed, agrees, -⟩ := always twoChunks (.suffix one) (by decide)
  have last : (ByteRange.suffix one).selected twoChunks.content.length = some (3, 3) := by decide
  have pair : stored = (0, 1) := by
    rw [gridfsParseRange_eq parsed]
    decide
  rw [last, pair] at agrees
  exact absurd agrees.1 (by decide)

end Clb.Nginx
