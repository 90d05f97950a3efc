/-
# Clb.Nginx.UrlDecode -- percent decoding in place

`url_decode` reads and writes one buffer.  The loop is modelled one iteration at
a time over the whole buffer with its two positions (`iterate`), so that what
has been written is there when it is read; an access outside the buffer is an
exit of its own.

The invariant is the shape of the buffer (`Layout`): what has been decoded, a
gap of stale bytes, and what is still to be read, as it was at the start.  From
it `loop_layout` says how every run ends, and `urlDecode_exact` compares that
with the percent-encoding of `Lib.Percent`.
-/
import Mathlib.Logic.Relation
import Clb.Lib.Percent
import Clb.Nginx.Range

namespace Clb.Nginx

open Clb.Lib.Percent

set_option autoImplicit false

variable {c : UInt8} {fuel : Nat} {after : Bytes}

/-! ## The loop -/

/-- `ngx_tolower`. -/
def ngxTolower (c : UInt8) : UInt8 := if 65 ≤ c ∧ c ≤ 90 then c ||| 0x20 else c

/-- `h_digit`. -/
def hDigit (hex : UInt8) : UInt8 :=
  if 48 ≤ hex ∧ hex ≤ 57 then hex - 48 else ngxTolower hex - 97 + 10

/-- `"0123456789AaBbCcDdEeFf"`. -/
def hexChars : Bytes :=
  [48, 49, 50, 51, 52, 53, 54, 55, 56, 57, 65, 97, 66, 98, 67, 99, 68, 100, 69, 101, 70, 102]

/-- `ngx_strchr(ok, c) != NULL`, which the terminator of the string satisfies as well. -/
def inOk (c : UInt8) : Bool := hexChars.contains c || c == 0

/-- `htoi`. -/
def htoi (h0 h1 : UInt8) : Int :=
  if !inOk h0 || !inOk h1 then -1 else (hDigit h0).toNat * 16 + (hDigit h1).toNat

/-- The buffer and the offsets of `read` and `write` in it. -/
structure DecodeState where
  buffer : Bytes
  read : Nat
  write : Nat
deriving DecidableEq, Repr

/-- How the loop is left: with a return value and what the buffer holds then, or by an access
outside the buffer. -/
inductive DecodeExit where
  | returned (code : Int) (buffer : Bytes)
  | outside
deriving DecidableEq, Repr

namespace DecodeState

/-- `*(read + offset)`. -/
def load (s : DecodeState) (offset : Nat) : Except DecodeExit UInt8 :=
  match s.buffer[s.read + offset]? with
  | some c => .ok c
  | none => .error .outside

/-- `*write = c`. -/
def store (s : DecodeState) (c : UInt8) : Except DecodeExit Bytes :=
  if s.write < s.buffer.length then .ok (s.buffer.set s.write c) else .error .outside

/-- `*write = c; read += offset; write++`. -/
def advance (s : DecodeState) (c : UInt8) (offset : Nat) : Except DecodeExit DecodeState := do
  return ⟨← s.store c, s.read + offset, s.write + 1⟩

/-- One test of `*read` and the iteration it leads to. -/
def iterate (s : DecodeState) : Except DecodeExit DecodeState := do
  let c ← s.load 0
  if c = 0 then
    throw (.returned 1 (← s.store 0))
  else if c = 37 then
    let h0 ← s.load 1
    if h0 = 0 then
      throw (.returned 0 s.buffer)
    else
      let h1 ← s.load 2
      if h1 = 0 then
        throw (.returned 0 s.buffer)
      else if htoi h0 h1 = -1 then
        throw (.returned 0 s.buffer)
      else
        s.advance (UInt8.ofNat (htoi h0 h1).toNat) 3
  else
    s.advance c 1

/-- The `while` loop; `none` while it has not been left within the fuel. -/
def loop : Nat → DecodeState → Option DecodeExit
  | 0, _ => none
  | fuel + 1, s =>
    match s.iterate with
    | .ok s' => loop fuel s'
    | .error exit => some exit

end DecodeState

/-- `url_decode`. -/
def urlDecode (fuel : Nat) (filename : Bytes) : Option DecodeExit :=
  DecodeState.loop fuel ⟨filename, 0, 0⟩

/-- The bytes of a buffer up to its terminator. -/
def cString (buffer : Bytes) : Bytes := buffer.takeWhile (· != 0)

/-! ## Digits -/

theorem hexValue_of_mem :
    ∀ c ∈ hexChars, hexValue c = some (hDigit c) ∧ hDigit c < 16 := by
  decide +kernel

theorem mem_of_hexValue {c x : UInt8} (digit : hexValue c = some x) : c ∈ hexChars := by
  have listed : ∀ n < 256, (hexValue (UInt8.ofNat n)).isSome = true → UInt8.ofNat n ∈ hexChars := by
    decide +kernel
  have := listed c.toNat c.toNat_lt
  rw [UInt8.ofNat_toNat] at this
  exact this (Option.isSome_iff_exists.mpr ⟨x, digit⟩)

theorem ne_zero_of_hexValue {c x : UInt8} (digit : hexValue c = some x) : c ≠ 0 := by
  rintro rfl
  cases digit

/-- The characters that `htoi` accepts, the terminator aside. -/
theorem inOk_iff (given : c ≠ 0) : inOk c = true ↔ (hexValue c).isSome = true := by
  have terminator : (c == 0) = false := beq_false_of_ne given
  unfold inOk
  rw [terminator, Bool.or_false, List.contains_iff_mem, Option.isSome_iff_exists]
  exact ⟨fun member => ⟨_, (hexValue_of_mem c member).1⟩, fun ⟨x, digit⟩ => mem_of_hexValue digit⟩

theorem hDigit_eq {c x : UInt8} (digit : hexValue c = some x) : hDigit c = x ∧ x < 16 := by
  obtain ⟨value, small⟩ := hexValue_of_mem c (mem_of_hexValue digit)
  obtain rfl : hDigit c = x := Option.some.inj (value.symm.trans digit)
  exact ⟨rfl, small⟩

/-- Two hexadecimal digits are read as the byte that they stand for. -/
theorem htoi_digits {h0 h1 x y : UInt8} (high : hexValue h0 = some x) (low : hexValue h1 = some y) :
    htoi h0 h1 ≠ -1 ∧ UInt8.ofNat (htoi h0 h1).toNat = 16 * x + y := by
  obtain ⟨rfl, smallX⟩ := hDigit_eq high
  obtain ⟨rfl, smallY⟩ := hDigit_eq low
  have ok0 : inOk h0 = true := (inOk_iff (ne_zero_of_hexValue high)).mpr (by simp [high])
  have ok1 : inOk h1 = true := (inOk_iff (ne_zero_of_hexValue low)).mpr (by simp [low])
  unfold htoi
  rw [ok0, ok1, if_neg (by decide)]
  refine ⟨by omega, ?_⟩
  have whole : (((hDigit h0).toNat : Int) * 16 + (hDigit h1).toNat).toNat =
      (hDigit h0).toNat * 16 + (hDigit h1).toNat := by omega
  rw [whole, UInt8.ofNat_add, UInt8.ofNat_mul, UInt8.ofNat_toNat, UInt8.ofNat_toNat, UInt8.mul_comm]
  rfl

/-- Anything else but a terminator is refused. -/
theorem htoi_refused {h0 h1 : UInt8} (given0 : h0 ≠ 0) (given1 : h1 ≠ 0)
    (refused : ¬((hexValue h0).isSome = true ∧ (hexValue h1).isSome = true)) : htoi h0 h1 = -1 := by
  rw [← inOk_iff given0, ← inOk_iff given1] at refused
  rw [not_and_or, Bool.not_eq_true, Bool.not_eq_true] at refused
  unfold htoi
  rw [if_pos]
  simpa using refused

/-! ## The buffer during the loop -/

/-- The buffer holds what has been decoded, a gap of bytes that have been read, and what is still to
be read. -/
structure Layout (s : DecodeState) (decoded gap rest : Bytes) : Prop where
  buffer : s.buffer = decoded ++ (gap ++ rest)
  write : s.write = decoded.length
  read : s.read = decoded.length + gap.length

namespace Layout

variable {s : DecodeState} {decoded gap rest : Bytes}

theorem load_eq (layout : Layout s decoded gap rest) {offset : Nat}
    (there : rest[offset]? = some c) : s.load offset = .ok c := by
  have place : s.buffer[s.read + offset]? = some c := by
    rw [layout.buffer, layout.read, ← List.append_assoc, ← List.length_append,
      List.getElem?_append_right (Nat.le_add_right _ _), Nat.add_sub_cancel_left, there]
  unfold DecodeState.load
  rw [place]

/-- The byte at the write position is one that has been read, or the next one to be read. -/
theorem store_eq (layout : Layout s decoded gap rest) (consumed : Bytes)
    (split : rest = c :: consumed ++ after) (v : UInt8) :
    ∃ gap', s.store v = .ok (decoded ++ v :: (gap' ++ after)) ∧
      gap'.length = gap.length + consumed.length := by
  obtain ⟨g, gap', opened⟩ := List.exists_cons_of_ne_nil
    (List.append_ne_nil_of_right_ne_nil gap (List.cons_ne_nil c consumed))
  have shape : s.buffer = decoded ++ (g :: gap' ++ after) := by
    rw [layout.buffer, split, ← opened]
    simp only [List.append_assoc]
  have inside : s.write < s.buffer.length := by
    rw [shape, layout.write]
    simp
  refine ⟨gap', ?_, ?_⟩
  · unfold DecodeState.store
    rw [if_pos inside, shape, layout.write, List.set_append_right _ _ (Nat.le_refl _), Nat.sub_self]
    rfl
  · have size := congrArg List.length opened
    simp only [List.length_append, List.length_cons] at size
    omega

/-- A byte that is written joins what has been decoded. -/
theorem advance_eq (layout : Layout s decoded gap rest) (consumed : Bytes)
    (split : rest = c :: consumed ++ after) (v : UInt8) :
    ∃ s' gap', s.advance v (consumed.length + 1) = .ok s' ∧ Layout s' (decoded ++ [v]) gap' after := by
  obtain ⟨gap', stored, sizes⟩ := layout.store_eq consumed split v
  refine ⟨⟨decoded ++ v :: (gap' ++ after), s.read + (consumed.length + 1), s.write + 1⟩, gap', ?_,
    ?_, ?_, ?_⟩
  · unfold DecodeState.advance
    rw [stored]
    rfl
  · simp only [List.append_assoc, List.singleton_append]
  · rw [layout.write, List.length_append, List.length_singleton]
  · change s.read + (consumed.length + 1) = _
    rw [layout.read, List.length_append, List.length_singleton, sizes]
    omega

theorem iterate_terminator (layout : Layout s decoded gap (0 :: after)) :
    ∃ stale, s.iterate = .error (.returned 1 (decoded ++ 0 :: stale)) := by
  obtain ⟨gap', stored, -⟩ := layout.store_eq [] rfl 0
  refine ⟨gap' ++ after, ?_⟩
  unfold DecodeState.iterate
  rw [layout.load_eq rfl, stored]
  rfl

theorem iterate_plain (layout : Layout s decoded gap (c :: after))
    (given : c ≠ 0) (other : c ≠ 37) :
    ∃ s' gap', s.iterate = .ok s' ∧ Layout s' (decoded ++ [c]) gap' after := by
  have same : s.iterate = s.advance c 1 := by
    unfold DecodeState.iterate
    rw [layout.load_eq rfl]
    change (if c = 0 then _ else if c = 37 then _ else _) = _
    rw [if_neg given, if_neg other]
  rw [same]
  exact layout.advance_eq [] rfl c

/-- An iteration at a percent sign that a byte of the string follows. -/
theorem iterate_sign {after : Bytes} {h0 h1 : UInt8}
    (layout : Layout s decoded gap (37 :: h0 :: h1 :: after)) (given : h0 ≠ 0) :
    s.iterate =
      if h1 = 0 then .error (.returned 0 s.buffer)
      else if htoi h0 h1 = -1 then .error (.returned 0 s.buffer)
      else s.advance (UInt8.ofNat (htoi h0 h1).toNat) 3 := by
  unfold DecodeState.iterate
  rw [layout.load_eq rfl]
  change s.load 1 >>= _ = _
  rw [layout.load_eq rfl]
  change (if h0 = 0 then _ else s.load 2 >>= _) = _
  rw [if_neg given, layout.load_eq rfl]
  rfl

theorem iterate_escape {h0 h1 x y : UInt8}
    (layout : Layout s decoded gap (37 :: h0 :: h1 :: after)) (high : hexValue h0 = some x)
    (low : hexValue h1 = some y) :
    ∃ s' gap', s.iterate = .ok s' ∧ Layout s' (decoded ++ [16 * x + y]) gap' after := by
  obtain ⟨accepted, value⟩ := htoi_digits high low
  rw [layout.iterate_sign (ne_zero_of_hexValue high), if_neg (ne_zero_of_hexValue low),
    if_neg accepted, value]
  exact layout.advance_eq [h0, h1] rfl (16 * x + y)

/-- A percent sign without two digits in the rest of the string ends the loop. -/
theorem iterate_refused {w after : Bytes} (layout : Layout s decoded gap (37 :: (w ++ 0 :: after)))
    (nulFree : 0 ∉ w) (refused : ∀ h0 h1 more, w = h0 :: h1 :: more →
      ¬((hexValue h0).isSome = true ∧ (hexValue h1).isSome = true)) :
    s.iterate = .error (.returned 0 s.buffer) := by
  match w with
  | [] =>
    unfold DecodeState.iterate
    rw [layout.load_eq rfl]
    change s.load 1 >>= _ = _
    rw [layout.load_eq rfl]
    rfl
  | [h0] =>
    have given0 : h0 ≠ 0 := fun same => nulFree (same ▸ List.mem_cons_self)
    exact (@iterate_sign _ _ _ _ _ _ layout given0).trans (if_pos rfl)
  | h0 :: h1 :: more =>
    have given0 : h0 ≠ 0 := fun same => nulFree (same ▸ List.mem_cons_self)
    have given1 : h1 ≠ 0 := fun same =>
      nulFree (same ▸ List.mem_cons_of_mem _ List.mem_cons_self)
    rw [layout.iterate_sign given0, if_neg given1,
      if_pos (htoi_refused given0 given1 (refused h0 h1 more rfl))]

end Layout

/-! ## How it ends -/

/-- How the decoding of a string ends: with its decoding in front of a terminator, or refused. -/
def DecodesTo (decoded w : Bytes) (exit : DecodeExit) : Prop :=
  match decode w with
  | some t => ∃ stale, exit = .returned 1 (decoded ++ t ++ 0 :: stale)
  | none => ∃ buffer, exit = .returned 0 buffer

theorem decodesTo_step {decoded w w' : Bytes} {v : UInt8} {exit : DecodeExit}
    (step : decode w = (decode w').map (v :: ·)) (ends : DecodesTo (decoded ++ [v]) w' exit) :
    DecodesTo decoded w exit := by
  unfold DecodesTo at ends ⊢
  rw [step]
  cases read : decode w' with
  | none =>
    rw [read] at ends
    exact ends
  | some t =>
    rw [read] at ends
    obtain ⟨stale, rfl⟩ := ends
    refine ⟨stale, ?_⟩
    simp only [List.append_assoc, List.singleton_append]

theorem decodesTo_refused {decoded w buffer : Bytes} (refused : ¬∃ t, Encoding (37 :: w) t) :
    DecodesTo decoded (37 :: w) (.returned 0 buffer) := by
  unfold DecodesTo
  cases read : decode (37 :: w) with
  | none => exact ⟨buffer, rfl⟩
  | some t => exact absurd ⟨t, encoding_of_decode read⟩ refused

namespace DecodeState

theorem loop_ok {s s' : DecodeState} (iterated : s.iterate = .ok s') :
    s.loop (fuel + 1) = s'.loop fuel := by
  rw [loop, iterated]

theorem loop_error {s : DecodeState} {exit : DecodeExit}
    (iterated : s.iterate = .error exit) : s.loop (fuel + 1) = some exit := by
  rw [loop, iterated]

/-- More fuel changes nothing about a loop that has been left. -/
theorem loop_mono {fuel fuel' : Nat} {s : DecodeState} {exit : DecodeExit}
    (left : s.loop fuel = some exit) (more : fuel ≤ fuel') : s.loop fuel' = some exit := by
  induction fuel generalizing s fuel' with
  | zero => cases left
  | succ fuel ih =>
    cases fuel' with
    | zero => exact absurd more (Nat.not_succ_le_zero _)
    | succ fuel' =>
      cases iterated : s.iterate with
      | ok s' =>
        rw [loop_ok iterated] at left ⊢
        exact ih left (Nat.le_of_succ_le_succ more)
      | error exit =>
        rw [loop_error iterated] at left ⊢
        exact left

/-- **Every run ends**, after at most one iteration for each byte of the string and one for its
terminator. -/
theorem loop_layout {s : DecodeState} {decoded gap w after : Bytes}
    (layout : Layout s decoded gap (w ++ 0 :: after)) (nulFree : 0 ∉ w) (enough : w.length < fuel) :
    ∃ exit, s.loop fuel = some exit ∧ DecodesTo decoded w exit := by
  induction fuel generalizing s decoded gap w with
  | zero => exact absurd enough (Nat.not_lt_zero _)
  | succ fuel ih =>
    cases w with
    | nil =>
      obtain ⟨stale, iterated⟩ := layout.iterate_terminator
      exact ⟨_, loop_error iterated, stale, by rw [List.append_nil]⟩
    | cons c rest =>
      rw [List.mem_cons, not_or] at nulFree
      by_cases sign : c = 37
      · subst sign
        by_cases digits : ∃ h l more x y,
            rest = h :: l :: more ∧ hexValue h = some x ∧ hexValue l = some y
        · obtain ⟨h, l, more, x, y, rfl, high, low⟩ := digits
          obtain ⟨s', gap', iterated, layout'⟩ := layout.iterate_escape high low
          simp only [List.mem_cons, not_or] at nulFree
          simp only [List.length_cons] at enough
          obtain ⟨exit, ran, ends⟩ := ih layout' nulFree.2.2.2 (by omega)
          refine ⟨exit, (loop_ok iterated).trans ran, decodesTo_step ?_ ends⟩
          rw [decode_escape, high, low]
          rfl
        · refine ⟨_, loop_error (layout.iterate_refused nulFree.2 ?_), decodesTo_refused ?_⟩
          · rintro h l more rfl ⟨high, low⟩
            obtain ⟨x, high⟩ := Option.isSome_iff_exists.mp high
            obtain ⟨y, low⟩ := Option.isSome_iff_exists.mp low
            exact digits ⟨h, l, more, x, y, rfl, high, low⟩
          · rintro ⟨_, encodes⟩
            cases encodes with
            | plain other _ => exact other rfl
            | escape high low _ => exact digits ⟨_, _, _, _, _, rfl, high, low⟩
      · obtain ⟨s', gap', iterated, layout'⟩ := layout.iterate_plain (Ne.symm nulFree.1) sign
        obtain ⟨exit, ran, ends⟩ := ih layout' nulFree.2 (Nat.lt_of_succ_lt_succ enough)
        exact ⟨exit, (loop_ok iterated).trans ran, decodesTo_step (decode_plain sign) ends⟩

theorem bind_eq_ok {α β : Type} {x : Except DecodeExit α} {f : α → Except DecodeExit β} {r : β}
    (done : x >>= f = .ok r) : ∃ a, x = .ok a ∧ f a = .ok r := by
  cases x with
  | ok a => exact ⟨a, rfl, done⟩
  | error exit => cases done

theorem advance_positions {s s' : DecodeState} {offset : Nat}
    (done : s.advance c offset = .ok s') : s'.read = s.read + offset ∧ s'.write = s.write + 1 := by
  obtain ⟨buffer, -, same⟩ := bind_eq_ok done
  obtain rfl := Except.ok.inj same
  exact ⟨rfl, rfl⟩

/-- An iteration reads at least one byte and writes one. -/
theorem iterate_positions {s s' : DecodeState} (iterated : s.iterate = .ok s') :
    s.read + 1 ≤ s'.read ∧ s'.write = s.write + 1 := by
  obtain ⟨c, -, tested⟩ := bind_eq_ok iterated
  split at tested
  · obtain ⟨buffer, -, left⟩ := bind_eq_ok tested
    cases left
  · split at tested
    · obtain ⟨h0, -, tested⟩ := bind_eq_ok tested
      split at tested
      · cases tested
      · obtain ⟨h1, -, tested⟩ := bind_eq_ok tested
        split at tested
        · cases tested
        · split at tested
          · cases tested
          · obtain ⟨read, write⟩ := advance_positions tested
            exact ⟨by omega, write⟩
    · obtain ⟨read, write⟩ := advance_positions tested
      exact ⟨by omega, write⟩

/-- The states in which the loop tests `*read`. -/
def Reached (start s : DecodeState) : Prop :=
  Relation.ReflTransGen (fun s s' : DecodeState => s.iterate = .ok s') start s

/-- The write position never passes the read position. -/
theorem Reached.write_le_read {filename : Bytes} {s : DecodeState}
    (reached : Reached ⟨filename, 0, 0⟩ s) : s.write ≤ s.read := by
  induction reached with
  | refl => exact Nat.le_refl 0
  | tail _ iterated ih =>
    have := iterate_positions iterated
    omega

end DecodeState

/-- A run on a string with its terminator, whatever follows in memory. -/
theorem urlDecode_ends {s : Bytes} (after : Bytes) (nulFree : 0 ∉ s) (enough : s.length < fuel) :
    ∃ exit, urlDecode fuel (s ++ 0 :: after) = some exit ∧ DecodesTo [] s exit := by
  have layout : Layout ⟨s ++ 0 :: after, 0, 0⟩ [] [] (s ++ 0 :: after) := ⟨rfl, rfl, rfl⟩
  exact DecodeState.loop_layout layout nulFree enough

theorem urlDecode_encoding {e t : Bytes} (after : Bytes) (nulFree : 0 ∉ e)
    (enough : e.length < fuel) (encodes : Encoding e t) :
    ∃ stale, urlDecode fuel (e ++ 0 :: after) = some (.returned 1 (t ++ 0 :: stale)) := by
  obtain ⟨exit, ran, ends⟩ := urlDecode_ends after nulFree enough
  unfold DecodesTo at ends
  rw [decode_of_encoding encodes] at ends
  obtain ⟨stale, rfl⟩ := ends
  exact ⟨stale, ran⟩

theorem urlDecode_refused {s : Bytes} (after : Bytes) (nulFree : 0 ∉ s)
    (enough : s.length < fuel) (refused : ¬Escaped s) :
    ∃ buffer, urlDecode fuel (s ++ 0 :: after) = some (.returned 0 buffer) := by
  obtain ⟨exit, ran, ends⟩ := urlDecode_ends after nulFree enough
  unfold DecodesTo at ends
  cases read : decode s with
  | some t => exact absurd (escaped_iff.mpr ⟨t, encoding_of_decode read⟩) refused
  | none =>
    rw [read] at ends
    obtain ⟨buffer, rfl⟩ := ends
    exact ⟨buffer, ran⟩

theorem cString_of_nulFree {s : Bytes} (nulFree : 0 ∉ s) : cString s = s := by
  unfold cString
  refine List.takeWhile_eq_self_iff.mpr fun c member => ?_
  exact bne_iff_ne.mpr fun same => nulFree (same ▸ member)

theorem cString_append (t stale : Bytes) : cString (t ++ 0 :: stale) = cString t := by
  unfold cString
  induction t with
  | nil => exact List.takeWhile_cons_of_neg (by simp)
  | cons c rest ih => rw [List.cons_append, List.takeWhile_cons, List.takeWhile_cons, ih]

theorem zero_not_mem_cString (buffer : Bytes) : 0 ∉ cString buffer := fun member => by
  simpa using List.mem_takeWhile_imp member

/-- A terminated buffer is its string, the terminator and what follows. -/
theorem exists_cString_append (rest : Bytes) : ∃ after, rest ++ [0] = cString rest ++ 0 :: after := by
  induction rest with
  | nil => exact ⟨[], rfl⟩
  | cons c rest ih =>
    by_cases terminator : c = 0
    · refine ⟨rest ++ [0], ?_⟩
      unfold cString
      rw [terminator, List.takeWhile_cons_of_neg (by simp)]
      rfl
    · obtain ⟨after, split⟩ := ih
      refine ⟨after, ?_⟩
      unfold cString at split ⊢
      rw [List.takeWhile_cons_of_pos (by simpa using terminator), List.cons_append, split]
      rfl

/-- **Decoding in place is exact.** On a string `s` with its terminator, and whatever memory follows,
the write position never passes the read position, and the loop ends. It returns 1 for exactly the
strings whose percent signs all have two digits behind them, and then the buffer starts with what the
string encodes and a terminator. So every encoding of a string without NUL is read back. -/
theorem urlDecode_exact (s after : Bytes) (nulFree : 0 ∉ s) :
    (∀ state, DecodeState.Reached ⟨s ++ 0 :: after, 0, 0⟩ state → state.write ≤ state.read) ∧
      (∃ code buffer,
        (∀ fuel, s.length < fuel →
          urlDecode fuel (s ++ 0 :: after) = some (.returned code buffer)) ∧
        (code = 1 ↔ Escaped s) ∧
        (code = 1 → ∃ t stale, Encoding s t ∧ buffer = t ++ 0 :: stale)) ∧
      ∀ t, 0 ∉ t → ∀ e, Encoding e t → ∃ buffer, ∀ fuel, e.length < fuel →
        urlDecode fuel (e ++ 0 :: after) = some (.returned 1 buffer) ∧ cString buffer = t := by
  refine ⟨fun state reached => reached.write_le_read, ?_, ?_⟩
  · by_cases escaped : Escaped s
    · obtain ⟨t, encodes⟩ := escaped_iff.mp escaped
      obtain ⟨stale, ran⟩ := urlDecode_encoding after nulFree (Nat.lt_succ_self _) encodes
      exact ⟨1, _, fun fuel enough => DecodeState.loop_mono ran enough,
        iff_of_true rfl escaped, fun _ => ⟨t, stale, encodes, rfl⟩⟩
    · obtain ⟨buffer, ran⟩ := urlDecode_refused after nulFree (Nat.lt_succ_self _) escaped
      exact ⟨0, buffer, fun fuel enough => DecodeState.loop_mono ran enough,
        iff_of_false (by decide) escaped, fun one => absurd one (by decide)⟩
  · intro t nulFree' e encodes
    obtain ⟨stale, ran⟩ := urlDecode_encoding after (encodes.not_mem_zero nulFree')
      (Nat.lt_succ_self _) encodes
    have restored := (cString_append t stale).trans (cString_of_nulFree nulFree')
    exact ⟨_, fun fuel enough => ⟨DecodeState.loop_mono ran enough, restored⟩⟩

/-- The encoding `a%2F` of `a/`. -/
theorem urlDecode_exact_slash :
    (0 : UInt8) ∉ ([97, 37, 50, 70] : Bytes) ∧
      ∃ buffer, urlDecode 5 ([97, 37, 50, 70] ++ [0]) = some (.returned 1 buffer) ∧
        cString buffer = [97, 47] := by
  have nulFree : (0 : UInt8) ∉ ([97, 37, 50, 70] : Bytes) := by decide
  obtain ⟨-, -, encodings⟩ := urlDecode_exact [97, 37, 50, 70] [] nulFree
  have encodes : Encoding [97, 37, 50, 70] [97, 47] := encoding_of_decode (by decide)
  obtain ⟨buffer, restored⟩ := encodings [97, 47] (by decide) _ encodes
  exact ⟨nulFree, buffer, restored 5 (by decide)⟩

end Clb.Nginx
