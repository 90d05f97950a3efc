/-
# Clb.Nginx.Range -- the Range header parser of the GridFS module

`gridfs_parse_range` walks the header value with a hand-written state machine
and, when the walk ends in a state it accepts, stores two 64-bit numbers.  The
loop is modelled one iteration at a time (`iterate`), the `while` by `loop` with
fuel: a run *returns* when some fuel is enough, because state `done` neither
advances `p` nor leaves the loop.

`off_t` is `Int64` and the stored bounds are `UInt64`, both with the wrapping
arithmetic of the machine.

The specification reads the same header without a state machine: the digits
before the dash and the digits after it (`requestedRange`).
`gridfsParseRange_eq` says that every returning run stores what
`storedRange` computes from these two digit strings, and
`gridfsParseRange_returns_iff` which header values let the loop end.
-/
import Mathlib.Algebra.Group.Nat.Defs
import Mathlib.Data.List.TakeWhile
import Mathlib.Tactic.Common

namespace Clb.Nginx

set_option autoImplicit false

variable {out : UInt64 × UInt64}

abbrev Bytes := List UInt8

/-! ## The state machine -/

/-- `enum { sw_start, ..., sw_done } state`. -/
inductive Sw where
  | start
  | firstBytePos
  | firstBytePosN
  | lastBytePos
  | lastBytePosN
  | done
deriving DecidableEq, Repr

/-- The locals of `gridfs_parse_range` and the two out-parameters.  `p` is the
rest of the header value, from the read position up to `last`. -/
structure ParseState where
  p : Bytes
  state : Sw
  start : Int64
  stop : Int64
  rangeStart : UInt64
  rangeEnd : UInt64
deriving DecidableEq, Repr

/-- `*p < '0' || *p > '9'` negated. -/
def isDigit (c : UInt8) : Bool := 48 ≤ c && c ≤ 57

/-- `*p == ',' || *p == '&' || *p == ';'`. -/
def isSeparator (c : UInt8) : Bool := c == 44 || c == 38 || c == 59

/-- `number * 10 + *p - '0'` in `off_t`. -/
def pushDigit (number : Int64) (c : UInt8) : Int64 :=
  number * 10 + Int64.ofNat c.toNat - 48

/-- `case sw_first_byte_pos_n`, also reached by fall through. -/
def firstBytePosN (s : ParseState) (c : UInt8) (rest : Bytes) : Option ParseState :=
  if c = 45 then some { s with p := rest, state := .lastBytePos }
  else if !isDigit c then none
  else some { s with p := rest, start := pushDigit s.start c }

/-- `case sw_last_byte_pos_n`, also reached by fall through. -/
def lastBytePosN (s : ParseState) (c : UInt8) (rest : Bytes) : Option ParseState :=
  if isSeparator c then some { s with state := .done }
  else if !isDigit c then none
  else some { s with p := rest, stop := pushDigit s.stop c }

/-- One iteration of the `while` at a character `c`; `none` is `bad = 1`, after
which the function returns. -/
def iterate (contentLength : UInt64) (s : ParseState) (c : UInt8) (rest : Bytes) :
    Option ParseState :=
  match s.state with
  | .start | .firstBytePos =>
    if c = 45 then some { s with p := rest, state := .lastBytePos }
    else firstBytePosN { s with start := 0, state := .firstBytePosN } c rest
  | .firstBytePosN => firstBytePosN s c rest
  | .lastBytePos =>
    -- no last byte pos, assume end of file
    if isSeparator c then
      some { s with stop := (contentLength - 1).toInt64, state := .done }
    else lastBytePosN { s with stop := 0, state := .lastBytePosN } c rest
  | .lastBytePosN => lastBytePosN s c rest
  | .done =>
    -- `p` stays where it is
    some { s with rangeStart := s.start.toUInt64, rangeEnd := s.stop.toUInt64 }

/-- Store the pair unless `start > end`. -/
def store (s : ParseState) : UInt64 × UInt64 :=
  if s.start > s.stop then (s.rangeStart, s.rangeEnd)
  else (s.start.toUInt64, s.stop.toUInt64)

/-- The `switch (state)` after the loop. -/
def finish (contentLength : UInt64) (s : ParseState) : UInt64 × UInt64 :=
  match s.state with
  | .lastBytePos => store { s with stop := (contentLength - 1).toInt64 }
  | .lastBytePosN => store s
  | _ => (s.rangeStart, s.rangeEnd)

/-- `while (p < last)`; `none` when the fuel ran out before the function
returned. -/
def loop (contentLength : UInt64) : Nat → ParseState → Option (UInt64 × UInt64)
  | 0, _ => none
  | fuel + 1, s =>
    match s.p with
    | [] => some (finish contentLength s)
    | c :: rest =>
      match iterate contentLength s c rest with
      | none => some (s.rangeStart, s.rangeEnd)
      | some next => loop contentLength fuel next

/-- `ngx_strnstr(s1, s2, len)` with `s2 = first :: more`: the suffix of `s1` at
the first match; the search stops at a NUL. -/
def ngxStrnstr (first : UInt8) (more : Bytes) : Bytes → Option Bytes
  | [] => none
  | c :: rest =>
    if c = 0 then none
    else if c ≠ first then ngxStrnstr first more rest
    else if more.length > rest.length then none
    else if rest.take more.length = more then some (c :: rest)
    else ngxStrnstr first more rest

/-- What follows the first `bytes=` of a header value. -/
def afterBytes (header : Bytes) : Option Bytes :=
  -- "bytes="
  (ngxStrnstr 98 [121, 116, 101, 115, 61] header).map (List.drop 6)

/-- `gridfs_parse_range`, called with `*range_start = *range_end = 0` as the
handler does; the pair the out-parameters hold on return. -/
def gridfsParseRange (fuel : Nat) (header : Bytes) (contentLength : UInt64) :
    Option (UInt64 × UInt64) :=
  match afterBytes header with
  | none => some (0, 0)
  | some p =>
    loop contentLength fuel
      { p, state := .start, start := 0, stop := 0, rangeStart := 0, rangeEnd := 0 }

/-! ## The header read without the machine -/

/-- The decimal number a digit string denotes. -/
def decimal (digits : Bytes) : Nat :=
  digits.foldl (fun number c => number * 10 + (c.toNat - 48)) 0

/-- The digits before and after the dash of `bytes=<first>-<last>`, when the
value has that form and nothing else. -/
def requestedRange (header : Bytes) : Option (Bytes × Bytes) :=
  match afterBytes header with
  | none => none
  | some p =>
    match p.dropWhile isDigit with
    | 45 :: rest => if rest.all isDigit then some (p.takeWhile isDigit, rest) else none
    | _ => none

/-- The last position asked for by the digits after the dash, as an `off_t`; an
absent one is the last byte of the file. -/
def lastPosition (contentLength : UInt64) (rest : Bytes) : Int64 :=
  if rest = [] then (contentLength - 1).toInt64 else Int64.ofNat (decimal rest)

/-- First and last position of a requested range as `off_t` values. -/
def rangeBounds (contentLength : UInt64) (range : Bytes × Bytes) : Int64 × Int64 :=
  (Int64.ofNat (decimal range.1), lastPosition contentLength range.2)

/-- The pair held on return when the walk accepts with the given bounds. -/
def accepted (start stop : Int64) : UInt64 × UInt64 :=
  if start > stop then (0, 0) else (start.toUInt64, stop.toUInt64)

/-- The pair stored for a header value: zeros when no range is requested or its
bounds are in the wrong order. -/
def storedRange (header : Bytes) (contentLength : UInt64) : UInt64 × UInt64 :=
  match requestedRange header with
  | none => (0, 0)
  | some range =>
    accepted (rangeBounds contentLength range).1 (rangeBounds contentLength range).2

/-- A separator right after the digits that follow the dash: the machine goes to
state `done` and leaves the separator unread. -/
def stalls (header : Bytes) : Bool :=
  match afterBytes header with
  | none => false
  | some p =>
    match p.dropWhile isDigit with
    | 45 :: rest => (rest.dropWhile isDigit).head?.any isSeparator
    | _ => false

/-! ## Digits -/

/-- A digit string accumulates to the number it denotes, modulo `2 ^ 64`. -/
theorem foldl_pushDigit (digits : Bytes) (allDigits : digits.all isDigit = true) (number : Nat) :
    digits.foldl pushDigit (Int64.ofNat number) =
      Int64.ofNat (digits.foldl (fun number c => number * 10 + (c.toNat - 48)) number) := by
  induction digits generalizing number with
  | nil => rfl
  | cons c rest ih =>
    simp only [List.all_cons, Bool.and_eq_true] at allDigits
    have low : 48 ≤ c.toNat := by
      have := allDigits.1
      simp only [isDigit, Bool.and_eq_true, decide_eq_true_eq] at this
      simpa using UInt8.le_iff_toNat_le.mp this.1
    have pushed : pushDigit (Int64.ofNat number) c =
        Int64.ofNat (number * 10 + (c.toNat - 48)) := by
      rw [Int64.ofNat_add, Int64.ofNat_mul, Int64.ofNat_sub _ _ low, pushDigit]
      rw [Int64.sub_eq_add_neg, Int64.sub_eq_add_neg, Int64.add_assoc]
      rfl
    simp only [List.foldl_cons, pushed]
    exact ih allDigits.2 _

theorem pushDigit_decimal (digits : Bytes) (allDigits : digits.all isDigit = true) :
    digits.foldl pushDigit 0 = Int64.ofNat (decimal digits) :=
  foldl_pushDigit digits allDigits 0

theorem isDigit_eq_false_of_isSeparator {c : UInt8} (separator : isSeparator c = true) :
    isDigit c = false := by
  simp only [isSeparator, Bool.or_eq_true, beq_iff_eq] at separator
  rcases separator with (rfl | rfl) | rfl <;> decide

theorem isDigit_dash : isDigit 45 = false := by decide

/-! ## What the loop leaves with -/

/-- With some fuel the `while` ends and the out-parameters hold this pair. -/
def Yields (n : UInt64) (s : ParseState) (out : UInt64 × UInt64) : Prop :=
  ∃ fuel, loop n fuel s = some out

section Yields

variable {n : UInt64} {s : ParseState} {c : UInt8} {p rest : Bytes} {start stop : Int64}

/-- One iteration. -/
theorem yields_iff : Yields n s out ↔
    match s.p with
    | [] => finish n s = out
    | c :: rest =>
      match iterate n s c rest with
      | none => (s.rangeStart, s.rangeEnd) = out
      | some next => Yields n next out := by
  constructor
  · rintro ⟨_ | fuel, returns⟩
    · cases returns
    · rw [loop.eq_def] at returns
      revert returns
      dsimp only
      split
      · exact Option.some.inj
      · split
        · exact Option.some.inj
        · exact fun returns => ⟨fuel, returns⟩
  · split
    · rename_i atEnd
      exact fun same => ⟨1, by simp [loop, atEnd, same]⟩
    · rename_i reads
      split
      · rename_i bad
        exact fun same => ⟨1, by simp [loop, reads, bad, same]⟩
      · rename_i moves
        exact fun ⟨fuel, returns⟩ => ⟨fuel + 1, by simpa [loop, reads, moves] using returns⟩

/-- State `done` never leaves the loop. -/
theorem loop_done (n : UInt64) (fuel : Nat) (c : UInt8) (rest : Bytes) (start stop : Int64)
    (rangeStart rangeEnd : UInt64) :
    loop n fuel ⟨c :: rest, .done, start, stop, rangeStart, rangeEnd⟩ = none := by
  induction fuel generalizing rangeStart rangeEnd with
  | zero => rfl
  | succ fuel ih =>
    simp only [loop, iterate]
    exact ih _ _

theorem not_yields_done {rangeStart rangeEnd : UInt64} :
    ¬Yields n ⟨c :: rest, .done, start, stop, rangeStart, rangeEnd⟩ out := by
  rintro ⟨fuel, returns⟩
  rw [loop_done] at returns
  cases returns

/-- What follows the dash, with `last` for the position that its digits denote:
a separator behind the digits stalls the machine, another character leaves the
out-parameters alone. -/
def afterDash (start last : Int64) (p : Bytes) : Option (UInt64 × UInt64) :=
  if (p.dropWhile isDigit).head?.any isSeparator then none
  else some (if p.all isDigit then accepted start last else (0, 0))

theorem yields_lastBytePosN : Yields n ⟨p, .lastBytePosN, start, stop, 0, 0⟩ out ↔
    afterDash start (p.foldl pushDigit stop) p = some out := by
  induction p generalizing stop with
  | nil => simp [yields_iff, finish, store, afterDash, accepted]
  | cons c rest ih =>
    rw [yields_iff]
    by_cases separator : isSeparator c = true
    · have digit := isDigit_eq_false_of_isSeparator separator
      simp [iterate, lastBytePosN, separator, not_yields_done, afterDash, digit]
    · by_cases digit : isDigit c = true
      · simp [iterate, lastBytePosN, separator, digit, ih, afterDash]
      · simp [iterate, lastBytePosN, separator, digit, afterDash]

/-- `sw_last_byte_pos` reads its character as `sw_last_byte_pos_n` with `end = 0`, but a header that
ends here asks for the end of the file. -/
theorem yields_lastBytePos : Yields n ⟨p, .lastBytePos, start, stop, 0, 0⟩ out ↔
    afterDash start (lastPosition n p) p = some out := by
  cases p with
  | nil => simp [yields_iff, finish, store, afterDash, accepted, lastPosition]
  | cons c rest =>
    by_cases separator : isSeparator c = true
    · have digit := isDigit_eq_false_of_isSeparator separator
      rw [yields_iff]
      simp [iterate, separator, not_yields_done, afterDash, digit]
    · have reread : Yields n ⟨c :: rest, .lastBytePos, start, stop, 0, 0⟩ out ↔
          Yields n ⟨c :: rest, .lastBytePosN, start, 0, 0, 0⟩ out := by
        rw [yields_iff, yields_iff]
        simp [iterate, separator]
      rw [reread, yields_lastBytePosN, afterDash, afterDash]
      by_cases allDigits : (c :: rest).all isDigit = true
      · rw [pushDigit_decimal _ allDigits, lastPosition, if_neg (List.cons_ne_nil _ _)]
      · rw [if_neg allDigits, if_neg allDigits]

/-- What the machine makes of a rest of the header that it enters in
`sw_first_byte_pos_n` with `start` already read. -/
def afterFirst (n : UInt64) (start : Int64) (p : Bytes) : Option (UInt64 × UInt64) :=
  match p.dropWhile isDigit with
  | 45 :: rest => afterDash ((p.takeWhile isDigit).foldl pushDigit start) (lastPosition n rest) rest
  | _ => some (0, 0)

theorem yields_firstBytePosN : Yields n ⟨p, .firstBytePosN, start, stop, 0, 0⟩ out ↔
    afterFirst n start p = some out := by
  induction p generalizing start with
  | nil => simp [yields_iff, finish, afterFirst]
  | cons c rest ih =>
    rw [yields_iff]
    by_cases dash : c = 45
    · subst dash
      simp [iterate, firstBytePosN, yields_lastBytePos, afterFirst, isDigit_dash]
    · by_cases digit : isDigit c = true
      · simp [iterate, firstBytePosN, dash, digit, ih, afterFirst]
      · simp [iterate, firstBytePosN, dash, digit, afterFirst]

/-- `sw_start` reads its character as `sw_first_byte_pos_n`. -/
theorem yields_start : Yields n ⟨p, .start, 0, stop, 0, 0⟩ out ↔ afterFirst n 0 p = some out := by
  rw [← @yields_firstBytePosN out n p 0 stop, yields_iff, yields_iff]
  cases p with
  | nil => rfl
  | cons c rest => by_cases dash : c = 45 <;> simp [iterate, firstBytePosN, dash]

/-- The parser returns where the header does not stall it, with the range that the header requests. -/
theorem gridfsParseRange_yields_iff {header : Bytes} :
    (∃ fuel, gridfsParseRange fuel header n = some out) ↔
      stalls header = false ∧ out = storedRange header n := by
  unfold gridfsParseRange stalls storedRange requestedRange
  cases found : afterBytes header with
  | none => simp [eq_comm]
  | some p =>
    refine yields_start.trans ?_
    unfold afterFirst afterDash
    dsimp only
    split
    · rename_i rest dropped
      cases (rest.dropWhile isDigit).head?.any isSeparator with
      | true => simp
      | false =>
        rw [pushDigit_decimal _ (List.all_takeWhile ..)]
        by_cases allDigits : rest.all isDigit = true
        · simp [allDigits, rangeBounds, eq_comm]
        · simp [allDigits, eq_comm]
    · simp [eq_comm]

end Yields

/-- **The parser is its specification**: a run that returns has stored exactly
the range the header requests. -/
theorem gridfsParseRange_eq {fuel : Nat} {header : Bytes} {n : UInt64}
    (returns : gridfsParseRange fuel header n = some out) :
    out = storedRange header n :=
  (gridfsParseRange_yields_iff.mp ⟨fuel, returns⟩).2

/-- **The parser returns exactly on the header values that do not stall it**, whatever the content
length. -/
theorem gridfsParseRange_returns_iff (header : Bytes) (n : UInt64) :
    (∃ fuel out, gridfsParseRange fuel header n = some out) ↔ stalls header = false := by
  constructor
  · rintro ⟨fuel, out, returns⟩
    exact (gridfsParseRange_yields_iff.mp ⟨fuel, returns⟩).1
  · intro free
    obtain ⟨fuel, returns⟩ := gridfsParseRange_yields_iff.mpr ⟨free, rfl⟩
    exact ⟨fuel, _, returns⟩

/-- `bytes=0-,` keeps the worker in the loop. -/
theorem gridfsParseRange_loops :
    ¬ ∃ fuel out, gridfsParseRange fuel [98, 121, 116, 101, 115, 61, 48, 45, 44] 10 = some out := by
  have found : afterBytes [98, 121, 116, 101, 115, 61, 48, 45, 44] = some [48, 45, 44] := by decide
  have moves : ∀ fuel, loop 10 (fuel + 3) ⟨[48, 45, 44], .start, 0, 0, 0, 0⟩ =
      loop 10 fuel ⟨[44], .done, 0, 9, 0, 0⟩ := fun fuel => rfl
  rintro ⟨fuel, out, returns⟩
  unfold gridfsParseRange at returns
  rw [found] at returns
  -- three iterations lead to the separator in state `done`
  match fuel with
  | 0 | 1 | 2 => cases returns
  | fuel + 3 =>
    change loop 10 (fuel + 3) _ = _ at returns
    rw [moves, loop_done] at returns
    cases returns

end Clb.Nginx
