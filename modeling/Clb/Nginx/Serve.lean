/-
# Clb.Nginx.Serve -- headers and body of a GridFS response

`ngx_http_gridfs_handler` from the parsed range on: the status and length
headers, then one buffer per stored chunk handed to the output filter.  The
offsets are `uint64_t` as in the source; every chunk fetch is taken to succeed,
and the filter to refuse nothing but a buffer of size zero.

A range response leaves a chunk out when `range_end <= current_buf_pos`, so a
range whose last byte is the first byte of a chunk loses that byte
(`serveChunks_bytes`), and an empty chunk inside the range ends it
(`serveChunks_broken`).  Outside these cases the loop sends exactly the range and
marks exactly its last buffer (`rangeBody_exact_iff`), and the announced length
is the sent one exactly for the header values that `Served` describes
(`announced_exact_iff`).
-/
import Clb.Lib.Window
import Clb.Nginx.Range

namespace Clb.Nginx

open Clb.Lib

set_option autoImplicit false

/-- A file as the driver hands it out: its chunks in order.  Its length is
stored as a BSON 64-bit integer and announced as an `off_t`. -/
structure StoredFile where
  chunks : List Bytes
  fits : chunks.flatten.length < 2 ^ 63

namespace StoredFile

/-- The concatenation of the chunks. -/
def content (f : StoredFile) : Bytes := f.chunks.flatten

/-- `gridfile_get_contentlength`. -/
def length (f : StoredFile) : UInt64 := UInt64.ofNat f.content.length

theorem fits_zero (f : StoredFile) : 0 + f.chunks.flatten.length < 2 ^ 63 := by
  rw [Nat.zero_add]
  exact f.fits

end StoredFile

/-- The part of an `ngx_buf_t` that reaches the client: the bytes from `pos` to
`last`, and `last_buf`. -/
structure Buf where
  bytes : Bytes
  lastBuf : Bool
deriving DecidableEq, Repr

/-- One round of the serving loop: the buffer passed to the output filter, if any. -/
def serveChunk (rangeStart rangeEnd : UInt64) (numchunks i : Nat) (currentBufPos : UInt64)
    (chunk : Bytes) : Option Buf :=
  let chunkLen := UInt64.ofNat chunk.length
  if rangeStart = 0 ∧ rangeEnd = 0 then
    some { bytes := chunk, lastBuf := i == numchunks - 1 }
  else if rangeStart ≥ currentBufPos + chunkLen ∨ rangeEnd ≤ currentBufPos then
    none
  else
    let pos := if rangeStart ≤ currentBufPos then 0 else (rangeStart - currentBufPos).toNat
    let last := if rangeEnd < currentBufPos + chunkLen then (rangeEnd - currentBufPos + 1).toNat
      else chunk.length
    some
      { bytes := (chunk.take last).drop pos
        lastBuf := i == numchunks - 1 || rangeEnd < currentBufPos + chunkLen }

/-- `ngx_http_output_filter` on a buffer of the handler.  They are all in memory,
so that the write filter takes none for a special one: it answers a buffer of size
zero with NGX_ERROR, also one that is marked last. -/
def ngxHttpOutputFilter (buf : Buf) : Bool := !buf.bytes.isEmpty

/-- `for (i = 0; i < numchunks; i++)`, from round `i` on. -/
def serveChunks (rangeStart rangeEnd : UInt64) (numchunks : Nat) :
    Nat → UInt64 → List Bytes → List Buf
  | _, _, [] => []
  | i, currentBufPos, chunk :: rest =>
    let later := serveChunks rangeStart rangeEnd numchunks (i + 1)
      (currentBufPos + UInt64.ofNat chunk.length) rest
    match serveChunk rangeStart rangeEnd numchunks i currentBufPos chunk with
    | none => later
    -- `if (rc == NGX_ERROR)` the handler returns
    | some buf => buf :: if ngxHttpOutputFilter buf then later else []

/-- The body: one empty last buffer for a file without chunks, else the loop. -/
def sendBody (f : StoredFile) (rangeStart rangeEnd : UInt64) : List Buf :=
  if f.chunks.length = 0 then [{ bytes := [], lastBuf := true }]
  else serveChunks rangeStart rangeEnd f.chunks.length 0 0 f.chunks

/-- What the handler sends: `status`, `content_length_n`, the three numbers of
`Content-Range: bytes %O-%O/%O`, and the buffers. -/
structure Response where
  status : Nat
  contentLength : Int64
  contentRange : Option (Int64 × Int64 × Int64)
  body : List Buf
deriving DecidableEq, Repr

def respond (f : StoredFile) (rangeStart rangeEnd : UInt64) : Response :=
  if rangeStart = 0 ∧ rangeEnd = 0 then
    { status := 200
      contentLength := f.length.toInt64
      contentRange := none
      body := sendBody f rangeStart rangeEnd }
  else
    { status := 206
      contentLength := (rangeEnd - rangeStart + 1).toInt64
      contentRange := some (rangeStart.toInt64, rangeEnd.toInt64, f.length.toInt64)
      body := sendBody f rangeStart rangeEnd }

/-- `ngx_http_gridfs_handler` on a found file and an optional Range header value;
`none` while the parser has not returned within the fuel. -/
def ngxHttpGridfsHandler (fuel : Nat) (range : Option Bytes) (f : StoredFile) : Option Response :=
  match range with
  | none => some (respond f 0 0)
  | some header =>
    (gridfsParseRange fuel header f.length).map fun bounds => respond f bounds.1 bounds.2

/-- The bytes of a list of buffers, in order. -/
def sentBytes (bufs : List Buf) : Bytes := (bufs.map Buf.bytes).flatten

/-- Exactly the last buffer carries `last_buf`. -/
def LastOnly : List Buf → Prop
  | [] => False
  | [b] => b.lastBuf = true
  | b :: rest => b.lastBuf = false ∧ LastOnly rest

/-! ## One round, in natural numbers -/

section Round

variable {rangeStart rangeEnd : UInt64} {numchunks i pos : Nat} {chunk : Bytes}

theorem toNat_advance (fits : pos + chunk.length < 2 ^ 63) :
    (UInt64.ofNat pos + UInt64.ofNat chunk.length).toNat = pos + chunk.length := by
  rw [← UInt64.ofNat_add, UInt64.toNat_ofNat']
  exact Nat.mod_eq_of_lt (by omega)

theorem toNat_position (fits : pos + chunk.length < 2 ^ 63) : (UInt64.ofNat pos).toNat = pos := by
  rw [UInt64.toNat_ofNat']
  exact Nat.mod_eq_of_lt (by omega)

/-- A round that is skipped. -/
theorem serveChunk_skip (fits : pos + chunk.length < 2 ^ 63)
    (ranged : ¬ (rangeStart = 0 ∧ rangeEnd = 0))
    (skip : pos + chunk.length ≤ rangeStart.toNat ∨ rangeEnd.toNat ≤ pos) :
    serveChunk rangeStart rangeEnd numchunks i (UInt64.ofNat pos) chunk = none := by
  have skipped : rangeStart ≥ UInt64.ofNat pos + UInt64.ofNat chunk.length ∨
      rangeEnd ≤ UInt64.ofNat pos := by
    rw [ge_iff_le, UInt64.le_iff_toNat_le, UInt64.le_iff_toNat_le, toNat_advance fits,
      toNat_position fits]
    exact skip
  simp only [serveChunk, if_neg ranged, if_pos skipped]

/-- A round that sends shows the window of the range on its chunk, and is marked
last when it is the last round or the range ends in the chunk. -/
theorem serveChunk_send (fits : pos + chunk.length < 2 ^ 63)
    (ranged : ¬ (rangeStart = 0 ∧ rangeEnd = 0))
    (begun : rangeStart.toNat < pos + chunk.length) (open_ : pos < rangeEnd.toNat) :
    serveChunk rangeStart rangeEnd numchunks i (UInt64.ofNat pos) chunk =
      some { bytes := window pos rangeStart.toNat (rangeEnd.toNat + 1) chunk
             lastBuf := i == numchunks - 1 || rangeEnd.toNat < pos + chunk.length } := by
  have hadvance := toNat_advance fits
  have hpos := toNat_position fits
  have sent : ¬ (rangeStart ≥ UInt64.ofNat pos + UInt64.ofNat chunk.length ∨
      rangeEnd ≤ UInt64.ofNat pos) := by
    rw [ge_iff_le, UInt64.le_iff_toNat_le, UInt64.le_iff_toNat_le, hadvance, hpos]
    omega
  have ends : rangeEnd < UInt64.ofNat pos + UInt64.ofNat chunk.length ↔
      rangeEnd.toNat < pos + chunk.length := by
    rw [UInt64.lt_iff_toNat_lt, hadvance]
  have first : (if rangeStart ≤ UInt64.ofNat pos then 0
      else (rangeStart - UInt64.ofNat pos).toNat) = rangeStart.toNat - pos := by
    split
    · rename_i before
      rw [UInt64.le_iff_toNat_le, hpos] at before
      omega
    · rename_i after
      rw [UInt64.le_iff_toNat_le, hpos] at after
      rw [UInt64.toNat_sub_of_le _ _ (by rw [UInt64.le_iff_toNat_le, hpos]; omega), hpos]
  have stop : (if rangeEnd < UInt64.ofNat pos + UInt64.ofNat chunk.length then
      (rangeEnd - UInt64.ofNat pos + 1).toNat else chunk.length) =
        min (rangeEnd.toNat + 1 - pos) chunk.length := by
    split
    · rename_i inside
      rw [ends] at inside
      rw [UInt64.toNat_add,
        UInt64.toNat_sub_of_le _ _ (by rw [UInt64.le_iff_toNat_le, hpos]; omega), hpos]
      simp only [UInt64.toNat_one]
      rw [Nat.mod_eq_of_lt (by omega)]
      omega
    · rename_i outside
      rw [ends] at outside
      omega
  simp only [serveChunk, if_neg ranged, if_neg sent, first, stop]
  simp only [ends, Option.some.injEq, Buf.mk.injEq, and_true]
  rw [window, List.drop_take, List.take_eq_take_iff, List.length_drop]
  omega

end Round

/-! ## The loop -/

section Loop

variable {rangeStart rangeEnd : UInt64} {numchunks : Nat}

section Cons

variable {i pos : Nat} {chunk : Bytes} {rest : List Bytes} {buf : Buf}

theorem serveChunks_skip
    (skipped : serveChunk rangeStart rangeEnd numchunks i (UInt64.ofNat pos) chunk = none) :
    serveChunks rangeStart rangeEnd numchunks i (UInt64.ofNat pos) (chunk :: rest) =
      serveChunks rangeStart rangeEnd numchunks (i + 1) (UInt64.ofNat (pos + chunk.length)) rest := by
  rw [serveChunks, skipped, UInt64.ofNat_add]

theorem serveChunks_send
    (sent : serveChunk rangeStart rangeEnd numchunks i (UInt64.ofNat pos) chunk = some buf)
    (accepted : buf.bytes ≠ []) :
    serveChunks rangeStart rangeEnd numchunks i (UInt64.ofNat pos) (chunk :: rest) =
      buf :: serveChunks rangeStart rangeEnd numchunks (i + 1)
        (UInt64.ofNat (pos + chunk.length)) rest := by
  simp only [serveChunks, sent, UInt64.ofNat_add, ngxHttpOutputFilter]
  simp [accepted]

theorem serveChunks_refused
    (sent : serveChunk rangeStart rangeEnd numchunks i (UInt64.ofNat pos) chunk = some buf)
    (refused : buf.bytes = []) :
    serveChunks rangeStart rangeEnd numchunks i (UInt64.ofNat pos) (chunk :: rest) = [buf] := by
  simp [serveChunks, sent, ngxHttpOutputFilter, refused]

end Cons

theorem sentBytes_cons (buf : Buf) (bufs : List Buf) :
    sentBytes (buf :: bufs) = buf.bytes ++ sentBytes bufs := rfl

/-- Before the range has begun and after it has ended nothing is sent. -/
theorem serveChunks_silent (ranged : ¬ (rangeStart = 0 ∧ rangeEnd = 0)) (i pos : Nat)
    (chunks : List Bytes) (fits : pos + chunks.flatten.length < 2 ^ 63)
    (outside : rangeEnd.toNat ≤ pos ∨ pos + chunks.flatten.length ≤ rangeStart.toNat) :
    serveChunks rangeStart rangeEnd numchunks i (UInt64.ofNat pos) chunks = [] := by
  induction chunks generalizing i pos with
  | nil => rfl
  | cons chunk rest ih =>
    simp only [List.flatten_cons, List.length_append] at fits outside
    rw [serveChunks_skip (serveChunk_skip (by omega) ranged (by omega)),
      ih _ _ (by omega) (by omega)]

/-- No empty chunk stands strictly between the bounds, where the loop sends it. -/
def Unbroken (pos first last : Nat) (chunks : List Bytes) : Prop :=
  ∀ p ∈ emptyStarts pos chunks, ¬ (first < p ∧ p < last)

theorem Unbroken.tail {pos first last : Nat} {chunk : Bytes} {rest : List Bytes}
    (unbroken : Unbroken pos first last (chunk :: rest)) :
    Unbroken (pos + chunk.length) first last rest :=
  fun p member => unbroken p (mem_emptyStarts_cons.mpr (.inr member))

/-- What is sent of a chunk is not empty then. -/
theorem Unbroken.window_ne_nil {pos first last : Nat} {chunk : Bytes} {rest : List Bytes}
    (unbroken : Unbroken pos first last (chunk :: rest)) (order : first ≤ last)
    (begun : first < pos + chunk.length) (open_ : pos < last) :
    window pos first (last + 1) chunk ≠ [] := by
  have full : chunk ≠ [] := by
    rintro rfl
    exact unbroken pos (mem_emptyStarts_cons.mpr (.inl ⟨rfl, rfl⟩)) ⟨begun, open_⟩
  have := List.length_pos_iff.mpr full
  refine List.length_pos_iff.mp ?_
  rw [length_window]
  omega

/-- An empty chunk inside the range ends the response. -/
theorem serveChunks_broken (ranged : ¬ (rangeStart = 0 ∧ rangeEnd = 0)) (i pos : Nat)
    (chunks : List Bytes) (fits : pos + chunks.flatten.length < 2 ^ 63) {p : Nat}
    (stands : p ∈ emptyStarts pos chunks) (after : rangeStart.toNat < p)
    (before : p < rangeEnd.toNat) :
    (sentBytes (serveChunks rangeStart rangeEnd numchunks i (UInt64.ofNat pos) chunks)).length ≤
      p - max pos rangeStart.toNat := by
  induction chunks generalizing i pos with
  | nil => simp [emptyStarts] at stands
  | cons chunk rest ih =>
    simp only [List.flatten_cons, List.length_append] at fits
    have chunkFits : pos + chunk.length < 2 ^ 63 := by omega
    have here := le_of_mem_emptyStarts stands
    rcases mem_emptyStarts_cons.mp stands with ⟨rfl, rfl⟩ | later
    · rw [serveChunks_refused (serveChunk_send chunkFits ranged (by simpa using after) (by omega))
        (window_nil _ _ _)]
      simp [sentBytes]
    · have tail := ih (i + 1) (pos + chunk.length) (by omega) later
      have next := le_of_mem_emptyStarts later
      by_cases begun : rangeStart.toNat < pos + chunk.length
      · have sent := @serveChunk_send _ _ numchunks i _ _ chunkFits ranged begun (by omega)
        have bytes := length_window pos rangeStart.toNat (rangeEnd.toNat + 1) chunk
        by_cases refused : window pos rangeStart.toNat (rangeEnd.toNat + 1) chunk = []
        · rw [serveChunks_refused sent refused]
          simp [sentBytes, refused]
        · rw [serveChunks_send sent refused, sentBytes_cons, List.length_append, bytes]
          omega
      · rw [serveChunks_skip (serveChunk_skip chunkFits ranged (.inl (by omega)))]
        omega

/-- The bytes of an unbroken range response: the range, less its last byte when a
chunk begins there. -/
theorem serveChunks_bytes (ranged : ¬ (rangeStart = 0 ∧ rangeEnd = 0))
    (order : rangeStart.toNat ≤ rangeEnd.toNat) (i pos : Nat)
    (chunks : List Bytes) (fits : pos + chunks.flatten.length < 2 ^ 63)
    (unbroken : Unbroken pos rangeStart.toNat rangeEnd.toNat chunks) :
    sentBytes (serveChunks rangeStart rangeEnd numchunks i (UInt64.ofNat pos) chunks) =
      window pos rangeStart.toNat
        (if rangeEnd.toNat ∈ chunkStarts pos chunks then rangeEnd.toNat else rangeEnd.toNat + 1)
        chunks.flatten := by
  induction chunks generalizing i pos with
  | nil => simp [serveChunks, sentBytes]
  | cons chunk rest ih =>
    simp only [List.flatten_cons, List.length_append] at fits
    have chunkFits : pos + chunk.length < 2 ^ 63 := by omega
    have tail := ih (i + 1) (pos + chunk.length) (by omega) unbroken.tail
    rw [List.flatten_cons, window_append]
    by_cases ended : rangeEnd.toNat ≤ pos
    · -- the chunk and all that follow lie at or after the end of the range
      rw [serveChunks_skip (serveChunk_skip chunkFits ranged (.inr ended)),
        serveChunks_silent ranged _ _ _ (by omega) (by omega)]
      have closes : (if rangeEnd.toNat ∈ chunkStarts pos (chunk :: rest) then rangeEnd.toNat
          else rangeEnd.toNat + 1) ≤ pos := by
        by_cases here : rangeEnd.toNat = pos
        · simp [chunkStarts, here]
        · split <;> omega
      rw [window_eq_nil_of_le _ _ _ _ closes, window_eq_nil_of_le _ _ _ _ (by omega)]
      rfl
    · have starts : rangeEnd.toNat ∈ chunkStarts pos (chunk :: rest) ↔
          rangeEnd.toNat ∈ chunkStarts (pos + chunk.length) rest := by
        have ne : rangeEnd.toNat ≠ pos := by omega
        simp [chunkStarts, ne]
      simp only [starts]
      rw [← tail]
      by_cases begun : rangeStart.toNat < pos + chunk.length
      · rw [serveChunks_send (serveChunk_send chunkFits ranged begun (by omega))
          (unbroken.window_ne_nil order begun (by omega)), sentBytes_cons,
          List.append_cancel_right_eq]
        split
        · rename_i later
          have := le_of_mem_chunkStarts later
          exact window_congr_end _ _ _ _ _ (by omega) (by omega)
        · rfl
      · rw [serveChunks_skip (serveChunk_skip chunkFits ranged (.inl (by omega))),
          window_eq_nil_of_past _ _ _ _ (by omega)]
        rfl

/-- Without a range the chunks are sent up to the first empty one. -/
theorem serveChunks_whole_iff (i pos : Nat) (chunks : List Bytes) :
    (sentBytes (serveChunks 0 0 numchunks i (UInt64.ofNat pos) chunks)).length =
        chunks.flatten.length ↔
      ∀ p ∈ emptyStarts pos chunks, pos + chunks.flatten.length ≤ p := by
  induction chunks generalizing i pos with
  | nil => simp [serveChunks, sentBytes, emptyStarts]
  | cons chunk rest ih =>
    have sent : serveChunk 0 0 numchunks i (UInt64.ofNat pos) chunk =
        some { bytes := chunk, lastBuf := i == numchunks - 1 } := rfl
    have tail := ih (i + 1) (pos + chunk.length)
    simp only [List.flatten_cons, List.length_append, mem_emptyStarts_cons]
    by_cases empty : chunk = []
    · rw [serveChunks_refused sent empty]
      subst empty
      simp only [sentBytes, List.map_cons, List.map_nil, List.flatten_nil, List.append_nil,
        List.flatten_cons, List.length_nil, Nat.zero_add, Nat.add_zero, true_and]
      constructor
      · rintro none p (rfl | later)
        · omega
        · have := le_of_mem_emptyStarts later
          omega
      · intro ends
        have := ends pos (.inl rfl)
        omega
    · rw [serveChunks_send sent empty, sentBytes_cons, List.length_append,
        Nat.add_left_cancel_iff, tail]
      simp only [empty, false_and, false_or, Nat.add_assoc]

theorem lastOnly_cons {b : Buf} {rest : List Buf} (unmarked : b.lastBuf = false)
    (tail : LastOnly rest) : LastOnly (b :: rest) := by
  cases rest with
  | nil => exact tail.elim
  | cons c rest => exact ⟨unmarked, tail⟩

/-- When the range ends inside a chunk, the buffer of that chunk is the only one
marked, and it is the last. -/
theorem serveChunks_lastOnly (ranged : ¬ (rangeStart = 0 ∧ rangeEnd = 0)) (i pos : Nat)
    (chunks : List Bytes) (fits : pos + chunks.flatten.length < 2 ^ 63)
    (round : i + chunks.length = numchunks) (order : rangeStart.toNat ≤ rangeEnd.toNat)
    (after : pos ≤ rangeEnd.toNat) (inside : rangeEnd.toNat < pos + chunks.flatten.length)
    (aligned : rangeEnd.toNat ∉ chunkStarts pos chunks)
    (unbroken : Unbroken pos rangeStart.toNat rangeEnd.toNat chunks) :
    LastOnly (serveChunks rangeStart rangeEnd numchunks i (UInt64.ofNat pos) chunks) := by
  induction chunks generalizing i pos with
  | nil => simp at inside; omega
  | cons chunk rest ih =>
    simp only [List.flatten_cons, List.length_append] at fits inside
    simp only [chunkStarts, List.mem_cons, not_or] at aligned
    have chunkFits : pos + chunk.length < 2 ^ 63 := by omega
    by_cases here : rangeEnd.toNat < pos + chunk.length
    · rw [serveChunks_send (serveChunk_send chunkFits ranged (by omega) (by omega))
          (unbroken.window_ne_nil order (by omega) (by omega)),
        serveChunks_silent ranged _ _ _ (by omega) (by omega)]
      simp [LastOnly, here]
    · have tail := ih (i + 1) (pos + chunk.length) (by omega)
        (by simp only [List.length_cons] at round; omega) (by omega) (by omega) aligned.2
        unbroken.tail
      by_cases begun : rangeStart.toNat < pos + chunk.length
      · rw [serveChunks_send (serveChunk_send chunkFits ranged begun (by omega))
          (unbroken.window_ne_nil order begun (by omega))]
        have notLast : i ≠ numchunks - 1 := by
          cases rest with
          | nil => simp at inside; omega
          | cons _ _ => simp only [List.length_cons] at round; omega
        exact lastOnly_cons (by simp [here, notLast]) tail
      · rw [serveChunks_skip (serveChunk_skip chunkFits ranged (.inl (by omega)))]
        exact tail

end Loop

/-! ## Range bodies -/

/-- The buffers of the serving loop are exactly the bytes `start..end` of the
file, and exactly the last of them carries `last_buf`. -/
def RangeBodyExact (f : StoredFile) (rangeStart rangeEnd : UInt64) : Prop :=
  let bufs := serveChunks rangeStart rangeEnd f.chunks.length 0 0 f.chunks
  sentBytes bufs =
      (f.content.drop rangeStart.toNat).take (rangeEnd.toNat + 1 - rangeStart.toNat) ∧
    LastOnly bufs

/-- **A range body is exact unless the range ends on the first byte of a chunk** or
an empty chunk stands inside it. -/
theorem rangeBody_exact_iff (f : StoredFile) (rangeStart rangeEnd : UInt64)
    (order : rangeStart ≤ rangeEnd) (inFile : rangeEnd.toNat < f.content.length)
    (ranged : ¬ (rangeStart = 0 ∧ rangeEnd = 0)) :
    RangeBodyExact f rangeStart rangeEnd ↔ rangeEnd.toNat ∉ chunkStarts 0 f.chunks ∧
      Unbroken 0 rangeStart.toNat rangeEnd.toNat f.chunks := by
  rw [UInt64.le_iff_toNat_le] at order
  unfold RangeBodyExact
  rw [show (0 : UInt64) = UInt64.ofNat 0 from rfl]
  constructor
  · rintro ⟨exact_, -⟩
    have lengths := congrArg List.length exact_
    simp only [List.length_take, List.length_drop, StoredFile.content] at lengths
    simp only [StoredFile.content] at inFile
    have unbroken : Unbroken 0 rangeStart.toNat rangeEnd.toNat f.chunks := by
      rintro p stands ⟨after, before⟩
      have := @serveChunks_broken _ _ f.chunks.length ranged 0 0 f.chunks f.fits_zero p stands after before
      omega
    refine ⟨fun starts => ?_, unbroken⟩
    rw [serveChunks_bytes ranged order 0 0 f.chunks f.fits_zero unbroken, if_pos starts,
      length_window] at lengths
    omega
  · rintro ⟨aligned, unbroken⟩
    refine ⟨?_, ?_⟩
    · rw [serveChunks_bytes ranged order 0 0 f.chunks f.fits_zero unbroken, if_neg aligned, window_zero]
      rfl
    · exact serveChunks_lastOnly ranged 0 0 f.chunks f.fits_zero (by omega) order (by omega)
        (by simpa [StoredFile.content] using inFile) aligned unbroken

/-- Two chunks of two bytes. -/
def twoChunks : StoredFile := { chunks := [[1, 2], [3, 4]], fits := by decide }

theorem rangeBody_exact_iff_twoChunks :
    RangeBodyExact twoChunks 1 3 ↔ (3 : UInt64).toNat ∉ chunkStarts 0 twoChunks.chunks ∧
      Unbroken 0 (1 : UInt64).toNat (3 : UInt64).toNat twoChunks.chunks :=
  rangeBody_exact_iff twoChunks 1 3 (by decide) (by decide) (by decide)

/-- Bytes `0..2` of a file whose second chunk begins at `2`: the third byte is
not sent and no buffer is marked last. -/
theorem rangeBody_not_exact :
    ¬ ∀ f : StoredFile, (∀ chunk ∈ f.chunks, chunk ≠ []) →
      ∀ rangeStart rangeEnd : UInt64, rangeStart ≤ rangeEnd →
        rangeEnd.toNat < f.content.length → ¬ (rangeStart = 0 ∧ rangeEnd = 0) →
        RangeBodyExact f rangeStart rangeEnd := by
  intro always
  have sent := (always twoChunks (by decide) 0 2 (by decide) (by decide) (by decide)).1
  exact absurd sent (by decide)

/-! ## Announced and sent length -/

/-- `Content-Length` is the number of bytes sent, and the bounds a 206 announces
are positions of the file in order. -/
def Announced (f : StoredFile) (r : Response) : Prop :=
  r.contentLength.toInt = (sentBytes r.body).length ∧
    (r.status = 206 → ∃ start stop total, r.contentRange = some (start, stop, total) ∧
      start.toInt ≤ stop.toInt ∧ stop.toInt < f.content.length)

/-- No byte follows an empty chunk. -/
def SentWhole (f : StoredFile) : Prop := ∀ p ∈ emptyStarts 0 f.chunks, f.content.length ≤ p

/-- The header values that are served as announced.  If no range is requested, or
its bounds are in the wrong order or both zero, the whole file is sent, and no byte
may follow an empty chunk.  Otherwise the bounds are positions of the file in
order, no chunk begins at the last one, and no empty chunk stands between them.
Bounds are read modulo `2 ^ 64`. -/
def Served (f : StoredFile) (range : Option Bytes) : Prop :=
  match range.bind requestedRange with
  | none => SentWhole f
  | some requested =>
    let bounds := rangeBounds f.length requested
    ((bounds.2 < bounds.1 ∨ (bounds.1 = 0 ∧ bounds.2 = 0)) ∧ SentWhole f) ∨
      (0 ≤ bounds.1.toInt ∧ bounds.1.toInt ≤ bounds.2.toInt ∧
        bounds.2.toInt < f.content.length ∧
        bounds.2.toInt.toNat ∉ chunkStarts 0 f.chunks ∧
        Unbroken 0 bounds.1.toInt.toNat bounds.2.toInt.toNat f.chunks)

theorem respond_whole_announced_iff (f : StoredFile) :
    Announced f (respond f 0 0) ↔ SentWhole f := by
  have fits := f.fits
  have announced : f.length.toInt64.toInt = f.content.length := by
    rw [StoredFile.length, UInt64.toInt64_ofNat']
    exact Int64.toInt_ofNat_of_lt fits
  have body : (sentBytes (sendBody f 0 0)).length = f.content.length ↔ SentWhole f := by
    unfold sendBody SentWhole StoredFile.content
    split
    · rename_i empty
      rw [List.length_eq_zero_iff] at empty
      simp [sentBytes, emptyStarts, empty]
    · have sent := @serveChunks_whole_iff f.chunks.length 0 0 f.chunks
      rwa [Nat.zero_add] at sent
  simp only [Announced, respond, and_self, if_true, announced, ← body]
  constructor
  · rintro ⟨same, -⟩
    omega
  · exact fun same => ⟨by omega, fun partly => absurd partly (by decide)⟩

/-- The number of bytes sent for an unbroken range. -/
theorem length_sendBody (f : StoredFile) {rangeStart rangeEnd : UInt64}
    (ranged : ¬ (rangeStart = 0 ∧ rangeEnd = 0)) (order : rangeStart.toNat ≤ rangeEnd.toNat)
    (unbroken : Unbroken 0 rangeStart.toNat rangeEnd.toNat f.chunks) :
    (sentBytes (sendBody f rangeStart rangeEnd)).length =
      min (if rangeEnd.toNat ∈ chunkStarts 0 f.chunks then rangeEnd.toNat
        else rangeEnd.toNat + 1) f.content.length - rangeStart.toNat := by
  unfold sendBody
  split
  · rename_i empty
    rw [List.length_eq_zero_iff] at empty
    simp [sentBytes, StoredFile.content, empty]
  · rw [show (0 : UInt64) = UInt64.ofNat 0 from rfl,
      serveChunks_bytes ranged order 0 0 f.chunks f.fits_zero unbroken, length_window]
    simp [StoredFile.content]

/-- An empty chunk inside the range leaves bytes out. -/
theorem length_sendBody_broken (f : StoredFile) {rangeStart rangeEnd : UInt64}
    (ranged : ¬ (rangeStart = 0 ∧ rangeEnd = 0))
    (broken : ¬ Unbroken 0 rangeStart.toNat rangeEnd.toNat f.chunks) :
    (sentBytes (sendBody f rangeStart rangeEnd)).length < rangeEnd.toNat - rangeStart.toNat := by
  simp only [Unbroken, not_forall, not_not] at broken
  obtain ⟨p, stands, after, before⟩ := broken
  unfold sendBody
  split
  · simp only [sentBytes, List.map_cons, List.map_nil, List.flatten_cons, List.flatten_nil,
      List.append_nil, List.length_nil]
    omega
  · have := @serveChunks_broken _ _ f.chunks.length ranged 0 0 f.chunks f.fits_zero p stands after before
    rw [show (0 : UInt64) = UInt64.ofNat 0 from rfl]
    omega

/-- A range that begins past the file is sent no byte of. -/
theorem length_sendBody_past (f : StoredFile) {rangeStart rangeEnd : UInt64}
    (ranged : ¬ (rangeStart = 0 ∧ rangeEnd = 0)) (past : f.content.length ≤ rangeStart.toNat) :
    (sentBytes (sendBody f rangeStart rangeEnd)).length = 0 := by
  unfold sendBody
  split
  · rfl
  · rw [show (0 : UInt64) = UInt64.ofNat 0 from rfl,
      serveChunks_silent ranged 0 0 f.chunks f.fits_zero (.inr (by simpa [StoredFile.content] using past))]
    rfl

theorem zero_mem_chunkStarts {f : StoredFile} (inFile : (0 : Int64).toInt < f.content.length) :
    (0 : Int64).toInt.toNat ∈ chunkStarts 0 f.chunks := by
  unfold StoredFile.content at inFile
  cases chunks : f.chunks with
  | nil => simp [chunks] at inFile
  | cons chunk rest => exact List.mem_cons_self

theorem toUInt64_eq_zero_iff {first last : Int64} :
    (first.toUInt64 = 0 ∧ last.toUInt64 = 0) ↔ first = 0 ∧ last = 0 := by
  constructor
  · rintro ⟨hfirst, hlast⟩
    exact ⟨by rw [← Int64.toInt64_toUInt64 first, hfirst]; rfl,
      by rw [← Int64.toInt64_toUInt64 last, hlast]; rfl⟩
  · rintro ⟨rfl, rfl⟩
    exact ⟨rfl, rfl⟩

/-- A partial response is announced exactly when its bounds are positions of the
file, no chunk begins at the last one and no empty chunk stands between them. -/
theorem respond_partial_announced_iff (f : StoredFile) (first last : Int64)
    (order : first ≤ last) (ranged : ¬ (first = 0 ∧ last = 0)) :
    Announced f (respond f first.toUInt64 last.toUInt64) ↔
      0 ≤ first.toInt ∧ first.toInt ≤ last.toInt ∧ last.toInt < f.content.length ∧
        last.toInt.toNat ∉ chunkStarts 0 f.chunks ∧
        Unbroken 0 first.toInt.toNat last.toInt.toNat f.chunks := by
  have fits : f.content.length < 2 ^ 63 := f.fits
  have ranged' : ¬ (first.toUInt64 = 0 ∧ last.toUInt64 = 0) :=
    fun zeros => ranged (toUInt64_eq_zero_iff.mp zeros)
  rw [Int64.le_iff_toInt_le] at order
  have length : (last.toUInt64 - first.toUInt64 + 1).toInt64 = last - first + 1 := rfl
  simp only [Announced, respond, if_neg ranged', length, true_implies, Option.some.injEq,
    Prod.mk.injEq]
  have lowFirst := first.le_toInt
  have highLast := last.toInt_lt
  by_cases inFile : last.toInt < f.content.length
  · by_cases negative : 0 ≤ first.toInt
    · have hfirst : first.toUInt64.toNat = first.toInt.toNat :=
        Int64.toNat_toUInt64_of_le (by rwa [Int64.le_iff_toInt_le])
      have hlast : last.toUInt64.toNat = last.toInt.toNat :=
        Int64.toNat_toUInt64_of_le (by rw [Int64.le_iff_toInt_le]; simpa using by omega)
      have announced : (last - first + 1).toInt = last.toInt - first.toInt + 1 := by
        rw [Int64.toInt_add, Int64.toInt_sub]
        simp only [Int64.toInt_one, Int.bmod]
        omega
      rw [← hfirst, ← hlast, announced]
      by_cases unbroken : Unbroken 0 first.toUInt64.toNat last.toUInt64.toNat f.chunks
      · rw [length_sendBody f ranged' (by omega) unbroken]
        constructor
        · rintro ⟨sent, -⟩
          refine ⟨negative, order, inFile, fun starts => ?_, unbroken⟩
          rw [if_pos starts] at sent
          omega
        · rintro ⟨-, -, -, aligned, -⟩
          rw [if_neg aligned]
          exact ⟨by omega, _, _, _, ⟨rfl, rfl, rfl⟩, order, inFile⟩
      · refine iff_of_false ?_ fun served => unbroken served.2.2.2.2
        rintro ⟨sent, -⟩
        have := length_sendBody_broken f ranged' unbroken
        omega
    · -- a negative first position is past every chunk, so nothing is sent
      refine iff_of_false ?_ (fun h => negative h.1)
      rintro ⟨sent, -⟩
      have huge : f.content.length ≤ first.toUInt64.toNat := by
        have signed : first.toInt = first.toUInt64.toBitVec.toInt := rfl
        rw [signed, BitVec.toInt_eq_toNat_cond] at negative
        have bits : first.toUInt64.toNat = first.toUInt64.toBitVec.toNat := rfl
        rw [bits]
        split at negative <;> omega
      rw [length_sendBody_past f ranged' huge, Int64.toInt_add, Int64.toInt_sub] at sent
      simp only [Int64.toInt_one, Int.bmod] at sent
      omega
  · refine iff_of_false ?_ (fun h => inFile h.2.2.1)
    rintro ⟨-, _, _, _, ⟨-, rfl, -⟩, -, below⟩
    exact inFile (by simpa using below)

/-- **The announced length is the sent length exactly for the served headers.** -/
theorem announced_exact_iff {fuel : Nat} {range : Option Bytes} {f : StoredFile} {r : Response}
    (returns : ngxHttpGridfsHandler fuel range f = some r) : Announced f r ↔ Served f range := by
  cases range with
  | none =>
    obtain rfl := Option.some.inj returns
    exact respond_whole_announced_iff f
  | some header =>
    simp only [ngxHttpGridfsHandler, Option.map_eq_some_iff] at returns
    obtain ⟨bounds, parsed, rfl⟩ := returns
    rw [gridfsParseRange_eq parsed, storedRange]
    simp only [Served, Option.bind_some]
    cases requestedRange header with
    | none => exact respond_whole_announced_iff f
    | some requested =>
      simp only [accepted]
      split
      · rename_i wrongOrder
        have wrong := Int64.lt_iff_toInt_lt.mp wrongOrder
        rw [respond_whole_announced_iff]
        refine ⟨fun whole => .inl ⟨.inl wrongOrder, whole⟩, ?_⟩
        rintro (⟨-, whole⟩ | ⟨-, order, -⟩)
        · exact whole
        · omega
      · rename_i order
        have order' : (rangeBounds f.length requested).1 ≤ (rangeBounds f.length requested).2 :=
          Int64.not_lt.mp order
        by_cases zeros : (rangeBounds f.length requested).1 = 0 ∧
            (rangeBounds f.length requested).2 = 0
        · rw [zeros.1, zeros.2]
          refine (respond_whole_announced_iff f).trans
            ⟨fun whole => .inl ⟨.inr ⟨rfl, rfl⟩, whole⟩, ?_⟩
          rintro (⟨-, whole⟩ | ⟨-, -, inFile, unaligned, -⟩)
          · exact whole
          · -- the first chunk begins at the position zero
            exact absurd (zero_mem_chunkStarts inFile) unaligned
        · rw [respond_partial_announced_iff f _ _ order' zeros]
          simp only [gt_iff_lt] at order
          simp only [order, zeros, or_self, false_and, false_or]

/-- `bytes=1-3` of the two-chunk file. -/
theorem announced_exact_iff_twoChunks :
    Announced twoChunks (respond twoChunks 1 3) ↔
      Served twoChunks (some [98, 121, 116, 101, 115, 61, 49, 45, 51]) :=
  @announced_exact_iff 4 _ _ _ (by decide)

/-- `bytes=0-9` on a four-byte file announces ten bytes and sends four. -/
theorem not_announced :
    ¬ ∀ (fuel : Nat) (range : Option Bytes) (f : StoredFile) (r : Response),
      ngxHttpGridfsHandler fuel range f = some r → Announced f r := by
  intro always
  have announced := (always 4 (some [98, 121, 116, 101, 115, 61, 48, 45, 57]) twoChunks
    (respond twoChunks 0 9) (by decide)).1
  exact absurd announced (by decide)

end Clb.Nginx
