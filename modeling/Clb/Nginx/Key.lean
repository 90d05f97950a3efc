/-
# Clb.Nginx.Key -- from the request to the query

`ngx_http_gridfs_handler` up to the query: the path behind the name of the
location is copied into a buffer, percent-decoded in place, and handed to the
driver as an ObjectId, a number or a string.

nginx has decoded the path before (`request->uri`), so the handler decodes it a
second time.  `key_decoded_once_iff` says for which keys of a string field that
does no harm.
-/
import Clb.Nginx.UrlDecode

namespace Clb.Nginx

open Clb.Lib.Percent

set_option autoImplicit false

/-! ## The driver -/

/-- `trailingBytesForUTF8`. -/
def trailingBytesForUTF8 (c : UInt8) : Nat :=
  if c < 0xC0 then 0 else if c < 0xE0 then 1 else if c < 0xF0 then 2 else if c < 0xF8 then 3
  else if c < 0xFC then 4 else 5

/-- `isLegalUTF8` of a whole sequence: the cases fall through from the last byte to the first. -/
def isLegalUTF8 (source : Bytes) : Bool :=
  let first (a : UInt8) : Bool := !(0x80 ≤ a && a < 0xC2) && !(a > 0xF4)
  let second (a b : UInt8) : Bool :=
    b ≤ 0xBF &&
      (if a = 0xE0 then b ≥ 0xA0 else if a = 0xF0 then b ≥ 0x90 else if a = 0xF4 then b ≤ 0x8F
        else b ≥ 0x80)
  let later (c : UInt8) : Bool := 0x80 ≤ c && c ≤ 0xBF
  match source with
  | [a] => first a
  | [a, b] => second a b && first a
  | [a, b, c] => later c && second a b && first a
  | [a, b, c, d] => later d && later c && second a b && first a
  | _ => false

/-- The loop of `bson_check_string`; a round reads one byte at least. -/
def checkString : Nat → Bytes → Bool
  | 0, _ => true
  | _, [] => true
  | fuel + 1, c :: rest =>
    decide (trailingBytesForUTF8 c ≤ rest.length) &&
      isLegalUTF8 (c :: rest.take (trailingBytesForUTF8 c)) &&
      checkString fuel (rest.drop (trailingBytesForUTF8 c))

/-- `bson_append_string` appends the value. -/
def bsonAppendString (value : Bytes) : Bool :=
  decide (value.length + 1 ≤ 2147483647) && checkString value.length value

/-- `hexbyte`. -/
def hexbyte (hex : UInt8) : UInt8 :=
  if 48 ≤ hex ∧ hex ≤ 57 then hex - 48
  else if 65 ≤ hex ∧ hex ≤ 70 then hex - 65 + 10
  else if 97 ≤ hex ∧ hex ≤ 102 then hex - 97 + 10
  else 0

/-- `bson_oid_from_string`, which reads `str[0]` to `str[23]`. -/
def bsonOidFromString (str : Nat → UInt8) : Bytes :=
  (List.range 12).map fun i => (hexbyte (str (2 * i)) <<< 4) ||| hexbyte (str (2 * i + 1))

/-- `ngx_atoi`. -/
def ngxAtoi (line : Bytes) : Int :=
  let digit (value : Option Nat) (c : UInt8) : Option Nat := do
    let value ← value
    if !isDigit c then none
    else if 922337203685477580 ≤ value ∧
        (922337203685477580 < value ∨ 7 < (c - 48).toNat) then none
    else some (value * 10 + (c - 48).toNat)
  if line = [] then -1 else ((line.foldl digit (some 0)).map Int.ofNat).getD (-1)

/-! ## The handler -/

/-- `gridfs_conf->type`. -/
inductive KeyType where
  | BSON_OID
  | BSON_INT
  | BSON_STRING
deriving DecidableEq, Repr

/-- The value that the query asks for; `nothing` if the driver refuses to append it. -/
inductive KeyQuery where
  | oid (bytes : Bytes)
  | int (n : Int)
  | string (value : Bytes)
  | nothing
deriving DecidableEq, Repr

/-- `RETRIEVE KEY`: the buffer after `url_decode`, or the status of the response. -/
def retrieveKey (locationName uri : Bytes) : Except Nat Bytes :=
  if uri.length < locationName.length then
    .error 500
  else
    let value := uri.drop locationName.length ++ [0]
    match urlDecode value.length value with
    | some (.returned code buffer) => if code = 0 then .error 400 else .ok buffer
    | _ => .error 500  -- never taken, see `retrieveKey_of_encoding` and `retrieveKey_of_refused`

/-- The query that is built from the buffer. `heap` is the memory behind it. -/
def buildQuery (heap : Nat → UInt8) (type : KeyType) (value : Bytes) : KeyQuery :=
  match type with
  | .BSON_OID => .oid (bsonOidFromString fun i => value[i]?.getD (heap i))
  | .BSON_INT => .int ((ngxAtoi (cString value)).bmod (2 ^ 32))
  | .BSON_STRING => if bsonAppendString (cString value) then .string (cString value) else .nothing

def handlerQuery (heap : Nat → UInt8) (type : KeyType) (locationName uri : Bytes) :
    Except Nat KeyQuery :=
  (retrieveKey locationName uri).map (buildQuery heap type)

/-- `request->uri` of a path that nginx changes by the percent-decoding only of what stands behind the
name of the location. -/
def decodedUri (locationName path : Bytes) : Except Nat Bytes :=
  match decode path with
  | none => .error 400
  | some rest => .ok (locationName ++ rest)

/-- The query of such a request. -/
def request (heap : Nat → UInt8) (type : KeyType) (locationName path : Bytes) :
    Except Nat KeyQuery := do
  handlerQuery heap type locationName (← decodedUri locationName path)

/-! ## The key -/

variable {heap : Nat → UInt8} {type : KeyType} {locationName : Bytes}

/-- The buffer that the handler decodes, up to its first terminator. -/
theorem retrieveKey_of_encoding {rest t : Bytes} (encodes : Encoding (cString rest) t) :
    ∃ stale, retrieveKey locationName (locationName ++ rest) = .ok (t ++ 0 :: stale) := by
  obtain ⟨after, split⟩ := exists_cString_append rest
  have enough : (cString rest).length < (rest ++ [0]).length := by simp [split]
  obtain ⟨stale, ran⟩ := urlDecode_encoding after (zero_not_mem_cString rest) enough encodes
  refine ⟨stale, ?_⟩
  unfold retrieveKey
  rw [if_neg (by simp), List.drop_left]
  simp only [split] at ran ⊢
  rw [ran]
  rfl

theorem retrieveKey_of_refused {rest : Bytes} (refused : ¬Escaped (cString rest)) :
    retrieveKey locationName (locationName ++ rest) = .error 400 := by
  obtain ⟨after, split⟩ := exists_cString_append rest
  have enough : (cString rest).length < (rest ++ [0]).length := by simp [split]
  obtain ⟨buffer, ran⟩ := urlDecode_refused after (zero_not_mem_cString rest) enough refused
  unfold retrieveKey
  rw [if_neg (by simp), List.drop_left]
  simp only [split] at ran ⊢
  rw [ran]
  rfl

/-- The key of a string field: not empty, without NUL. -/
structure FileKey where
  bytes : Bytes
  given : bytes ≠ []
  nulFree : 0 ∉ bytes

/-- The request for a percent-encoded key is the query for that key. -/
def QueriesKey (locationName path : Bytes) (k : FileKey) : Prop :=
  ∀ heap, request heap .BSON_STRING locationName path = .ok (.string k.bytes)

theorem handlerQuery_of_encoding {k t : Bytes} (nulFree : 0 ∉ k) (encodes : Encoding k t) :
    ∃ stale, handlerQuery heap type locationName (locationName ++ k) =
      .ok (buildQuery heap type (t ++ 0 :: stale)) := by
  rw [← cString_of_nulFree nulFree] at encodes
  obtain ⟨stale, read⟩ := @retrieveKey_of_encoding locationName _ _ encodes
  refine ⟨stale, ?_⟩
  unfold handlerQuery
  rw [read]
  rfl

/-- A key that is decoded twice is the same key only if it has no percent sign. -/
theorem handlerQuery_string_iff (k : FileKey) :
    handlerQuery heap .BSON_STRING locationName (locationName ++ k.bytes) = .ok (.string k.bytes) ↔
      37 ∉ k.bytes ∧ bsonAppendString k.bytes = true := by
  constructor
  · intro queried
    by_cases escaped : Escaped (cString k.bytes)
    · rw [cString_of_nulFree k.nulFree] at escaped
      obtain ⟨t, encodes⟩ := escaped_iff.mp escaped
      obtain ⟨stale, built⟩ :=
        @handlerQuery_of_encoding heap .BSON_STRING locationName _ _ k.nulFree encodes
      have value : (if bsonAppendString (cString t) then KeyQuery.string (cString t) else .nothing) =
          .string k.bytes := by
        rw [← cString_append t stale]
        exact Except.ok.inj (built.symm.trans queried)
      split at value
      · rename_i accepted
        have same : cString t = k.bytes := KeyQuery.string.inj value
        refine ⟨fun sign => ?_, same ▸ accepted⟩
        have shorter := encodes.length_lt sign
        have cut : (cString t).length ≤ t.length := (List.takeWhile_prefix _).length_le
        rw [same] at cut
        omega
      · cases value
    · unfold handlerQuery at queried
      rw [retrieveKey_of_refused escaped] at queried
      cases queried
  · rintro ⟨without, accepted⟩
    obtain ⟨stale, built⟩ := handlerQuery_of_encoding k.nulFree (encoding_self without)
    rw [built]
    unfold buildQuery
    simp only [cString_append, cString_of_nulFree k.nulFree, accepted, if_true]

/-- **Which keys survive a second decoding.** For every percent-encoding of a key behind the name of
the location, the query is for that key exactly if the key has no percent sign and the driver appends
it, which it does to a text in UTF-8. -/
theorem key_decoded_once_iff (k : FileKey) (path : Bytes) (encodes : Encoding path k.bytes) :
    QueriesKey locationName path k ↔ 37 ∉ k.bytes ∧ bsonAppendString k.bytes = true := by
  have decoded : ∀ heap, request heap .BSON_STRING locationName path =
      handlerQuery heap .BSON_STRING locationName (locationName ++ k.bytes) := by
    intro heap
    unfold request decodedUri
    rw [decode_of_encoding encodes]
    rfl
  constructor
  · intro queried
    exact (handlerQuery_string_iff k).mp ((decoded fun _ => 0).symm.trans (queried fun _ => 0))
  · intro good heap
    rw [decoded]
    exact (handlerQuery_string_iff k).mpr good

/-- The key `a b`, sent as `a%20b`. -/
theorem key_decoded_once_iff_blank :
    Encoding [97, 37, 50, 48, 98] [97, 32, 98] ∧
      QueriesKey [47] [97, 37, 50, 48, 98] ⟨[97, 32, 98], by decide, by decide⟩ := by
  have encodes : Encoding [97, 37, 50, 48, 98] [97, 32, 98] := encoding_of_decode (by decide)
  exact ⟨encodes, (key_decoded_once_iff ⟨[97, 32, 98], by decide, by decide⟩ _ encodes).mpr (by decide)⟩

/-- The key `a%41`, sent as `a%2541`, is looked up as `aA`; the key `100%`, sent as `100%25`, is
rejected. -/
theorem key_decoded_twice :
    request (fun _ => 0) .BSON_STRING [47] [97, 37, 50, 53, 52, 49] = .ok (.string [97, 65]) ∧
      request (fun _ => 0) .BSON_STRING [47] [49, 48, 48, 37, 50, 53] = .error 400 ∧
      Encoding [97, 37, 50, 53, 52, 49] [97, 37, 52, 49] ∧
      ¬QueriesKey [47] [97, 37, 50, 53, 52, 49] ⟨[97, 37, 52, 49], by decide, by decide⟩ := by
  have looked : request (fun _ => 0) .BSON_STRING [47] [97, 37, 50, 53, 52, 49] =
      .ok (.string [97, 65]) := by decide
  refine ⟨looked, by decide, encoding_of_decode (by decide), fun queried => ?_⟩
  have same := Except.ok.inj (looked.symm.trans (queried fun _ => 0))
  exact absurd (KeyQuery.string.inj same) (by decide)

end Clb.Nginx
