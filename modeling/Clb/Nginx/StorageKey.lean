/-
# Clb.Nginx.StorageKey -- URLs of storage keys at an ObjectId location

`URLBuilder` writes the 24 hexadecimal digits of a storage key, a dot and an
extension, and the handler hands the decoded key to `bson_oid_from_string`,
which reads 24 characters whatever there is, and takes a character that is no
digit for zero.

A path *resolves* (`Resolves`) if a URL of a storage key is answered with that
ObjectId, and if an ObjectId is only asked for when the key spells it, within
the buffer.  `resolves_iff` says which paths do; the URLs with a plain context
and a plain extension do (`resolves_url`).
-/
import Clb.Nginx.Key
import Clb.Nginx.Uri

namespace Clb.Nginx

open Clb.Lib.Percent

set_option autoImplicit false

/-! ## URLs -/

namespace URLBuilder

/-- `getDocURL`. -/
def getDocURL (domain context storageKey ext : Bytes) : Option Bytes :=
  if storageKey = [] then none
  else some (domain ++ 47 :: (context ++ 47 :: (storageKey ++ 46 :: ext)))

/-- `getImageURL`: the extension is `jpg`. -/
def getImageURL (domain context storageKey : Bytes) : Option Bytes :=
  getDocURL domain context storageKey [106, 112, 103]

/-- `getPdfURL`: the extension is `pdf`. -/
def getPdfURL (domain context storageKey : Bytes) : Option Bytes :=
  getDocURL domain context storageKey [112, 100, 102]

end URLBuilder

/-- The 24 digits of an ObjectId. -/
structure StorageKey where
  digits : Bytes
  length : digits.length = 24
  hex : ∀ c ∈ digits, (hexValue c).isSome = true

/-- The key begins with 24 hexadecimal digits that spell the bytes of the ObjectId. -/
def Spells (key oid : Bytes) : Prop :=
  oid.length = 12 ∧ ∀ i < 12, ∃ h l x y, key[2 * i]? = some h ∧ key[2 * i + 1]? = some l ∧
    hexValue h = some x ∧ hexValue l = some y ∧ oid[i]? = some (16 * x + y)

/-- The location of a context. -/
def contextName (context : Bytes) : Bytes := 47 :: (context ++ [47])

/-- The buffer of a request after `url_decode`, if what nginx makes of the path comes to the location
of that name. -/
def requestBuffer (mergeSlashes : Bool) (locationName path : Bytes) : Option (Except Nat Bytes) := do
  let uri ← ngxHttpParseComplexUri mergeSlashes path
  if locationName <+: uri then some (retrieveKey locationName uri) else none

/-- The key of a request, as a string. -/
def requestKey (mergeSlashes : Bool) (locationName path : Bytes) : Option (Except Nat Bytes) :=
  (requestBuffer mergeSlashes locationName path).map (·.map cString)

/-- The query of a request at an ObjectId location. -/
def requestQuery (heap : Nat → UInt8) (mergeSlashes : Bool) (locationName path : Bytes) :
    Option (Except Nat KeyQuery) :=
  (requestBuffer mergeSlashes locationName path).map (·.map (buildQuery heap .BSON_OID))

/-- What an ObjectId location is to do with a path. -/
structure Resolves (mergeSlashes : Bool) (context path : Bytes) : Prop where
  /-- The URL of a storage key is a query for that ObjectId. -/
  built : ∀ (domain ext : Bytes) (k : StorageKey),
    URLBuilder.getDocURL domain context k.digits ext = some (domain ++ path) →
      ∀ heap, ∃ oid, Spells k.digits oid ∧
        requestQuery heap mergeSlashes (contextName context) path = some (.ok (.oid oid))
  /-- An ObjectId is asked for only if the key spells it. -/
  spelled : ∀ heap oid key, requestKey mergeSlashes (contextName context) path = some (.ok key) →
    requestQuery heap mergeSlashes (contextName context) path = some (.ok (.oid oid)) → Spells key oid
  /-- The 24 characters that are read end at the terminator or before it. -/
  within : ∀ key, requestKey mergeSlashes (contextName context) path = some (.ok key) →
    24 ≤ key.length + 1

/-- The first 24 characters are hexadecimal digits. -/
def HexStart (key : Bytes) : Prop := ∀ i < 24, ∃ c, key[i]? = some c ∧ (hexValue c).isSome = true

/-- The key that a path comes to: the URI that nginx makes of it is in the location, and what stands
behind its name, up to a NUL, can be decoded. -/
def KeyOf (mergeSlashes : Bool) (locationName path key : Bytes) : Prop :=
  ∃ rest t, ngxHttpParseComplexUri mergeSlashes path = some (locationName ++ rest) ∧
    Encoding (cString rest) t ∧ key = cString t

/-- The conditions on a path: a URL of a storage key comes to a key that spells the same ObjectId, and
whatever key a path comes to begins with 24 digits. -/
structure Spelled (mergeSlashes : Bool) (context path : Bytes) : Prop where
  built : ∀ (k : StorageKey) ext, path = contextName context ++ (k.digits ++ 46 :: ext) →
    ∃ key oid, KeyOf mergeSlashes (contextName context) path key ∧ Spells k.digits oid ∧ Spells key oid
  digits : ∀ key, KeyOf mergeSlashes (contextName context) path key → HexStart key

/-! ## One request -/

variable {heap : Nat → UInt8} {mergeSlashes : Bool} {locationName context path key oid : Bytes}

theorem requestBuffer_of_keyOf (comes : KeyOf mergeSlashes locationName path key) :
    ∃ buffer, requestBuffer mergeSlashes locationName path = some (.ok buffer) ∧
      cString buffer = key := by
  obtain ⟨rest, t, parsed, encodes, rfl⟩ := comes
  obtain ⟨stale, read⟩ := @retrieveKey_of_encoding locationName _ _ encodes
  refine ⟨t ++ 0 :: stale, ?_, cString_append _ _⟩
  unfold requestBuffer
  rw [parsed, ← read]
  exact if_pos (List.prefix_append _ _)

theorem keyOf_of_requestBuffer {buffer : Bytes}
    (read : requestBuffer mergeSlashes locationName path = some (.ok buffer)) :
    KeyOf mergeSlashes locationName path (cString buffer) := by
  unfold requestBuffer at read
  obtain ⟨uri, parsed, read⟩ := Option.bind_eq_some_iff.mp read
  split at read
  · rename_i inside
    obtain ⟨rest, rfl⟩ := inside
    by_cases escaped : Escaped (cString rest)
    · obtain ⟨t, encodes⟩ := escaped_iff.mp escaped
      obtain ⟨stale, retrieved⟩ := @retrieveKey_of_encoding locationName _ _ encodes
      rw [retrieved] at read
      obtain rfl := Except.ok.inj (Option.some.inj read)
      exact ⟨rest, t, parsed, encodes, cString_append _ _⟩
    · rw [retrieveKey_of_refused escaped] at read
      cases read
  · cases read

/-- What a request asks for, in terms of its key. -/
theorem requestKey_eq_iff :
    requestKey mergeSlashes locationName path = some (.ok key) ↔
      KeyOf mergeSlashes locationName path key := by
  constructor
  · intro found
    obtain ⟨out, read, cut⟩ := Option.map_eq_some_iff.mp found
    cases out with
    | error status => cases cut
    | ok buffer =>
      obtain rfl := Except.ok.inj cut
      exact keyOf_of_requestBuffer read
  · intro comes
    obtain ⟨buffer, read, rfl⟩ := requestBuffer_of_keyOf comes
    unfold requestKey
    rw [read]
    rfl

/-! ## The 24 characters -/

theorem hexbyte_eq {c x : UInt8} (digit : hexValue c = some x) : hexbyte c = x := by
  have same : ∀ c ∈ hexChars, hexValue c = some (hexbyte c) := by decide +kernel
  exact Option.some.inj ((same c (mem_of_hexValue digit)).symm.trans digit)

theorem shifted_or {x y : UInt8} (smallX : x < 16) (smallY : y < 16) :
    (x <<< 4) ||| y = 16 * x + y := by
  have all : ∀ m < 16, ∀ n < 16, (UInt8.ofNat m <<< 4) ||| UInt8.ofNat n =
      16 * UInt8.ofNat m + UInt8.ofNat n := by decide +kernel
  have := all x.toNat smallX y.toNat smallY
  rwa [UInt8.ofNat_toNat, UInt8.ofNat_toNat] at this

theorem HexStart.length_le (start : HexStart key) : 24 ≤ key.length := by
  obtain ⟨c, there, -⟩ := start 23 (by decide)
  exact (List.getElem?_eq_some_iff.mp there).1

theorem Spells.hexStart (spells : Spells key oid) : HexStart key := by
  intro i small
  obtain ⟨h, l, x, y, there, there', high, low, -⟩ := spells.2 (i / 2) (by omega)
  rcases Nat.mod_two_eq_zero_or_one i with even | odd
  · exact ⟨h, (by rwa [show 2 * (i / 2) = i by omega] at there), by simp [high]⟩
  · exact ⟨l, (by rwa [show 2 * (i / 2) + 1 = i by omega] at there'), by simp [low]⟩

/-- A key that begins with 24 digits is read as what they spell. -/
theorem spells_bsonOidFromString {str : Nat → UInt8} (start : HexStart key)
    (read : ∀ i c, key[i]? = some c → str i = c) : Spells key (bsonOidFromString str) := by
  refine ⟨by simp [bsonOidFromString], fun i small => ?_⟩
  obtain ⟨h, high, hexH⟩ := start (2 * i) (by omega)
  obtain ⟨l, low, hexL⟩ := start (2 * i + 1) (by omega)
  obtain ⟨x, valueH⟩ := Option.isSome_iff_exists.mp hexH
  obtain ⟨y, valueL⟩ := Option.isSome_iff_exists.mp hexL
  refine ⟨h, l, x, y, high, low, valueH, valueL, ?_⟩
  unfold bsonOidFromString
  rw [List.getElem?_map, List.getElem?_range small, Option.map_some, read _ _ high, read _ _ low,
    hexbyte_eq valueH, hexbyte_eq valueL, shifted_or (hDigit_eq valueH).2 (hDigit_eq valueL).2]

/-- Digits spell one ObjectId. -/
theorem Spells.unique {oid' : Bytes} (spells : Spells key oid) (spells' : Spells key oid') :
    oid = oid' := by
  refine List.ext_getElem? fun i => ?_
  by_cases small : i < 12
  · obtain ⟨h, l, x, y, there, there', high, low, value⟩ := spells.2 i small
    obtain ⟨h', l', x', y', again, again', high', low', value'⟩ := spells'.2 i small
    obtain rfl := Option.some.inj (there.symm.trans again)
    obtain rfl := Option.some.inj (there'.symm.trans again')
    obtain rfl := Option.some.inj (high.symm.trans high')
    obtain rfl := Option.some.inj (low.symm.trans low')
    exact value.trans value'.symm
  · rw [List.getElem?_eq_none (by have := spells.1; omega),
      List.getElem?_eq_none (by have := spells'.1; omega)]

/-- The query of a request whose key begins with 24 digits. -/
theorem requestQuery_of_hexStart (comes : KeyOf mergeSlashes locationName path key)
    (start : HexStart key) (heap : Nat → UInt8) :
    ∃ oid, requestQuery heap mergeSlashes locationName path = some (.ok (.oid oid)) ∧
      Spells key oid := by
  obtain ⟨buffer, read, rfl⟩ := requestBuffer_of_keyOf comes
  refine ⟨_, by unfold requestQuery; rw [read]; rfl,
    spells_bsonOidFromString start fun i c there => ?_⟩
  obtain ⟨tail, whole⟩ : cString buffer <+: buffer := List.takeWhile_prefix _
  have inside : buffer[i]? = some c := by
    rw [← whole, List.getElem?_append_left (List.getElem?_eq_some_iff.mp there).1, there]
  rw [inside]
  rfl

/-! ## URLs of storage keys -/

theorem cString_append_left {w r : Bytes} (nulFree : 0 ∉ w) : cString (w ++ r) = w ++ cString r := by
  unfold cString
  refine List.takeWhile_append_of_pos fun c member => ?_
  exact bne_iff_ne.mpr fun same => nulFree (same ▸ member)

theorem StorageKey.not_mem (k : StorageKey) {c : UInt8} (other : hexValue c = none) : c ∉ k.digits := by
  intro member
  have digit := k.hex c member
  rw [other] at digit
  cases digit

theorem StorageKey.hexStart (k : StorageKey) (tail : Bytes) : HexStart (k.digits ++ tail) := by
  intro i small
  have inside : i < k.digits.length := by rw [k.length]; exact small
  refine ⟨k.digits[i], ?_, k.hex _ (List.getElem_mem inside)⟩
  rw [List.getElem?_append_left inside, List.getElem?_eq_getElem inside]

theorem StorageKey.spells (k : StorageKey) {tail : Bytes} (spells : Spells (k.digits ++ tail) oid) :
    Spells k.digits oid := by
  refine ⟨spells.1, fun i small => ?_⟩
  have length := k.length
  obtain ⟨h, l, x, y, there, there', values⟩ := spells.2 i small
  rw [List.getElem?_append_left (by omega)] at there there'
  exact ⟨h, l, x, y, there, there', values⟩

theorem getDocURL_eq (domain context ext : Bytes) (k : StorageKey) :
    URLBuilder.getDocURL domain context k.digits ext =
      some (domain ++ (contextName context ++ (k.digits ++ 46 :: ext))) := by
  have given : k.digits ≠ [] := by
    intro none_
    have length := k.length
    rw [none_] at length
    cases length
  unfold URLBuilder.getDocURL contextName
  rw [if_neg given]
  simp

theorem Spelled.resolves (spelled : Spelled mergeSlashes context path) :
    Resolves mergeSlashes context path := by
  refine ⟨fun domain ext k url heap => ?_, fun heap oid key found asked => ?_, fun key found => ?_⟩
  · have built : path = contextName context ++ (k.digits ++ 46 :: ext) := by
      rw [getDocURL_eq] at url
      exact (List.append_cancel_left (Option.some.inj url)).symm
    obtain ⟨key, oid, comes, spells, same⟩ := spelled.built k ext built
    obtain ⟨oid', asked, spells'⟩ := requestQuery_of_hexStart comes same.hexStart heap
    exact ⟨oid, spells, same.unique spells' ▸ asked⟩
  · have comes := requestKey_eq_iff.mp found
    obtain ⟨oid', asked', spells⟩ := requestQuery_of_hexStart comes (spelled.digits key comes) heap
    rw [asked'] at asked
    rwa [← KeyQuery.oid.inj (Except.ok.inj (Option.some.inj asked))]
  · have := (spelled.digits key (requestKey_eq_iff.mp found)).length_le
    omega

/-- **Which paths resolve.** A URL of a storage key has to come to a key that spells the same ObjectId:
its extension is written as it is, and nginx and the handler both decode it. The key of any path has to
begin with 24 digits. -/
theorem resolves_iff : Resolves mergeSlashes context path ↔ Spelled mergeSlashes context path := by
  constructor
  · intro resolves
    refine ⟨fun k ext built => ?_, fun key comes => ?_⟩
    · obtain ⟨oid, spells, asked⟩ := resolves.built [] ext k (built ▸ getDocURL_eq _ _ _ _) fun _ => 0
      obtain ⟨out, read, query⟩ := Option.map_eq_some_iff.mp asked
      cases out with
      | error status => cases query
      | ok buffer =>
        have comes := keyOf_of_requestBuffer read
        exact ⟨_, oid, comes, spells, resolves.spelled _ oid _ (requestKey_eq_iff.mpr comes) asked⟩
    · obtain ⟨buffer, read, rfl⟩ := requestBuffer_of_keyOf comes
      obtain ⟨oid, asked⟩ : ∃ oid, requestQuery (fun _ => 0) mergeSlashes (contextName context) path =
          some (.ok (.oid oid)) := ⟨_, by unfold requestQuery; rw [read]; rfl⟩
      exact (resolves.spelled _ oid _ (requestKey_eq_iff.mpr comes) asked).hexStart
  · exact Spelled.resolves

/-- **The URL of a storage key with a plain context and a plain extension resolves.** -/
theorem resolves_url (k : StorageKey) {ext : Bytes} (plain : PlainSegment context)
    (plainExt : ∀ c ∈ ext, Plain c) :
    Resolves mergeSlashes context (contextName context ++ (k.digits ++ 46 :: ext)) := by
  have digits : ∀ c ∈ k.digits, c ≠ 35 ∧ c ≠ 37 ∧ c ≠ 46 ∧ c ≠ 47 ∧ c ≠ 63 := by
    intro c member
    refine ⟨?_, ?_, ?_, ?_, ?_⟩ <;> (rintro rfl; exact k.not_mem rfl member)
  have segment : PlainSegment (k.digits ++ 46 :: ext) := by
    constructor
    · have length := k.length
      cases start : k.digits with
      | nil => simp [start] at length
      | cons c rest =>
        exact ⟨c, _, rfl, (digits c (start ▸ List.mem_cons_self)).2.2.1⟩
    · simp only [List.forall_mem_append, List.forall_mem_cons]
      refine ⟨fun c member => ?_, by unfold Plain; decide, plainExt⟩
      obtain ⟨hash, percent, -, slash, query⟩ := digits c member
      exact ⟨hash, percent, slash, query⟩
  have parsed : ngxHttpParseComplexUri mergeSlashes
      (contextName context ++ (k.digits ++ 46 :: ext)) =
      some (contextName context ++ (k.digits ++ 46 :: ext)) := by
    have same := @ngxHttpParseComplexUri_plain mergeSlashes _ _ plain segment
    simpa [contextName] using same
  have noSign : (37 : UInt8) ∉ cString (k.digits ++ 46 :: ext) := fun sign =>
    (segment.plain 37 ((List.takeWhile_prefix _).subset sign)).2.1 rfl
  obtain ⟨tail, cut⟩ : ∃ tail, cString (cString (k.digits ++ 46 :: ext)) = k.digits ++ tail := by
    rw [cString_append_left (k.not_mem rfl), cString_append_left (k.not_mem rfl)]
    exact ⟨_, rfl⟩
  have comes : KeyOf mergeSlashes (contextName context)
      (contextName context ++ (k.digits ++ 46 :: ext)) (k.digits ++ tail) :=
    ⟨_, _, parsed, encoding_self noSign, cut.symm⟩
  refine Spelled.resolves ⟨fun k' ext' built => ?_, fun key other => ?_⟩
  · obtain ⟨oid, -, spells⟩ := requestQuery_of_hexStart comes (k.hexStart tail) fun _ => 0
    have same : k'.digits = k.digits := by
      have whole := List.append_cancel_left built
      exact (List.append_inj_left whole (k.length.trans k'.length.symm)).symm
    exact ⟨_, oid, comes, same ▸ k.spells spells, spells⟩
  · have found := requestKey_eq_iff.mpr other
    rw [requestKey_eq_iff.mpr comes] at found
    rw [← Except.ok.inj (Option.some.inj found)]
    exact k.hexStart tail

/-- The path `/d/abc` is a query for an ObjectId that nobody asked for, most of it read from the memory
behind the buffer; 24 letters `z` are a query for the ObjectId zero; the extension of a file named
`a.%zz` makes its URL invalid. -/
theorem short_key_queried :
    requestQuery (fun _ => 55) true [47, 100, 47] [47, 100, 47, 97, 98, 99] =
        some (.ok (.oid [0xab, 0xc0, 0x77, 0x77, 0x77, 0x77, 0x77, 0x77, 0x77, 0x77, 0x77, 0x77])) ∧
      requestQuery (fun _ => 55) true [47, 100, 47] ([47, 100, 47] ++ List.replicate 24 122) =
        some (.ok (.oid (List.replicate 12 0))) ∧
      ngxHttpParseComplexUri true ([47, 100, 47] ++ (List.replicate 24 48 ++ [46, 37, 122, 122])) =
        none ∧
      ¬Resolves true [100] [47, 100, 47, 97, 98, 99] := by
  refine ⟨by decide +kernel, by decide +kernel, by decide +kernel, fun resolves => ?_⟩
  have within := resolves.within [97, 98, 99] (by decide +kernel)
  exact absurd within (by decide)

end Clb.Nginx
