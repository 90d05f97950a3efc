/-
# Dao.ChunkStatus -- the upload status rows and their chunk maps

`clb_chunk_status` holds one row per chunked upload. The set of received chunks is a bit set, stored
as Base64 text in a `text` column of 65535 bytes. `serialize_fits_iff` says which sets that column
holds, `loadChunkMap_updateChunkMap` that reading gives back the written set, and `numOfChunk_eq`
that the floating point count of the chunks is the exact one for every file whose chunk numbers the
column can hold. -/
import Clb.Lib.Base64
import Clb.Lib.Binary64
import Clb.Lib.BitSet
import Clb.Lib.Pieces
import Clb.Dao.Tables

set_option autoImplicit false

namespace Clb

structure DocChunkStatus where
  id : Int := 0
  chunkSize : Int := 0
  appid : Int := 0
  docid : Int := 0
  version : Int := 0
  currentChunkIndex : Int := 0
  status : Option Text := none
  numOfChunk : Int := 0
  chunkMap : Option Text := none
  fileSize : Int := 0
  md5 : Option Text := none
deriving DecidableEq, Repr

namespace BitSetUtil

open Clb.Lib

/-- `BitSetUtil.deserialize`. The column only ever holds texts that `serialize` wrote, so that the
decoder does not meet a malformed text. -/
def deserialize : Option Text → Finset Nat
  | none => ∅
  | some src => if src = [] then ∅ else BitSet.valueOf (Base64.decode src)

def serialize (bitSet : Finset Nat) : Option Text :=
  some (Base64.encode (BitSet.toByteArray bitSet))

theorem deserialize_serialize (bitSet : Finset Nat) : deserialize (serialize bitSet) = bitSet := by
  unfold deserialize serialize
  dsimp only
  split
  · rename_i empty
    rw [Base64.encode_eq_nil_iff] at empty
    rw [← BitSet.valueOf_toByteArray bitSet, empty]
    rfl
  · rw [Base64.decode_encode, BitSet.valueOf_toByteArray]

end BitSetUtil

namespace DocChunkStatus

def loadChunkMap (dcs : DocChunkStatus) : Finset Nat := BitSetUtil.deserialize dcs.chunkMap

def updateChunkMap (bitSet : Finset Nat) (dcs : DocChunkStatus) : DocChunkStatus :=
  { dcs with chunkMap := BitSetUtil.serialize bitSet }

/-- `DocChunkStatus.findEmptyChunk`, in increasing order as a `TreeSet` iterates. -/
def findEmptyChunk (dcs : DocChunkStatus) : List Nat :=
  (List.range dcs.numOfChunk.toNat).filter fun i => decide (i ∉ dcs.loadChunkMap)

@[simp] theorem loadChunkMap_updateChunkMap (bitSet : Finset Nat) (dcs : DocChunkStatus) :
    (dcs.updateChunkMap bitSet).loadChunkMap = bitSet :=
  BitSetUtil.deserialize_serialize bitSet

theorem mem_findEmptyChunk {dcs : DocChunkStatus} {i : Nat} :
    i ∈ dcs.findEmptyChunk ↔ (i : Int) < dcs.numOfChunk ∧ i ∉ dcs.loadChunkMap := by
  simp only [findEmptyChunk, List.mem_filter, List.mem_range, decide_eq_true_eq]
  exact and_congr_left' (by omega)

end DocChunkStatus

end Clb

namespace Clb.Dao

open Clb.Lib

/-- The length of a `text` column. -/
def textLimit : Nat := 65535

/-- A `text` column that holds Base64, of which each character is one byte. -/
def base64Text (value : Option Text) : Bool := value.all fun t => t.length ≤ textLimit

/-- The number of chunks that a map of `textLimit` characters can name. -/
def mapLimit : Nat := 393192

theorem serialize_fits_iff (bitSet : Finset Nat) :
    base64Text (BitSetUtil.serialize bitSet) = true ↔ ∀ i ∈ bitSet, i < mapLimit := by
  simp only [base64Text, BitSetUtil.serialize, Option.all_some, decide_eq_true_eq,
    Base64.length_encode, BitSet.length_toByteArray, ← BitSet.length_le_iff, textLimit, mapLimit]
  omega

def docChunkStatusDAO : BaseDAO DocChunkStatus where
  fields :=
    [number "id" (·.id) fun n t => { t with id := n },
      number "chunkSize" (·.chunkSize) fun n t => { t with chunkSize := n },
      number "appid" (·.appid) fun n t => { t with appid := n },
      number "docid" (·.docid) fun n t => { t with docid := n },
      number "version" (·.version) fun n t => { t with version := n },
      number "currentChunkIndex" (·.currentChunkIndex) fun n t => { t with currentChunkIndex := n },
      text "status" (·.status) fun v t => { t with status := v },
      number "numOfChunk" (·.numOfChunk) fun n t => { t with numOfChunk := n },
      text "chunkMap" (·.chunkMap) fun v t => { t with chunkMap := v },
      number "fileSize" (·.fileSize) fun n t => { t with fileSize := n },
      text "md5" (·.md5) fun v t => { t with md5 := v }]
  getId := (·.id)
  setId n t := { t with id := n }
  fits t := t.status.isSome && varchar .latin1 20 t.status && t.md5.isSome &&
    varchar .utf8 255 t.md5 && base64Text t.chunkMap
  clash t row := t.appid == row.appid && t.docid == row.docid && t.version == row.version

/-- The cast `(int)` of an integral double. -/
def toInt (n : Int) : Int := max (-2147483648) (min n 2147483647)

/-- `(int) Math.ceil(fileSize * 1.0 / chunkSize)`: for a zero divisor the quotient is an infinity or
NaN, and the cast gives the ends of the range or zero. -/
def numOfChunk (fileSize chunkSize : Int) : Int :=
  if chunkSize = 0 then
    if fileSize = 0 then 0 else if 0 < fileSize then 2147483647 else -2147483648
  else
    toInt ⌈Binary64.round (Binary64.round fileSize / chunkSize)⌉

namespace DocChunkStatusDAO

def create (appid docid fileSize : Int) (md5 : Option Text) (chunkSize : Int)
    (table : Table DocChunkStatus) : Option (DocChunkStatus × Table DocChunkStatus) :=
  let nv : DocChunkStatus :=
    { appid, docid, chunkSize, version := 1, numOfChunk := numOfChunk fileSize chunkSize,
      currentChunkIndex := -1, status := some "waiting".toList, chunkMap := none, md5, fileSize }
  (docChunkStatusDAO.insertObject nv table).map fun out => ({ nv with id := out.1 }, out.2)

def read (appid docid : Int) (table : Table DocChunkStatus) : Option DocChunkStatus :=
  docChunkStatusDAO.findAndReturnOnly { appid, docid, version := 1 } table

def updateObject (dcs : DocChunkStatus) : Action (Table DocChunkStatus) Fault Unit :=
  Action.attempt .dataIntegrity fun table =>
    (docChunkStatusDAO.updateObject dcs table).map fun table => ((), table)

/-- `updateChunkStatus(appid, docid, chunkSet)`. -/
def updateChunkStatusOfSet (appid docid : Int) (chunkSet : Finset Nat) :
    Action (Table DocChunkStatus) Fault DocChunkStatus := do
  let old ← Action.read (read appid docid)
  let old ← Action.require .nullPointer old
  let old := old.updateChunkMap (old.loadChunkMap ∪ chunkSet)
  updateObject old
  return old

/-- What `updateChunkStatus(appid, docid, chunkIndex)` sets in the row it read. -/
def recorded (chunkIndex : Nat) (old : DocChunkStatus) : DocChunkStatus :=
  ({ old with
      currentChunkIndex := chunkIndex
      status := if chunkIndex = 0 then some "recieving".toList else old.status } :
    DocChunkStatus).updateChunkMap (insert chunkIndex old.loadChunkMap)

/-- The index zero is written by a statement of its own, because a zero is not an initialised value
for `updateObject`. -/
def writeIndexZero (id : Int) (chunkIndex : Nat) : Action (Table DocChunkStatus) Fault Unit :=
  Action.write fun table =>
    if chunkIndex = 0 then
      table.update (fun row => row.id == id) fun row => { row with currentChunkIndex := chunkIndex }
    else
      table

/-- `updateChunkStatus(appid, docid, chunkIndex)`. -/
def updateChunkStatus (appid docid : Int) (chunkIndex : Nat) :
    Action (Table DocChunkStatus) Fault DocChunkStatus := do
  let old ← Action.read (read appid docid)
  let old ← Action.require .nullPointer old
  updateObject (recorded chunkIndex old)
  writeIndexZero old.id chunkIndex
  return recorded chunkIndex old

end DocChunkStatusDAO

/-! ## The number of chunks -/

theorem ceil_div_eq_pieceCount {fileSize chunkSize : Nat} (positive : 0 < chunkSize) :
    ⌈((fileSize : ℤ) : ℚ) / ((chunkSize : ℤ) : ℚ)⌉ = (pieceCount fileSize chunkSize : ℤ) := by
  have divisor : (0 : ℚ) < ((chunkSize : ℤ) : ℚ) := by exact_mod_cast positive
  have low := Nat.div_mul_le_self (fileSize + chunkSize - 1) chunkSize
  have high := Nat.lt_div_mul_add (a := fileSize + chunkSize - 1) positive
  rw [Int.ceil_eq_iff, lt_div_iff₀ divisor, div_le_iff₀ divisor]
  unfold pieceCount
  generalize (fileSize + chunkSize - 1) / chunkSize = n at low high ⊢
  constructor
  · have : n * chunkSize < fileSize + chunkSize := by omega
    have : (n : ℚ) * chunkSize < fileSize + chunkSize := by exact_mod_cast this
    push_cast
    linarith
  · have : fileSize ≤ n * chunkSize := by omega
    exact_mod_cast this

/-- The computed number of chunks is the exact one as long as a chunk map can name them all. -/
theorem numOfChunk_eq {fileSize chunkSize : Nat} (positive : 0 < chunkSize)
    (divisor : chunkSize ≤ 2 ^ 24) (few : pieceCount fileSize chunkSize ≤ mapLimit) :
    numOfChunk fileSize chunkSize = pieceCount fileSize chunkSize := by
  have covers := total_le_pieceCount_mul fileSize positive
  have operand : fileSize ≤ 2 ^ 45 := by
    calc fileSize ≤ pieceCount fileSize chunkSize * chunkSize := covers
      _ ≤ mapLimit * 2 ^ 24 := Nat.mul_le_mul few divisor
      _ ≤ 2 ^ 45 := by decide
  have quotient : ((fileSize : ℤ) : ℚ) / ((chunkSize : ℤ) : ℚ) ≤ 2 ^ 21 := by
    rw [div_le_iff₀ (by exact_mod_cast positive)]
    have : fileSize ≤ 2 ^ 21 * chunkSize :=
      covers.trans (Nat.mul_le_mul_right _ (few.trans (by decide)))
    exact_mod_cast this
  unfold numOfChunk
  rw [if_neg (by omega), Binary64.ceil_round_div (by omega) (by omega) (by exact_mod_cast divisor)
    (by exact_mod_cast operand) quotient, ceil_div_eq_pieceCount positive]
  unfold toInt
  unfold mapLimit at few
  omega

/-- A computed number of chunks that a chunk map can name is exact, whatever the file size. -/
theorem pieceCount_le_of_numOfChunk_le {fileSize chunkSize : Nat} (positive : 0 < chunkSize)
    (divisor : chunkSize ≤ 2 ^ 24) (few : numOfChunk fileSize chunkSize ≤ mapLimit) :
    pieceCount fileSize chunkSize ≤ mapLimit := by
  unfold numOfChunk at few
  rw [if_neg (by omega)] at few
  have divisorPos : (0 : ℚ) < ((chunkSize : ℤ) : ℚ) := by exact_mod_cast positive
  have size0 : (0 : ℚ) ≤ ((fileSize : ℤ) : ℚ) := by exact_mod_cast Nat.zero_le fileSize
  have divisorLe : ((chunkSize : ℤ) : ℚ) ≤ 2 ^ 24 := by exact_mod_cast divisor
  -- both roundings are off by a relative 2 ^ -53, far less than the factor two allowed for here
  have sizeError := abs_le.mp (Binary64.abs_round_sub_le ((fileSize : ℤ) : ℚ))
  rw [abs_of_nonneg size0] at sizeError
  have rounded0 : (0 : ℚ) ≤ Binary64.round ((fileSize : ℤ) : ℚ) := by linarith [sizeError.1]
  have quotient0 := div_nonneg rounded0 divisorPos.le
  have error := abs_le.mp
    (Binary64.abs_round_sub_le (Binary64.round ((fileSize : ℤ) : ℚ) / ((chunkSize : ℤ) : ℚ)))
  rw [abs_of_nonneg quotient0] at error
  have ceiling := few
  unfold toInt mapLimit at ceiling
  have bound : Binary64.round (Binary64.round ((fileSize : ℤ) : ℚ) / ((chunkSize : ℤ) : ℚ)) ≤
      (393192 : ℤ) := Int.ceil_le.mp (by omega)
  rw [Int.cast_ofNat] at bound
  have quotient : Binary64.round ((fileSize : ℤ) : ℚ) / ((chunkSize : ℤ) : ℚ) ≤ 786384 := by
    linarith [error.1]
  rw [div_le_iff₀ divisorPos] at quotient
  have doubled : ((fileSize : ℤ) : ℚ) ≤ 1572768 * ((chunkSize : ℤ) : ℚ) := by
    linarith [sizeError.1]
  have exact := Binary64.ceil_round_div (a := fileSize) (b := chunkSize) (by omega) (by omega)
    (by exact_mod_cast divisor)
    (by
      have : ((fileSize : ℤ) : ℚ) ≤ 2 ^ 45 := by linarith
      exact_mod_cast this)
    (by
      rw [div_le_iff₀ divisorPos]
      linarith)
  rw [exact, ceil_div_eq_pieceCount positive] at few
  unfold toInt mapLimit at few
  unfold mapLimit
  omega

end Clb.Dao
