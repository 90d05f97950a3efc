/-
# Storage.Upload -- what one call of chunkedUpload or writeFile stores

`chunkedUpload` reports nothing back, so its callers have to know what every exit has done.
`chunkedUpload_ends` covers all of them: a call adds at most one chunk, under the storage key and the
number it was given and with the declared length, and writes at most the entry of the file.
`chunkedUpload_received` is the exit a client wants: the stream delivers the declared bytes, the
server accepts the saves, and afterwards the chunk is there. `writeFile_ends` does the same for the
files that the driver writes whole. -/
import Clb.Storage.Mongo

set_option autoImplicit false

namespace Clb.MongoStorageService

open Clb.Lib Clb.Lib.Action

variable {accepted : Bool} {saves : Saves} {chunkIndex : Nat} {mf : MFile} {m : Mongo} {data : InputStream}
  {chunkSize : Int} {chunkCount : Int} {dataLength : Int}

theorem copyLoop_eq {dataLength : Nat} {fails : Bool} (reads : List Bytes) {bigBuf : Bytes}
    (fits : bigBuf.length ≤ dataLength) :
    copyLoop dataLength fails reads bigBuf =
      if dataLength < (bigBuf ++ reads.flatten).length then .error .indexOutOfBounds
      else if fails then .error .io
      else .ok (bigBuf ++ reads.flatten) := by
  induction reads generalizing bigBuf with
  | nil =>
    rw [copyLoop, List.flatten_nil, List.append_nil, if_neg (Nat.not_lt.mpr fits)]
  | cons block rest ih =>
    rw [copyLoop]
    by_cases tooLong : dataLength < bigBuf.length + block.length
    · rw [if_pos tooLong, if_pos (by simp; omega)]
    · rw [if_neg tooLong, ih (by simp; omega), List.flatten_cons, List.append_assoc]

/-- Bytes that fit one buffer make one chunk. -/
theorem saveChunksLoop_eq {filesId : ObjectId} {n chunkSize : Nat} {bytes : Bytes}
    (positive : 0 < chunkSize) (fits : bytes.length ≤ chunkSize) :
    saveChunksLoop accepted filesId n chunkSize (bytes.length + 1) bytes =
      dumpBuffer accepted filesId n bytes := by
  rw [saveChunksLoop, List.take_of_length_le fits]
  by_cases full : bytes.length = chunkSize
  · -- a full buffer is followed by a round that meets the end at once
    obtain ⟨rounds, more⟩ : ∃ rounds, bytes.length = rounds + 1 := ⟨bytes.length - 1, by omega⟩
    simp only [full, Nat.lt_irrefl, if_false, List.drop_of_length_le fits]
    rw [← full, more, saveChunksLoop]
    simp [dumpBuffer]
  · have short : bytes.length < chunkSize := by omega
    simp [short]

theorem tryBlock_eq {dataLength : Nat} (fits : (dataLength : Int) ≤ chunkSize) :
    tryBlock saves chunkIndex data dataLength mf chunkSize =
      if dataLength < data.reads.flatten.length then raise .indexOutOfBounds
      else if data.fails then raise .io
      else if data.reads.flatten.length < dataLength then pure false
      else if chunkSize ≤ 0 then raise .mongo
      else do
        dumpBuffer saves.chunk mf.storageKey chunkIndex data.reads.flatten
        return true := by
  unfold tryBlock
  rw [copyLoop_eq _ (Nat.zero_le _), List.nil_append]
  by_cases tooLong : dataLength < data.reads.flatten.length
  · simp only [tooLong, if_true]
  simp only [tooLong, if_false]
  cases data.fails with
  | true => simp only [if_true]
  | false =>
    simp only [Bool.false_eq_true, if_false]
    by_cases short : data.reads.flatten.length < dataLength
    · rw [if_pos (by omega), if_pos short]
    rw [if_neg (by omega), if_neg short]
    unfold saveChunks
    by_cases flat : chunkSize ≤ 0
    · simp only [flat, if_true]
      rfl
    · simp only [flat, if_false]
      rw [saveChunksLoop_eq (by omega) (by omega)]

/-- A stream of exactly the declared bytes that fit one chunk: the call is one save. -/
theorem tryBlock_whole {dataLength : Nat}
    (nonempty : 0 < dataLength) (fits : (dataLength : Int) ≤ chunkSize)
    (whole : data.fails = false) (exact : data.reads.flatten.length = dataLength) :
    tryBlock saves chunkIndex data dataLength mf chunkSize =
      saveChunk saves.chunk ⟨mf.storageKey, chunkIndex, data.reads.flatten⟩ >>= fun _ => pure true := by
  have filled : data.reads.flatten ≠ [] := List.ne_nil_of_length_pos (by omega)
  rw [tryBlock_eq fits, exact, whole, if_neg (Nat.lt_irrefl _), if_neg Bool.false_ne_true,
    if_neg (Nat.lt_irrefl _), if_neg (by omega), dumpBuffer, if_neg filled]

theorem chunkedUpload_whole (nonempty : 0 < dataLength)
    (fits : dataLength ≤ chunkSize) (whole : data.fails = false)
    (exact : (data.reads.flatten.length : Int) = dataLength) :
    chunkedUpload saves chunkIndex chunkCount data dataLength mf chunkSize =
      catching caught true (saveChunk saves.chunk ⟨mf.storageKey, chunkIndex, data.reads.flatten⟩ >>=
          fun _ => pure true) >>= fun goesOn =>
        if goesOn = true ∧ (chunkIndex : Int) = chunkCount - 1 then
          saveFile saves.header (header mf chunkSize)
        else pure () := by
  funext m
  rw [chunkedUpload, raiseIf_neg_bind (by omega), raiseIf_neg_bind (by omega),
    tryBlock_whole (by omega) (by omega) whole (by omega)]

/-- What a call may have done to the collections: nothing, or one more chunk of the given key, number
and length. -/
def Adds (storageKey : ObjectId) (chunkIndex : Nat) (dataLength : Int) (m m' : Mongo) : Prop :=
  m' = m ∨
    ∃ data : Bytes, data ≠ [] ∧ (data.length : Int) = dataLength ∧
      m.hasChunk storageKey chunkIndex = false ∧ m' = m.addChunk ⟨storageKey, chunkIndex, data⟩

theorem dumpBuffer_ends {filesId : ObjectId} {n : Nat} {buffer : Bytes} :
    Ends (dumpBuffer accepted filesId n buffer) m fun r m' =>
      (m' = m ∧ (r = .ok () → buffer = []) ∧ (r = .ok () ∨ r = .error .mongo)) ∨
        (r = .ok () ∧ buffer ≠ [] ∧ m.hasChunk filesId n = false ∧
          m' = m.addChunk ⟨filesId, n, buffer⟩) := by
  unfold dumpBuffer
  refine ends_ite (fun empty => ends_pure (.inl ⟨rfl, fun _ => empty, .inl rfl⟩)) fun nonempty => ?_
  unfold saveChunk
  refine ends_attempt ?_ ?_
  · intro u m' stored
    split at stored
    · rename_i free
      simp only [Bool.and_eq_true, Bool.not_eq_true'] at free
      obtain ⟨-, rfl⟩ := Prod.mk.inj (Option.some.inj stored)
      exact .inr ⟨rfl, nonempty, free.2, rfl⟩
    · cases stored
  · intro _
    exact .inl ⟨rfl, nofun, .inr rfl⟩

theorem tryBlock_ends (fits : dataLength ≤ chunkSize) (nonneg : 0 ≤ dataLength) :
    Ends (tryBlock saves chunkIndex data dataLength.toNat mf chunkSize) m fun _ m' =>
      Adds mf.storageKey chunkIndex dataLength m m' := by
  have back : (dataLength.toNat : Int) = dataLength := by omega
  rw [tryBlock_eq (by omega)]
  refine ends_ite (fun _ => ends_raise (.inl rfl)) fun _ => ?_
  refine ends_ite (fun _ => ends_raise (.inl rfl)) fun _ => ?_
  refine ends_ite (fun _ => ends_pure (.inl rfl)) fun short => ?_
  refine ends_ite (fun _ => ends_raise (.inl rfl)) fun _ => ends_bind ?_
  refine dumpBuffer_ends.mono ?_
  rintro r m₁ (⟨rfl, -, -⟩ | ⟨rfl, nonempty, free, rfl⟩)
  · cases r with
    | ok u => exact ends_pure (.inl rfl)
    | error fault => exact .inl rfl
  · exact ends_pure (.inr ⟨_, nonempty, by omega, free, rfl⟩)

/-- The last statement of a call, which the caught exceptions reach too. -/
theorem saveHeader_ends {file : GridFSFile} {goesOn : Bool} :
    Ends (if goesOn = true ∧ (chunkIndex : Int) = chunkCount - 1 then saveFile saves.header file
        else pure ()) m fun r m' =>
      m' = m ∨ (r = .ok () ∧ (chunkIndex : Int) = chunkCount - 1 ∧ m' = m.putFile file) := by
  refine ends_ite (fun due => ?_) fun _ => ends_pure (.inl rfl)
  unfold saveFile
  refine ends_attempt ?_ fun _ => .inl rfl
  intro u m' stored
  split at stored
  · obtain ⟨-, rfl⟩ := Prod.mk.inj (Option.some.inj stored)
    exact .inr ⟨rfl, due.2, rfl⟩
  · cases stored

/-- **Every exit of chunkedUpload.** It adds at most one chunk; the entry of the file is written only
with the last number, and only if the call returns. -/
theorem chunkedUpload_ends (fits : dataLength ≤ chunkSize) :
    Ends (chunkedUpload saves chunkIndex chunkCount data dataLength mf chunkSize) m fun r m' =>
      Adds mf.storageKey chunkIndex dataLength m m' ∨
        (r = .ok () ∧ (chunkIndex : Int) = chunkCount - 1 ∧
          ∃ m₁, Adds mf.storageKey chunkIndex dataLength m m₁ ∧
            m' = m₁.putFile (header mf chunkSize)) := by
  unfold chunkedUpload
  refine ends_bind (ends_raiseIf (fun _ => Or.inl (.inl rfl)) fun _ => ?_)
  refine ends_bind (ends_raiseIf (fun _ => Or.inl (.inl rfl)) fun nonneg => ?_)
  refine ends_bind (ends_catching ((tryBlock_ends fits (Int.not_lt.mp nonneg)).mono ?_))
  intro r m₁ added
  have last : ∀ (r : Except Fault Unit) (m' : Mongo),
      (m' = m₁ ∨ (r = .ok () ∧ (chunkIndex : Int) = chunkCount - 1 ∧
        m' = m₁.putFile (header mf chunkSize))) →
      (Adds mf.storageKey chunkIndex dataLength m m' ∨ (r = .ok () ∧ (chunkIndex : Int) = chunkCount - 1 ∧
        ∃ m₁, Adds mf.storageKey chunkIndex dataLength m m₁ ∧ m' = m₁.putFile (header mf chunkSize))) := by
    rintro r m' (rfl | ⟨returned, due, stored⟩)
    · exact .inl added
    · exact .inr ⟨returned, due, m₁, added, stored⟩
  cases r with
  | ok goesOn => exact saveHeader_ends.mono last
  | error fault =>
    dsimp only
    split
    · exact saveHeader_ends.mono last
    · exact .inl added

/-- The collections after a call that received its chunk whole. -/
def received (m : Mongo) (mf : MFile) (chunkIndex : Nat) (chunkCount chunkSize : Int) (data : Bytes) :
    Mongo :=
  let m₁ :=
    if m.hasChunk mf.storageKey chunkIndex then m
    else m.addChunk ⟨mf.storageKey, chunkIndex, data⟩
  if (chunkIndex : Int) = chunkCount - 1 then m₁.putFile (header mf chunkSize) else m₁

/-- A stream of exactly the declared bytes, accepted by the server, is stored; a chunk that was there
before stays as it is. -/
theorem chunkedUpload_received {chunkIndex : Nat} {chunkCount : Int} {data : InputStream}
    {dataLength : Int} {mf : MFile} {chunkSize : Int} {m : Mongo} (nonempty : 0 < dataLength)
    (fits : dataLength ≤ chunkSize) (whole : data.fails = false)
    (exact : (data.reads.flatten.length : Int) = dataLength) :
    chunkedUpload ⟨true, true⟩ chunkIndex chunkCount data dataLength mf chunkSize m =
      (.ok (), received m mf chunkIndex chunkCount chunkSize data.reads.flatten) := by
  rw [chunkedUpload_whole nonempty fits whole exact]
  refine eq_of_ends (ends_bind (ends_catching (ends_bind ?_)))
  unfold saveChunk received
  by_cases there : m.hasChunk mf.storageKey chunkIndex = true
  · -- the unique index refuses the second chunk, and the exception is swallowed
    refine ends_attempt (by simp [there]) fun _ => ?_
    simp only [caught, if_true, there, true_and]
    exact ends_ite (fun last => by simp [last, saveFile, attempt, Ends])
      fun other => by simp [other, Ends, pure]
  · have free : m.hasChunk mf.storageKey chunkIndex = false := by simpa using there
    refine ends_attempt ?_ (by simp [free])
    simp only [free, Bool.not_false, Bool.and_true, if_true, Option.some.injEq, Prod.mk.injEq,
      true_and, forall_const]
    rintro m₁ rfl
    refine ends_pure ?_
    simp only [true_and, Bool.false_eq_true, if_false]
    exact ends_ite (fun last => by simp [last, saveFile, attempt, Ends])
      fun other => by simp [other, Ends, pure]

/-! ## writeFile -/

/-- The entry the driver writes for `bytes`. -/
def driverFile (mf : MFile) (id : ObjectId) (bytes : Bytes) : GridFSFile :=
  { id, filename := mf.filename, storageKey := mf.storageKey, docid := mf.docid, vid := mf.vid,
    appid := mf.appid, length := bytes.length, chunkSize := DEFAULT_CHUNKSIZE }

/-- What a call of `writeFile` may have done to the collections: an unused id, chunks without an
entry, or a whole file. -/
inductive Driven (mf : MFile) (bytes : Bytes) (m : Mongo) : Except Fault Unit → Mongo → Prop
  | broken (fault : Fault) (uncaught : fault ≠ .io) (count : Nat) :
      Driven mf bytes m (.error fault)
        { m with
          issued := m.issued + 1
          chunks := m.chunks ++ driverChunks ⟨m.issued⟩ bytes count }
  | whole :
      Driven mf bytes m (.ok ())
        { m with
          issued := m.issued + 1
          chunks := m.chunks ++
            driverChunks ⟨m.issued⟩ bytes (pieceCount bytes.length DEFAULT_CHUNKSIZE)
          files := m.files ++ [driverFile mf ⟨m.issued⟩ bytes] }

theorem writeFile_ends {ins : InputStream} :
    Ends (writeFile accepted ins mf) m fun r m' =>
      Driven mf ins.reads.flatten m r m' ∧ (r = .ok () ↔ accepted = true ∧ ins.fails = false) := by
  have numbered : newObjectId m = (.ok ⟨m.issued⟩, { m with issued := m.issued + 1 }) := rfl
  unfold writeFile
  refine ends_bind (ends_of_eq numbered ?_)
  refine ends_ite (fun refused => ends_raise ⟨?_, by simp [refused]⟩) fun taken => ?_
  · have broken := @Driven.broken mf ins.reads.flatten m .mongo nofun 0
    simpa [driverChunks] using broken
  refine ends_ite (fun fails => ends_bind (ends_write (ends_raise ⟨?_, by simp [fails]⟩)))
    fun whole => ends_write ⟨.whole, by simp [whole, taken]⟩
  exact .broken .mongo nofun _

end Clb.MongoStorageService
