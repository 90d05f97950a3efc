/-
# Storage.Buffered -- the buffers of chunkedUpload

`Storage.Mongo` follows the bytes of a chunk as lists. Here are the loops that move them:
`chunkedUpload` copies the stream of the request into an array of the declared length, and
`MyGridFSInputFile.saveChunks` reads that array through a buffer of the chunk size and saves the
buffer after every round. A full buffer is followed by a round that finds the end of the input, and
the number of the chunk is the same in every round.

`tryBlock_refines` says that the loops end and do what `MongoStorageService.tryBlock` says, for every
stream, declared length and chunk size. `one_chunk_saved` is the case of a payload that fits one
chunk: however the stream splits it, the call saves one document, and its data are the payload. -/
import Clb.Lib.Buffer
import Clb.Lib.While
import Clb.Storage.Upload

set_option autoImplicit false

namespace Clb

open Clb.Lib Clb.Lib.Action

/-- What stops a loop early: its bound, the RuntimeException for a read of no bytes, or a fault. -/
inductive Stop where
  | exhausted
  | wrongRead
  | raised (fault : Fault)
deriving DecidableEq, Repr

/-- The fields of `MyGridFSInputFile` that `saveChunks` works on. The input is the blocks that `_in`
has yet to deliver. -/
structure MyGridFSInputFile where
  id : ObjectId
  chunkSize : Int
  buffer : Bytes
  currentBufferPosition : Nat
  currentChunkNumber : Nat
  input : List Bytes

/-- A file that is being saved, and the collections. -/
structure Saving where
  file : MyGridFSInputFile
  mongo : Mongo

namespace Saving

def onFile {α : Type} (act : Action MyGridFSInputFile Stop α) : Action Saving Stop α :=
  act.within Saving.file fun file s => { s with file }

def onMongo {α : Type} (act : Action Mongo Fault α) : Action Saving Stop α :=
  (act.mapFault .raised).within Saving.mongo fun mongo s => { s with mongo }

end Saving

namespace MyGridFSInputFile

/-- `_in.read(_buffer, _currentBufferPosition, _chunkSize - _currentBufferPosition)`: the number of
bytes, or -1 at the end. -/
def readInput : Action MyGridFSInputFile Stop Int := fun file =>
  match readBlock (file.chunkSize - file.currentBufferPosition).toNat file.input with
  | none => (.ok (-1), file)
  | some (bytes, rest) =>
    (.ok bytes.length,
      { file with buffer := blit file.buffer file.currentBufferPosition bytes, input := rest })

/-- One turn of the loop in `_readStream2Buffer`. -/
def readTurn : Action MyGridFSInputFile Stop Int := do
  let bytesRead ← readInput
  if 0 < bytesRead then do
    Action.write fun file =>
      { file with currentBufferPosition := file.currentBufferPosition + bytesRead.toNat }
    return bytesRead
  else do
    Action.raiseIf (bytesRead = 0) .wrongRead
    return bytesRead

/-- `_readStream2Buffer`. -/
def readStream2Buffer (turns : Nat) : Action MyGridFSInputFile Stop Int :=
  whileLoop .exhausted
    (fun bytesRead file => decide ((file.currentBufferPosition : Int) < file.chunkSize ∧ 0 ≤ bytesRead))
    (fun _ => readTurn) turns 0

/-- `_dumpBuffer`. -/
def dumpBuffer (accepted : Bool) (currentChunkNumber : Nat) (writePartial : Bool) :
    Action Saving Stop Unit := do
  let file ← Action.read Saving.file
  if (file.currentBufferPosition : Int) < file.chunkSize ∧ writePartial = false then
    pure ()
  else if file.currentBufferPosition = 0 then
    pure ()
  else do
    let writeBuffer :=
      if (file.currentBufferPosition : Int) ≠ file.chunkSize then
        file.buffer.take file.currentBufferPosition
      else
        file.buffer
    Saving.onMongo (MongoStorageService.saveChunk accepted ⟨file.id, currentChunkNumber, writeBuffer⟩)
    Saving.onFile (Action.write fun file => { file with currentBufferPosition := 0 })

/-- One turn of the loop in `saveChunks`. -/
def saveTurn (turns : Nat) (accepted : Bool) : Action Saving Stop Int := do
  Saving.onFile (Action.write fun file => { file with currentBufferPosition := 0 })
  let bytesRead ← Saving.onFile (readStream2Buffer turns)
  let file ← Action.read Saving.file
  dumpBuffer accepted file.currentChunkNumber true
  return bytesRead

/-- `saveChunks`. No output stream is ever opened for the file. -/
def saveChunks (turns : Nat) (accepted : Bool) (chunkSize : Int) : Action Saving Stop Nat := do
  Action.raiseIf (chunkSize ≤ 0) (.raised .mongo)
  Saving.onFile (Action.write fun file =>
    if file.chunkSize ≠ chunkSize then
      { file with chunkSize, buffer := List.replicate chunkSize.toNat 0 }
    else
      file)
  let _ ← whileLoop .exhausted (fun bytesRead _ => decide (0 ≤ bytesRead))
    (fun _ => saveTurn turns accepted) turns (0 : Int)
  let file ← Action.read Saving.file
  return file.currentChunkNumber + 1

end MyGridFSInputFile

namespace Buffered

/-- The variables of the copy loop: the blocks that the stream has yet to deliver, the array, and how
much of it is filled. -/
structure Copying where
  data : List Bytes
  bigBuf : Bytes
  numBytes : Nat

def BUF_SIZE : Nat := 4096

/-- `data.read(buf)`, with `none` for `EOF`. -/
def readData (fails : Bool) : Action Copying Stop (Option Bytes) := fun c =>
  match readBlock BUF_SIZE c.data with
  | none => if fails then (.error (.raised .io), c) else (.ok none, c)
  | some (bytes, rest) => (.ok (some bytes), { c with data := rest })

/-- One turn of the copy loop: whether it was not the last. -/
def copyTurn (fails : Bool) : Action Copying Stop Bool := do
  let tmpRead ← readData fails
  match tmpRead with
  | none => return false
  | some bytes => do
      let c ← Action.read id
      Action.raiseIf (c.bigBuf.length < c.numBytes + bytes.length) (.raised .indexOutOfBounds)
      Action.write fun c =>
        { c with bigBuf := blit c.bigBuf c.numBytes bytes, numBytes := c.numBytes + bytes.length }
      return true

/-- The copy loop of `chunkedUpload`. -/
def copyLoop (turns : Nat) (fails : Bool) : Action Copying Stop Bool :=
  whileLoop .exhausted (fun goesOn _ => goesOn) (fun _ => copyTurn fails) turns true

/-- `new ByteArrayInputStream(bytes)` delivers all its bytes in one block. -/
def byteArrayInputStream (bytes : Bytes) : List Bytes := if bytes = [] then [] else [bytes]

/-- The file of `chunkedUpload` before `saveChunks` is called. -/
def inputFile (chunkIndex : Nat) (mf : MFile) (chunkSize : Int) (bytes : Bytes) : MyGridFSInputFile :=
  { id := mf.storageKey, chunkSize, buffer := List.replicate chunkSize.toNat 0
    currentBufferPosition := 0, currentChunkNumber := chunkIndex, input := byteArrayInputStream bytes }

/-- The body of the `try` in `chunkedUpload`. -/
def tryBlock (turns : Nat) (saves : Saves) (chunkIndex : Nat) (data : InputStream) (dataLength : Nat)
    (mf : MFile) (chunkSize : Int) : Action Mongo Stop Bool := fun m =>
  match copyLoop turns data.fails ⟨data.reads, List.replicate dataLength 0, 0⟩ with
  | (.error stop, _) => (.error stop, m)
  | (.ok _, c) =>
    if dataLength ≠ c.numBytes then
      (.ok false, m)
    else
      let out := MyGridFSInputFile.saveChunks turns saves.chunk chunkSize
        ⟨inputFile chunkIndex mf chunkSize (c.bigBuf.take c.numBytes), m⟩
      (out.1.map fun _ => true, out.2.mongo)

end Buffered

/-! ## The copy loop -/

namespace Buffered

/-- Between two turns: what was copied and what is yet to come make up the stream. -/
structure Copied (dataLength : Nat) (fails : Bool) (whole : Bytes) (goesOn : Bool) (c : Copying) :
    Prop where
  length : c.bigBuf.length = dataLength
  filled : c.numBytes ≤ dataLength
  bytes : c.bigBuf.take c.numBytes ++ c.data.flatten = whole
  ended : goesOn = false → c.data = [] ∧ fails = false

variable {dataLength turns : Nat} {fails : Bool} {whole : Bytes} {goesOn : Bool} {c : Copying}

theorem Copied.length_whole (copied : Copied dataLength fails whole goesOn c) :
    whole.length = c.numBytes + c.data.flatten.length := by
  rw [← copied.bytes, List.length_append, List.length_take, copied.length,
    Nat.min_eq_left copied.filled]

theorem copyTurn_ends (copied : Copied dataLength fails whole true c) :
    Ends (copyTurn fails) c fun r c' =>
      match r with
      | .ok goesOn => Copied dataLength fails whole goesOn c' ∧
          weight c'.data + goesOn.toNat < weight c.data + 1
      | .error stop =>
        (dataLength < whole.length ∧ stop = .raised .indexOutOfBounds) ∨
          (whole.length ≤ dataLength ∧ fails = true ∧ stop = .raised .io) := by
  have sizes := copied.length_whole
  cases read : readBlock BUF_SIZE c.data with
  | none =>
    have empty := readBlock_eq_none.mp read
    have noBytes : c.data.flatten.length = 0 := by rw [empty]; rfl
    have filled := copied.filled
    cases broken : fails with
    | true =>
      have raised : readData true c = (.error (.raised .io), c) := by
        rw [readData, read]
        rfl
      exact ends_bind (ends_of_eq raised (.inr ⟨by omega, rfl, rfl⟩))
    | false =>
      have ended : readData false c = (.ok none, c) := by
        rw [readData, read]
        rfl
      refine ends_bind (ends_of_eq ended (ends_pure ⟨⟨copied.length, filled, copied.bytes, ?_⟩, ?_⟩))
      · exact fun _ => ⟨empty, rfl⟩
      · exact Nat.lt_succ_self _
  | some out =>
    obtain ⟨bytes, rest⟩ := out
    have parts := readBlock_flatten read
    have counted := congrArg List.length parts
    rw [List.length_append] at counted
    have delivered : readData fails c = (.ok (some bytes), { c with data := rest }) := by
      rw [readData, read]
    refine ends_bind (ends_of_eq delivered (ends_bind (ends_read ?_)))
    refine ends_bind (ends_raiseIf (fun tooLong => .inl ⟨?_, rfl⟩) fun room => ?_)
    · have tooLong : c.bigBuf.length < c.numBytes + bytes.length := tooLong
      rw [copied.length] at tooLong
      omega
    · have room : c.numBytes + bytes.length ≤ c.bigBuf.length := Nat.not_lt.mp room
      refine ends_bind (ends_write (ends_pure ⟨⟨?_, ?_, ?_, nofun⟩, ?_⟩))
      · exact (length_blit room).trans copied.length
      · exact room.trans (Nat.le_of_eq copied.length)
      · have front := @take_blit _ c.bigBuf bytes c.numBytes (by omega)
        change (blit c.bigBuf c.numBytes bytes).take (c.numBytes + bytes.length) ++ rest.flatten = _
        rw [front, List.append_assoc, parts, copied.bytes]
      · exact Nat.succ_lt_succ (readBlock_weight (by decide) read)

/-- **The copy loop ends** and has copied the stream, or fails as `MongoStorageService.copyLoop`
does. -/
theorem copyLoop_ends {reads : List Bytes} (enough : weight reads + 1 < turns) :
    Ends (copyLoop turns fails) ⟨reads, List.replicate dataLength 0, 0⟩ fun r c =>
      match MongoStorageService.copyLoop dataLength fails reads [] with
      | .ok bytes => (∃ goesOn, r = .ok goesOn) ∧ c.numBytes = bytes.length ∧
          c.bigBuf.take c.numBytes = bytes
      | .error fault => r = .error (.raised fault) := by
  rw [MongoStorageService.copyLoop_eq reads (Nat.zero_le _), List.nil_append]
  refine ends_whileLoop (Copied dataLength fails reads.flatten)
    (fun goesOn c => weight c.data + goesOn.toNat) ?_ ?_ ?_ enough
  · rintro goesOn c copied ⟨⟩
    refine (copyTurn_ends copied).mono ?_
    rintro (stop | goesOn) c' ended
    · rcases ended with ⟨tooLong, rfl⟩ | ⟨short, broken, rfl⟩
      · rw [if_pos tooLong]
      · rw [if_neg (Nat.not_lt.mpr short), if_pos broken]
    · exact ended
  · rintro goesOn c copied ⟨⟩
    obtain ⟨empty, whole⟩ := copied.ended rfl
    have sizes := copied.length_whole
    have bytes := copied.bytes
    rw [empty, List.flatten_nil] at sizes bytes
    rw [if_neg (Nat.not_lt.mpr (sizes ▸ copied.filled)), if_neg (by simp [whole])]
    exact ⟨⟨_, rfl⟩, sizes.symm, (List.append_nil _).symm.trans bytes⟩
  · exact ⟨List.length_replicate, Nat.zero_le _, rfl, nofun⟩

end Buffered

/-! ## One round of saveChunks -/

namespace MyGridFSInputFile

/-- A file whose buffer has the chunk size, with `rest` yet to be read. -/
structure Ready (id : ObjectId) (n size limit : Nat) (rest : Bytes) (file : MyGridFSInputFile) :
    Prop where
  id : file.id = id
  number : file.currentChunkNumber = n
  chunkSize : file.chunkSize = size
  length : file.buffer.length = size
  bytes : file.input.flatten = rest
  nonempty : ∀ block ∈ file.input, block ≠ []
  light : weight file.input ≤ limit

/-- Between two turns of `_readStream2Buffer`: what is in the buffer and what is yet to be read make
up the input. -/
structure Filling (size : Nat) (whole : Bytes) (bytesRead : Int) (file : MyGridFSInputFile) : Prop where
  position : file.currentBufferPosition ≤ size
  bytes : file.buffer.take file.currentBufferPosition ++ file.input.flatten = whole
  ended : bytesRead < 0 → file.input = [] ∧ file.currentBufferPosition < size

variable {id : ObjectId} {n size limit turns : Nat} {rest whole : Bytes} {bytesRead : Int}
  {file : MyGridFSInputFile} {accepted : Bool} {m : Mongo}

theorem readTurn_ends (ready : Ready id n size limit rest file)
    (filling : Filling size whole bytesRead file) (room : file.currentBufferPosition < size) :
    Ends readTurn file fun r file' =>
      ∃ bytesRead, r = .ok bytesRead ∧ Ready id n size limit file'.input.flatten file' ∧
        Filling size whole bytesRead file' ∧
        weight file'.input + (decide (0 ≤ bytesRead)).toNat < weight file.input + 1 := by
  have asked : (file.chunkSize - file.currentBufferPosition).toNat =
      size - file.currentBufferPosition := by
    rw [ready.chunkSize]
    omega
  have positive : 0 < size - file.currentBufferPosition := Nat.sub_pos_of_lt room
  cases read : readBlock (size - file.currentBufferPosition) file.input with
  | none =>
    have empty := readBlock_eq_none.mp read
    have ended : readInput file = (.ok (-1), file) := by
      rw [readInput, asked, read]
    refine ends_bind (ends_of_eq ended (ends_bind (ends_pure (ends_pure ?_))))
    refine ⟨-1, rfl, { ready with bytes := rfl }, ?_, Nat.lt_succ_self _⟩
    exact { filling with ended := fun _ => ⟨empty, room⟩ }
  | some out =>
    obtain ⟨bytes, behind⟩ := out
    obtain ⟨something, nonempty⟩ := readBlock_nonempty positive ready.nonempty read
    have lighter := readBlock_weight positive read
    have within := length_readBlock read
    have delivered : readInput file = (.ok bytes.length,
        { file with buffer := blit file.buffer file.currentBufferPosition bytes, input := behind }) := by
      rw [readInput, asked, read]
    have some_ : (0 : Int) < bytes.length := by exact_mod_cast List.length_pos_of_ne_nil something
    refine ends_bind (ends_of_eq delivered ?_)
    change Ends (if (0 : Int) < bytes.length then _ else _) _ _
    rw [if_pos some_]
    refine ends_bind (ends_write (ends_pure ⟨bytes.length, rfl, ?_, ⟨?_, ?_, ?_⟩, ?_⟩))
    · have length := @length_blit _ file.buffer bytes file.currentBufferPosition
        (by rw [ready.length]; omega)
      exact { ready with
        length := length.trans ready.length
        bytes := rfl
        nonempty := nonempty
        light := lighter.le.trans ready.light }
    · change file.currentBufferPosition + ((bytes.length : Nat) : Int).toNat ≤ size
      rw [Int.toNat_natCast]
      omega
    · have front := @take_blit _ file.buffer bytes file.currentBufferPosition
        (by rw [ready.length]; exact filling.position)
      change (blit file.buffer file.currentBufferPosition bytes).take
        (file.currentBufferPosition + ((bytes.length : Nat) : Int).toNat) ++ behind.flatten = whole
      rw [Int.toNat_natCast, front, List.append_assoc, readBlock_flatten read, filling.bytes]
    · exact fun negative => absurd negative (Int.not_lt.mpr some_.le)
    · rw [decide_eq_true some_.le]
      exact Nat.succ_lt_succ lighter

/-- **A round fills the buffer** up to its size or to the end of the input. -/
theorem readStream2Buffer_ends (ready : Ready id n size limit rest file)
    (empty : file.currentBufferPosition = 0) (enough : limit + 1 < turns) :
    Ends (readStream2Buffer turns) file fun r file' =>
      ∃ bytesRead, r = .ok bytesRead ∧ Ready id n size limit (rest.drop size) file' ∧
        file'.currentBufferPosition ≤ size ∧
        file'.buffer.take file'.currentBufferPosition = rest.take size ∧
        (bytesRead < 0 ↔ rest.length < size) := by
  refine ends_whileLoop
    (fun bytesRead file => Ready id n size limit file.input.flatten file ∧
      Filling size rest bytesRead file)
    (fun bytesRead file => weight file.input + (decide (0 ≤ bytesRead)).toNat) ?_ ?_ ⟨?_, ?_⟩ ?_
  · rintro bytesRead file ⟨ready, filling⟩ goesOn
    obtain ⟨room, going⟩ := of_decide_eq_true goesOn
    rw [ready.chunkSize, Int.ofNat_lt] at room
    refine (readTurn_ends ready filling room).mono ?_
    rintro _ file' ⟨bytesRead', rfl, ready', filling', lighter⟩
    rw [decide_eq_true going]
    exact ⟨⟨ready', filling'⟩, lighter⟩
  · rintro bytesRead file ⟨ready, filling⟩ stopped
    have stopped := of_decide_eq_false stopped
    rw [ready.chunkSize, Int.ofNat_lt, not_and_or, Int.not_le] at stopped
    have taken : (file.buffer.take file.currentBufferPosition).length =
        file.currentBufferPosition := by
      rw [List.length_take, ready.length, Nat.min_eq_left filling.position]
    have sizes := congrArg List.length filling.bytes
    rw [List.length_append, taken] at sizes
    by_cases negative : bytesRead < 0
    · -- the input has ended before the buffer was full
      obtain ⟨none_, short⟩ := filling.ended negative
      have bytes := filling.bytes
      rw [none_, List.flatten_nil, List.append_nil] at bytes
      rw [none_, List.flatten_nil, List.length_nil] at sizes
      have whole : rest.length ≤ size := by omega
      refine ⟨bytesRead, rfl, { ready with bytes := ?_ }, filling.position, ?_, ?_⟩
      · rw [none_, List.drop_of_length_le whole]
        rfl
      · rw [bytes, List.take_of_length_le whole]
      · exact iff_of_true negative (by omega)
    · have full : file.currentBufferPosition = size := by
        have := stopped.resolve_right negative
        have := filling.position
        omega
      have bytes := filling.bytes
      rw [full] at bytes taken
      refine ⟨bytesRead, rfl, { ready with bytes := ?_ }, filling.position, ?_, ?_⟩
      · rw [← bytes, List.drop_left' taken]
      · rw [full, ← bytes, List.take_left' taken]
      · exact iff_of_false negative (by omega)
  · exact { ready with bytes := rfl }
  · refine ⟨by omega, ?_, fun negative => absurd negative (by decide)⟩
    rw [empty, ready.bytes]
    rfl
  · exact Nat.lt_of_le_of_lt (Nat.succ_le_succ ready.light) enough

/-- The buffer is saved as far as it is filled. -/
theorem dumpBuffer_ends (ready : Ready id n size limit rest file)
    (position : file.currentBufferPosition ≤ size) :
    Ends (dumpBuffer accepted n true) ⟨file, m⟩ fun r s' =>
      Ready id n size limit rest s'.file ∧
        (r, s'.mongo) = ((MongoStorageService.dumpBuffer accepted id n
          (file.buffer.take file.currentBufferPosition)).mapFault .raised) m := by
  refine ends_bind (ends_read (ends_ite (fun never => absurd never.2 nofun) fun _ => ?_))
  refine ends_ite (fun empty => ?_) fun filled => ?_
  · have empty : file.currentBufferPosition = 0 := empty
    refine ends_pure ⟨ready, ?_⟩
    rw [empty, List.take_zero]
    rfl
  · have filled : file.currentBufferPosition ≠ 0 := filled
    have nonempty : file.buffer.take file.currentBufferPosition ≠ [] := by
      refine List.ne_nil_of_length_pos ?_
      rw [List.length_take, ready.length]
      omega
    have written : (if (file.currentBufferPosition : Int) ≠ file.chunkSize then
        file.buffer.take file.currentBufferPosition else file.buffer) =
          file.buffer.take file.currentBufferPosition := by
      split
      · rfl
      · rename_i same
        rw [ready.chunkSize, not_not, Int.ofNat_inj] at same
        rw [same, List.take_of_length_le (Nat.le_of_eq ready.length)]
    change Ends (Saving.onMongo (MongoStorageService.saveChunk accepted
      ⟨file.id, n, if (file.currentBufferPosition : Int) ≠ file.chunkSize then
        file.buffer.take file.currentBufferPosition else file.buffer⟩) >>= _) _ _
    rw [written, ready.id, MongoStorageService.dumpBuffer, if_neg nonempty]
    refine ends_bind (ends_within ?_)
    rcases saved : (MongoStorageService.saveChunk accepted
      ⟨id, n, file.buffer.take file.currentBufferPosition⟩).mapFault Stop.raised m with ⟨r, m'⟩
    refine ends_of_eq saved ?_
    cases r with
    | error stop => exact ⟨ready, rfl⟩
    | ok u => exact ends_within (ends_write ⟨{ ready with }, rfl⟩)

/-- **One turn of saveChunks** saves the next bytes as far as the buffer holds them, and goes on
exactly if they filled it. -/
theorem saveTurn_ends {s : Saving} (ready : Ready id n size limit rest s.file)
    (enough : limit + 1 < turns) :
    Ends (saveTurn turns accepted) s fun r s' =>
      s'.mongo = (MongoStorageService.dumpBuffer accepted id n (rest.take size) s.mongo).2 ∧
        match (MongoStorageService.dumpBuffer accepted id n (rest.take size) s.mongo).1 with
        | .ok _ => Ready id n size limit (rest.drop size) s'.file ∧
            ∃ bytesRead, r = .ok bytesRead ∧ (bytesRead < 0 ↔ rest.length < size)
        | .error fault => r = .error (.raised fault) := by
  have reset : Ready id n size limit rest { s.file with currentBufferPosition := 0 } := { ready with }
  refine ends_bind (ends_within (ends_write (ends_bind (ends_within ?_))))
  refine (readStream2Buffer_ends reset rfl enough).mono ?_
  rintro _ file' ⟨bytesRead, rfl, ready', position, filled, ended⟩
  refine ends_bind (ends_read ?_)
  change Ends (dumpBuffer accepted file'.currentChunkNumber true >>= fun _ => pure bytesRead)
    ⟨file', s.mongo⟩ _
  rw [ready'.number]
  refine ends_bind ((dumpBuffer_ends ready' position).mono ?_)
  rintro r s' ⟨ready'', dumped⟩
  rw [filled] at dumped
  obtain ⟨outcome, mongo⟩ := Prod.mk.inj dumped
  rcases out : MongoStorageService.dumpBuffer accepted id n (rest.take size) s.mongo with ⟨o, m'⟩
  rw [out] at outcome mongo
  cases o with
  | error fault =>
    obtain rfl : r = .error (.raised fault) := outcome
    exact ⟨mongo, rfl⟩
  | ok u =>
    obtain rfl : r = .ok u := outcome
    exact ends_pure ⟨mongo, ready'', bytesRead, rfl, ended⟩

end MyGridFSInputFile

/-! ## All rounds -/

namespace MongoStorageService

variable {accepted : Bool} {id : ObjectId} {n size : Nat}

/-- More rounds than bytes are never reached. -/
theorem saveChunksLoop_congr (positive : 0 < size) {rounds rounds' : Nat} {rest : Bytes}
    (enough : rest.length < rounds) (enough' : rest.length < rounds') :
    saveChunksLoop accepted id n size rounds rest = saveChunksLoop accepted id n size rounds' rest := by
  induction rounds generalizing rounds' rest with
  | zero => exact absurd enough (Nat.not_lt_zero _)
  | succ rounds ih =>
    cases rounds' with
    | zero => exact absurd enough' (Nat.not_lt_zero _)
    | succ rounds' =>
      rw [saveChunksLoop, saveChunksLoop]
      refine congrArg (dumpBuffer accepted id n (rest.take size) >>= ·) (funext fun _ => ?_)
      by_cases short : (rest.take size).length < size
      · rw [if_pos short, if_pos short]
      · rw [if_neg short, if_neg short]
        rw [List.length_take] at short
        refine ih ?_ ?_
        · rw [List.length_drop]
          omega
        · rw [List.length_drop]
          omega

/-- The rounds that are left when `rest` is left. -/
def roundsLeft (accepted : Bool) (id : ObjectId) (n size : Nat) (rest : Bytes) :
    Action Mongo Fault Unit :=
  saveChunksLoop accepted id n size (rest.length + 1) rest

theorem roundsLeft_eq (positive : 0 < size) (rest : Bytes) :
    roundsLeft accepted id n size rest =
      dumpBuffer accepted id n (rest.take size) >>= fun _ =>
        if rest.length < size then pure () else roundsLeft accepted id n size (rest.drop size) := by
  unfold roundsLeft
  rw [saveChunksLoop]
  refine congrArg (dumpBuffer accepted id n (rest.take size) >>= ·) (funext fun _ => ?_)
  have same : (rest.take size).length < size ↔ rest.length < size := by
    rw [List.length_take]
    omega
  by_cases short : rest.length < size
  · rw [if_pos (same.mpr short), if_pos short]
  · rw [if_neg (fun taken => short (same.mp taken)), if_neg short]
    refine saveChunksLoop_congr positive ?_ (Nat.lt_succ_self _)
    rw [List.length_drop]
    omega

end MongoStorageService

namespace MyGridFSInputFile

open MongoStorageService

variable {id : ObjectId} {n size limit turns : Nat} {rest : Bytes} {accepted : Bool}

/-- The loop of `saveChunks` does what is left of the rounds. -/
theorem saveLoop_ends {s : Saving} (positive : 0 < size) (ready : Ready id n size limit rest s.file)
    (enough : limit + 1 < turns) :
    Ends (whileLoop .exhausted (fun bytesRead _ => decide (0 ≤ bytesRead))
        (fun _ => saveTurn turns accepted) turns (0 : Int)) s fun r s' =>
      (r.map fun _ => (), s'.mongo) =
        ((roundsLeft accepted id n size rest).mapFault .raised) s.mongo := by
  rcases target : roundsLeft accepted id n size rest s.mongo with ⟨o, m'⟩
  have renamed : (roundsLeft accepted id n size rest).mapFault Stop.raised s.mongo =
      (o.mapError .raised, m') := by
    unfold mapFault
    rw [target]
  rw [renamed]
  refine ends_whileLoop
    (fun bytesRead s => ∃ rest, Ready id n size limit rest s.file ∧
      (if 0 ≤ bytesRead then roundsLeft accepted id n size rest s.mongo else (.ok (), s.mongo)) =
        (o, m'))
    (fun bytesRead s => s.file.input.flatten.length + (decide (0 ≤ bytesRead)).toNat)
    ?_ ?_ ⟨rest, ready, target⟩ ?_
  · rintro bytesRead s ⟨rest, ready, left⟩ goesOn
    have going := of_decide_eq_true goesOn
    rw [if_pos going, roundsLeft_eq positive] at left
    refine (saveTurn_ends ready enough).mono ?_
    intro r s' ended
    rcases out : MongoStorageService.dumpBuffer accepted id n (rest.take size) s.mongo with ⟨d, m₁⟩
    rw [out] at ended
    cases d with
    | error fault =>
      obtain ⟨mongo, rfl⟩ := ended
      rw [bind_error out] at left
      obtain ⟨rfl, rfl⟩ := Prod.mk.inj left
      exact Prod.ext rfl mongo
    | ok u =>
      obtain ⟨mongo, ready', bytesRead', rfl, last⟩ := ended
      rw [bind_ok out] at left
      have lengths : s'.file.input.flatten.length = rest.length - size := by
        rw [ready'.bytes, List.length_drop]
      rw [ready.bytes, decide_eq_true going]
      by_cases negative : bytesRead' < 0
      · -- the input has ended, and with it the loop
        rw [if_pos (last.mp negative)] at left
        refine ⟨⟨_, ready', ?_⟩, ?_⟩
        · rw [if_neg (Int.not_le.mpr negative), mongo]
          exact left
        · rw [decide_eq_false (Int.not_le.mpr negative), lengths]
          exact Nat.lt_succ_of_le (Nat.sub_le _ _)
      · have full : ¬rest.length < size := fun short => negative (last.mpr short)
        rw [if_neg full] at left
        refine ⟨⟨_, ready', ?_⟩, ?_⟩
        · rw [if_pos (Int.not_lt.mp negative), mongo]
          exact left
        · rw [decide_eq_true (Int.not_lt.mp negative), lengths]
          exact Nat.succ_lt_succ (by omega)
  · rintro bytesRead s ⟨rest, -, left⟩ stopped
    rw [if_neg (of_decide_eq_false stopped)] at left
    obtain ⟨rfl, rfl⟩ := Prod.mk.inj left
    rfl
  · have light := ready.light
    unfold weight at light
    change s.file.input.flatten.length + 1 < turns
    omega

/-- **saveChunks ends**, and has saved what `MongoStorageService.saveChunks` says. -/
theorem saveChunks_ends {chunkIndex : Nat} {mf : MFile} {chunkSize : Int} {bytes : Bytes} {m : Mongo}
    (enough : bytes.length + 2 < turns) :
    Ends (saveChunks turns accepted chunkSize)
        ⟨Buffered.inputFile chunkIndex mf chunkSize bytes, m⟩ fun r s' =>
      (r.map fun _ => (), s'.mongo) =
        ((MongoStorageService.saveChunks accepted mf.storageKey chunkIndex chunkSize bytes).mapFault
          .raised) m := by
  unfold MongoStorageService.saveChunks
  refine ends_bind (ends_raiseIf (fun flat => ?_) fun sized => ?_)
  · rw [if_pos flat]
    rfl
  rw [if_neg sized]
  have size : ((chunkSize.toNat : Nat) : Int) = chunkSize := by omega
  have delivered : (Buffered.byteArrayInputStream bytes).flatten = bytes ∧
      (∀ block ∈ Buffered.byteArrayInputStream bytes, block ≠ []) ∧
      weight (Buffered.byteArrayInputStream bytes) ≤ bytes.length + 1 := by
    unfold Buffered.byteArrayInputStream
    split
    · rename_i none_
      rw [none_]
      exact ⟨rfl, nofun, Nat.zero_le _⟩
    · rename_i some_
      refine ⟨List.flatten_singleton, ?_, ?_⟩
      · rintro block member
        rw [List.mem_singleton.mp member]
        exact some_
      · unfold weight
        rw [List.flatten_singleton]
        exact Nat.le_refl _
  have ready : Ready mf.storageKey chunkIndex chunkSize.toNat (bytes.length + 1) bytes
      (Buffered.inputFile chunkIndex mf chunkSize bytes) :=
    { id := rfl
      number := rfl
      chunkSize := size.symm
      length := List.length_replicate
      bytes := delivered.1
      nonempty := delivered.2.1
      light := delivered.2.2 }
  refine ends_bind (ends_within (ends_write ?_))
  have kept : (if (Buffered.inputFile chunkIndex mf chunkSize bytes).chunkSize ≠ chunkSize then
      { Buffered.inputFile chunkIndex mf chunkSize bytes with
        chunkSize, buffer := List.replicate chunkSize.toNat 0 }
      else Buffered.inputFile chunkIndex mf chunkSize bytes) =
        Buffered.inputFile chunkIndex mf chunkSize bytes :=
    if_neg (not_not.mpr rfl)
  rw [kept]
  refine ends_bind ((saveLoop_ends (by omega) ready enough).mono ?_)
  rintro (stop | _) s' same
  · exact same
  · exact ends_bind (ends_read (ends_pure same))

end MyGridFSInputFile

/-! ## The whole call -/

namespace MongoStorageService

theorem copyLoop_eq_ok {dataLength : Nat} {fails : Bool} {reads : List Bytes} {bytes : Bytes}
    (copied : copyLoop dataLength fails reads [] = .ok bytes) : reads.flatten = bytes := by
  rw [copyLoop_eq reads (Nat.zero_le _), List.nil_append] at copied
  split at copied
  · cases copied
  · split at copied
    · cases copied
    · exact Except.ok.inj copied

end MongoStorageService

namespace Buffered

/-- **The buffers carry out the upload.** With enough turns for the stream, the loops end as the call
over whole byte lists does, and leave the same collections. -/
theorem tryBlock_refines {turns : Nat} {saves : Saves} {chunkIndex : Nat} {data : InputStream}
    {dataLength : Nat} {mf : MFile} {chunkSize : Int} (enough : weight data.reads + 2 < turns) :
    tryBlock turns saves chunkIndex data dataLength mf chunkSize =
      (MongoStorageService.tryBlock saves chunkIndex data dataLength mf chunkSize).mapFault
        .raised := by
  funext m
  have copied := @copyLoop_ends dataLength turns data.fails data.reads (by omega)
  rcases ran : copyLoop turns data.fails ⟨data.reads, List.replicate dataLength 0, 0⟩ with ⟨r, c⟩
  have copied := copied.apply ran
  unfold tryBlock mapFault MongoStorageService.tryBlock
  rw [ran]
  cases expected : MongoStorageService.copyLoop dataLength data.fails data.reads [] with
  | error fault =>
    rw [expected] at copied
    rw [copied]
    rfl
  | ok bytes =>
    rw [expected] at copied
    obtain ⟨⟨goesOn, rfl⟩, counted, filled⟩ := copied
    dsimp only
    rw [filled, counted]
    by_cases short : dataLength ≠ bytes.length
    · rw [if_pos short, if_pos short]
      rfl
    · rw [if_neg short, if_neg short]
      have size : bytes.length + 2 < turns := by
        rw [weight, MongoStorageService.copyLoop_eq_ok expected] at enough
        omega
      have saved := @MyGridFSInputFile.saveChunks_ends turns saves.chunk chunkIndex mf chunkSize
        bytes m size
      rcases out : MyGridFSInputFile.saveChunks turns saves.chunk chunkSize
        ⟨inputFile chunkIndex mf chunkSize bytes, m⟩ with ⟨r, s'⟩
      have saved := saved.apply out
      rcases listed : MongoStorageService.saveChunks saves.chunk mf.storageKey chunkIndex chunkSize
        bytes m with ⟨o, m'⟩
      unfold mapFault at saved
      rw [listed] at saved
      obtain ⟨outcome, mongo⟩ := Prod.mk.inj saved
      dsimp only
      rw [mongo]
      cases o with
      | error fault =>
        rw [bind_error listed]
        cases r with
        | error stop => exact Prod.ext (congrArg Except.error (Except.error.inj outcome)) rfl
        | ok number => cases outcome
      | ok u =>
        rw [bind_ok listed]
        cases r with
        | error stop => cases outcome
        | ok number => rfl

/-- **One call stores one chunk.** However the stream splits a payload of at most the chunk size, the
copy loop and `saveChunks` end, and together they are one save of one document: the given key and
number, and the payload as its data. A server that takes it then has this document more. -/
theorem one_chunk_saved {turns : Nat} {saves : Saves} {chunkIndex : Nat} {data : InputStream}
    {mf : MFile} {chunkSize : Nat} {payload : Bytes} (nonempty : payload ≠ [])
    (fits : payload.length ≤ chunkSize) (split : data.reads.flatten = payload)
    (whole : data.fails = false) (enough : payload.length + data.reads.length + 2 < turns) :
    tryBlock turns saves chunkIndex data payload.length mf chunkSize =
        (MongoStorageService.saveChunk saves.chunk ⟨mf.storageKey, chunkIndex, payload⟩ >>= fun _ =>
          pure true).mapFault .raised ∧
      ∀ m : Mongo, saves.chunk = true → m.hasChunk mf.storageKey chunkIndex = false →
        tryBlock turns saves chunkIndex data payload.length mf chunkSize m =
          (.ok true, m.addChunk ⟨mf.storageKey, chunkIndex, payload⟩) := by
  subst split
  have positive := List.length_pos_of_ne_nil nonempty
  have once : tryBlock turns saves chunkIndex data data.reads.flatten.length mf chunkSize =
      (MongoStorageService.saveChunk saves.chunk ⟨mf.storageKey, chunkIndex, data.reads.flatten⟩ >>=
        fun _ => pure true).mapFault .raised := by
    rw [tryBlock_refines enough, MongoStorageService.tryBlock_whole positive (by omega) whole rfl]
  refine ⟨once, fun m accepted free => ?_⟩
  have saved : MongoStorageService.saveChunk saves.chunk
      ⟨mf.storageKey, chunkIndex, data.reads.flatten⟩ m =
        (.ok (), m.addChunk ⟨mf.storageKey, chunkIndex, data.reads.flatten⟩) := by
    simp only [MongoStorageService.saveChunk, attempt, accepted, free, Bool.not_false, Bool.and_self,
      if_true]
  rw [once]
  unfold mapFault
  rw [bind_ok saved]
  rfl

/-- A payload of exactly the chunk size in three reads: the round that follows the full buffer saves
nothing. -/
theorem one_chunk_saved_fullBuffer :
    tryBlock 10 {} 7 ⟨[[1], [2, 3], [4]], false⟩ 4 ⟨none, ⟨5⟩, 1, 1, 1, 32⟩ 4 ⟨[], [], 0⟩ =
      (.ok true, ⟨[], [⟨⟨5⟩, 7, [1, 2, 3, 4]⟩], 0⟩) :=
  (@one_chunk_saved 10 {} 7 ⟨[[1], [2, 3], [4]], false⟩ ⟨none, ⟨5⟩, 1, 1, 1, 32⟩ 4 [1, 2, 3, 4]
    (by decide) (by decide) rfl rfl (by decide)).2 _ rfl rfl

end Buffered

end Clb
