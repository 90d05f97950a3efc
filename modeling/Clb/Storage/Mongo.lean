/-
# Storage.Mongo -- the GridFS collections and MongoStorageService

`fs.files` holds one entry per stored file and `fs.chunks` its pieces. A plain upload goes through
the driver (`writeFile`); a chunked one stores its pieces one call at a time (`chunkedUpload`), and
the entry of the file is written with the last chunk number. Here the bytes of a call are lists; the
arrays that hold them are in `Storage.Buffered`. -/
import Mathlib.Data.Finset.Dedup
import Clb.Lib.Pieces
import Clb.Dao.Tables

set_option autoImplicit false

namespace Clb

open Clb.Lib

/-- An entry of fs.files. The content type, the digest and the public flag are left out. -/
structure GridFSFile where
  id : ObjectId
  filename : Option Text
  storageKey : ObjectId
  docid : Int
  vid : Int
  appid : Int
  length : Int
  chunkSize : Int
deriving DecidableEq, Repr

/-- A document of fs.chunks. -/
structure GridFSChunk where
  filesId : ObjectId
  n : Nat
  data : Bytes
deriving DecidableEq, Repr

/-- The two collections, and how many identifiers were handed out. -/
structure Mongo where
  files : List GridFSFile
  chunks : List GridFSChunk
  issued : Nat

/-- What an input stream yields: the blocks of the successive reads, and whether it then fails with
an IOException instead of ending. -/
structure InputStream where
  reads : List Bytes
  fails : Bool := false
deriving Repr

/-- Whether the server accepts the saves of one call. -/
structure Saves where
  chunk : Bool := true
  header : Bool := true
deriving Repr

/-- The metadata of a file to be written. -/
structure MFile where
  filename : Option Text
  storageKey : ObjectId
  docid : Int
  vid : Int
  appid : Int
  length : Int := 0

namespace Mongo

/-- `findOne` by storage key. -/
def readFile (storageKey : ObjectId) (m : Mongo) : Option GridFSFile :=
  m.files.find? fun f => f.storageKey == storageKey

def findChunk (filesId : ObjectId) (n : Nat) (m : Mongo) : Option GridFSChunk :=
  m.chunks.find? fun c => c.filesId == filesId && c.n == n

/-- The chunks of a file in the order of their numbers, as long as none is missing. A file without
a positive chunk size has no readable content. -/
def content (f : GridFSFile) (m : Mongo) : Option Bytes :=
  if f.chunkSize ≤ 0 then
    none
  else
    ((List.range (pieceCount f.length.toNat f.chunkSize.toNat)).mapM fun n =>
      (m.findChunk f.id n).map (·.data)).map List.flatten

/-- The bytes a storage key resolves to. -/
def storedBytes (storageKey : ObjectId) (m : Mongo) : Option Bytes :=
  (m.readFile storageKey).bind fun f => m.content f

/-- `queryChunkMap`. -/
def queryChunkMap (storageKey : ObjectId) (m : Mongo) : Finset Nat :=
  ((m.chunks.filter fun c => c.filesId == storageKey).map (·.n)).toFinset

def hasChunk (filesId : ObjectId) (n : Nat) (m : Mongo) : Bool :=
  m.chunks.any fun c => c.filesId == filesId && c.n == n

def addChunk (c : GridFSChunk) (m : Mongo) : Mongo := { m with chunks := m.chunks ++ [c] }

/-- `save` replaces the entry of the same id or adds one. -/
def putFile (f : GridFSFile) (m : Mongo) : Mongo :=
  { m with
    files :=
      if m.files.any fun old => old.id == f.id then
        m.files.map fun old => if old.id == f.id then f else old
      else
        m.files ++ [f] }

end Mongo

namespace MongoStorageService

/-- `new ObjectId()`. -/
def newObjectId : Action Mongo Fault ObjectId := fun m =>
  (.ok ⟨m.issued⟩, { m with issued := m.issued + 1 })

/-- A chunk is inserted; the unique index on (files_id, n) rejects a second one of the same number. -/
def saveChunk (accepted : Bool) (c : GridFSChunk) : Action Mongo Fault Unit :=
  Action.attempt .mongo fun m =>
    if accepted && !m.hasChunk c.filesId c.n then some ((), m.addChunk c) else none

def saveFile (accepted : Bool) (f : GridFSFile) : Action Mongo Fault Unit :=
  Action.attempt .mongo fun m => if accepted then some ((), m.putFile f) else none

/-- `MyGridFSInputFile._dumpBuffer`: an empty buffer is not stored. -/
def dumpBuffer (accepted : Bool) (filesId : ObjectId) (n : Nat) (buffer : Bytes) :
    Action Mongo Fault Unit :=
  if buffer = [] then pure () else saveChunk accepted ⟨filesId, n, buffer⟩

/-- The loop of `MyGridFSInputFile.saveChunks` over the bytes not yet read. The number of the chunk
does not change from round to round; a round that does not fill the buffer has met the end. -/
def saveChunksLoop (accepted : Bool) (filesId : ObjectId) (n chunkSize : Nat) :
    Nat → Bytes → Action Mongo Fault Unit
  | 0, _ => pure ()
  | rounds + 1, rest => do
      let buffer := rest.take chunkSize
      dumpBuffer accepted filesId n buffer
      if buffer.length < chunkSize then
        pure ()
      else
        saveChunksLoop accepted filesId n chunkSize rounds (rest.drop chunkSize)

def saveChunks (accepted : Bool) (filesId : ObjectId) (n : Nat) (chunkSize : Int) (bytes : Bytes) :
    Action Mongo Fault Unit :=
  if chunkSize ≤ 0 then
    Action.raise .mongo
  else
    saveChunksLoop accepted filesId n chunkSize.toNat (bytes.length + 1) bytes

/-- The copy loop of `chunkedUpload` into a buffer of `dataLength` bytes. -/
def copyLoop (dataLength : Nat) (fails : Bool) : List Bytes → Bytes → Except Fault Bytes
  | [], bigBuf => if fails then .error .io else .ok bigBuf
  | block :: rest, bigBuf =>
    if dataLength < bigBuf.length + block.length then
      .error .indexOutOfBounds
    else
      copyLoop dataLength fails rest (bigBuf ++ block)

/-- The body of the `try` in `chunkedUpload`. The result is false where the method returns from
there, because the data are shorter than declared. -/
def tryBlock (saves : Saves) (chunkIndex : Nat) (data : InputStream) (dataLength : Nat) (mf : MFile)
    (chunkSize : Int) : Action Mongo Fault Bool :=
  match copyLoop dataLength data.fails data.reads [] with
  | .error fault => Action.raise fault
  | .ok bigBuf =>
    if dataLength ≠ bigBuf.length then
      pure false
    else do
      saveChunks saves.chunk mf.storageKey chunkIndex chunkSize bigBuf
      return true

/-- The faults the `catch` clauses of `chunkedUpload` swallow. -/
def caught : Fault → Bool
  | .io => true
  | .mongo => true
  | _ => false

/-- The entry of the file, written with its last chunk. -/
def header (mf : MFile) (chunkSize : Int) : GridFSFile :=
  { id := mf.storageKey, filename := mf.filename, storageKey := mf.storageKey, docid := mf.docid,
    vid := mf.vid, appid := mf.appid, length := mf.length, chunkSize }

def chunkedUpload (saves : Saves) (chunkIndex : Nat) (chunkCount : Int) (data : InputStream)
    (dataLength : Int) (mf : MFile) (chunkSize : Int) : Action Mongo Fault Unit := do
  Action.raiseIf (chunkSize < 0) .negativeArraySize
  Action.raiseIf (dataLength < 0) .negativeArraySize
  let goesOn ←
    Action.catching caught true (tryBlock saves chunkIndex data dataLength.toNat mf chunkSize)
  if goesOn = true ∧ (chunkIndex : Int) = chunkCount - 1 then
    saveFile saves.header (header mf chunkSize)

/-- The chunk size of the driver, `GridFS.DEFAULT_CHUNKSIZE`. -/
def DEFAULT_CHUNKSIZE : Nat := 255 * 1024

/-- The documents the driver stores for `bytes` under a file id. -/
def driverChunks (filesId : ObjectId) (bytes : Bytes) (count : Nat) : List GridFSChunk :=
  (List.range count).map fun n => ⟨filesId, n, piece DEFAULT_CHUNKSIZE n bytes⟩

/-- `writeFile`: the driver gives the file an id of its own, stores full chunks as it reads them, the
last one and the entry at the end. A stream that fails midway leaves the full chunks read so far. -/
def writeFile (accepted : Bool) (ins : InputStream) (mf : MFile) : Action Mongo Fault Unit := do
  let id ← newObjectId
  let bytes := ins.reads.flatten
  if accepted = false then
    Action.raise .mongo
  else if ins.fails then do
    Action.write fun m =>
      { m with chunks := m.chunks ++ driverChunks id bytes (bytes.length / DEFAULT_CHUNKSIZE) }
    Action.raise .mongo
  else
    Action.write fun m =>
      { m with
        chunks := m.chunks ++ driverChunks id bytes (pieceCount bytes.length DEFAULT_CHUNKSIZE)
        files := m.files ++ [{
          id, filename := mf.filename, storageKey := mf.storageKey, docid := mf.docid,
          vid := mf.vid, appid := mf.appid, length := bytes.length,
          chunkSize := DEFAULT_CHUNKSIZE }] }

/-- `deleteMetaAndContent`: every file of the key goes, with the chunks under its id. -/
def deleteMetaAndContent (storageKey : ObjectId) (m : Mongo) : Mongo :=
  let ids := (m.files.filter fun f => f.storageKey == storageKey).map (·.id)
  { m with
    files := m.files.filter fun f => !ids.contains f.id
    chunks := m.chunks.filter fun c => !ids.contains c.filesId }

/-- `removeDocument`; `new ObjectId` refuses a null key. -/
def removeDocument (storageKey : Option ObjectId) : Action Mongo Fault Unit := do
  let key ← Action.require .illegalArgument storageKey
  Action.write (deleteMetaAndContent key)

end MongoStorageService

end Clb
