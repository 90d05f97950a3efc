/-
# Document.Facade -- DocumentFacade

The calls of `DocumentFacade` on the store, statement by statement. `prepareUpload`,
`writeChunkData` and `finishUpload` are the three phases of a chunked upload; `createClbRef` adds a
document for content that is stored already; `removeDocument` and `removeDocVersion` delete. -/
import Clb.Document.Store

set_option autoImplicit false

namespace Clb

open Clb.Lib Clb.Dao

/-- `MimeType.getSuffix`. -/
def getSuffix (fname : Text) : Text :=
  if '.' ∈ fname then
    ((fname.reverse.takeWhile fun c => c != '.').reverse).map Char.toLower
  else
    []

/-- `Integer.parseInt`, for the ASCII digits. -/
def parseInt (s : Text) : Option Int :=
  let negative := s.head? == some '-'
  let digits := if negative || s.head? == some '+' then s.tail else s
  if digits ≠ [] ∧ digits.all Char.isDigit then
    let n : Int := Nat.ofDigitChars 10 digits 0
    let value := if negative then -n else n
    if -2147483648 ≤ value ∧ value ≤ 2147483647 then some value else none
  else
    none

/-- `version + ""` for a version number. -/
def decimalText (n : Int) : Text :=
  if n < 0 then '-' :: Nat.toDigits 10 n.natAbs else Nat.toDigits 10 n.natAbs

/-- `GlobalConst.MAX_CHUNK_SIZE`. -/
def MAX_CHUNK_SIZE : Int := 16 * 1024 * 1024

structure DocPair where
  docid : Int
  version : Text
deriving Repr

structure PrepareChunkUploadParam where
  filename : Option Text
  md5 : Option Text
  size : Int
  chunkSize : Int
deriving Repr

structure ExecuteChunkUploadParam where
  docid : Int
  index : Int
  length : Int
deriving Repr

structure ClbMeta where
  docid : Int
  filename : Option Text
  size : Int
  md5 : Option Text
deriving Repr

/-- The status codes of `ChunkResponse`. -/
inductive ChunkCode where
  | FOUND_THE_SAME_CONTENT
  | SUCCESS
  | DUPLICATE_CHUNK
  | TOO_LARGE_CHUNK
  | EXCEED_MAX_CHUNK_SIZE
  | NOT_FOUND_CHUNK_META
  | CHUNK_INDEX_INVALID
  | NEED_MORE_CHUNK
deriving DecidableEq, Repr

inductive Phase where
  | prepare
  | execute
  | finish
deriving DecidableEq, Repr

structure ChunkResponse where
  phase : Phase
  docid : Int
  chunkIndex : Int
  statusCode : ChunkCode
  chunkSize : Int
  emptyChunkSet : Option (List Nat)
  opts : Option (List (String × Int))
deriving DecidableEq, Repr

namespace DocumentFacade

/-- `convertToPair`. -/
def convertToPair (appid : Int) (dp : DocPair) : Option DPair :=
  if dp.docid ≤ 0 then
    none
  else if dp.version = "latest".toList then
    some ⟨appid, dp.docid, DPair.LATEST⟩
  else
    (parseInt dp.version).map fun version => ⟨appid, dp.docid, version⟩

def getNextID (config : Config) (appid : Int) : Act Int := fun s =>
  (.ok (config.nextID appid (s.docids appid)),
    { s with docids := Function.update s.docids appid (s.docids appid + 1) })

/-- `createDocMeta(appid, docid, isPub)`. -/
def createDocMeta (session : Session) (docid isPub : Int) : Act Int := do
  let _ ← onDocs (Action.attempt .dataIntegrity (DocMetaDAO.create
    { appid := session.appid, authId := some session.user, lastVersion := 1, isPub, docid }))
  return docid

/-- `createDocMeta(appid, isPub)`, with a generated id. -/
def createNewDocMeta (config : Config) (session : Session) (isPub : Int) : Act Int := do
  let docid ← getNextID config session.appid
  createDocMeta session docid isPub

/-- `buildDocVersion`; the suffix of a null file name raises. -/
def buildDocVersion (appid docid : Int) (filename : Option Text) (size : Int)
    (storageKey : Option ObjectId) (status : UploadStatus) : Act DocVersion := do
  let name ← Action.require .nullPointer filename
  return {
    appid, docid, filename := some name, size, storageKey,
    fileExtension := some (getSuffix name), uploadStatus := some status }

def updateDocMeta (ndv : DocVersion) : Act Unit :=
  onDocs (Action.attempt .dataIntegrity fun table =>
    (DocMetaDAO.update
      { appid := ndv.appid, docid := ndv.docid, lastVersion := ndv.version }
      ["appid", "docid"] table).map fun table => ((), table))

def createDocVersion (session : Session) (docid : Int) (filename : Option Text) (size : Int) :
    Act DocVersion := do
  let storageKey ← onMongo MongoStorageService.newObjectId
  let dv ← buildDocVersion session.appid docid filename size (some storageKey) .waiting
  let ndv ← onVersions (DocVersionDAO.create dv)
  updateDocMeta ndv
  return ndv

/-- `createCompletedDocVersion` and `createWaitingDocVersion`, which differ in the status. -/
def createFirstDocVersion (session : Session) (docid : Int) (filename : Option Text) (size : Int)
    (storageKey : Option ObjectId) (status : UploadStatus) : Act DocVersion := do
  let dv ← buildDocVersion session.appid docid filename size storageKey status
  onVersions (Action.attempt .dataIntegrity (DocVersionDAO.createFirstVersion dv))

def createCompletedDocVersion (session : Session) (docid : Int) (filename : Option Text)
    (size : Int) (storageKey : Option ObjectId) : Act DocVersion :=
  createFirstDocVersion session docid filename size storageKey .complete

def createWaitingDocVersion (session : Session) (docid : Int) (filename : Option Text) (size : Int)
    (storageKey : Option ObjectId) : Act DocVersion :=
  createFirstDocVersion session docid filename size storageKey .waiting

def getDocMetaByDocid (appid docid : Int) : Act DocMeta := do
  let doc ← Action.read fun s => DocMetaDAO.read appid docid s.docs
  Action.require (.metaNotFound appid docid) doc

/-- `getDocVersion(DPair)`. -/
def getDocVersion (p : DPair) : Act DocVersion := do
  let dv ← Action.read fun s => DocVersionDAO.read p s.versions
  Action.require (.metaNotFound p.appid p.docid) dv

/-- `getDocVersion(appid, docid)`. -/
def getLastDocVersion (appid docid : Int) : Act DocVersion := do
  let dv ← Action.read fun s => DocVersionDAO.readLastVersion appid docid s.versions
  Action.require (.metaNotFound appid docid) dv

/-- `buildMongoFile`, with the file name of the version or of the uploaded resource. -/
def buildMongoFile (appid : Int) (dv : DocVersion) (filename : Option Text) : Act MFile := do
  let name ← Action.require .nullPointer filename
  let storageKey ← Action.require .illegalArgument dv.storageKey
  return { filename := some name, storageKey, docid := dv.docid, vid := dv.version, appid }

def updateUploadStatus (appid docid version : Int) : Act Unit :=
  onVersions (Action.attempt .dataIntegrity fun table =>
    (DocVersionDAO.updateStatus
      { appid, docid, version, uploadStatus := some .complete } table).map fun table => ((), table))

/-- `queryDocumentChunkSet`. -/
def queryDocumentChunkSet (storageKey : Option ObjectId) : Act (Finset Nat) := do
  let key ← Action.require .illegalArgument storageKey
  Action.read fun s => s.mongo.queryChunkMap key

/-! ## Removal -/

def removeDocument (appid docid : Int) : Act Unit := do
  let versions ← Action.read fun s => DocVersionDAO.readVersions appid docid s.versions
  Action.forEach (fun v => onMongo (MongoStorageService.removeDocument v.storageKey)) versions
  Action.write fun s => { s with versions := DocVersionDAO.deleteByDocid appid docid s.versions }
  Action.write fun s => { s with docs := DocMetaDAO.delete appid docid s.docs }

/-- The end of `removeDocVersion`: the document follows its last version. -/
def followLastVersion (appid docid : Int) : Act Unit := do
  let ndv ← Action.read fun s => DocVersionDAO.readLastVersion appid docid s.versions
  match ndv with
  | some ndv => updateDocMeta ndv
  | none => Action.write fun s => { s with docs := DocMetaDAO.delete appid docid s.docs }

/-- `removeDocVersion`, which returns the number of deleted rows. -/
def removeDocVersion (dv : DocVersion) : Act Nat := do
  onMongo (MongoStorageService.removeDocument dv.storageKey)
  let flag ← Action.read fun s =>
    (docVersionDAO.findByProperties
      (DocVersionDAO.ofPair ⟨dv.appid, dv.docid, dv.version⟩) s.versions).length
  Action.write fun s =>
    { s with versions := DocVersionDAO.delete ⟨dv.appid, dv.docid, dv.version⟩ s.versions }
  followLastVersion dv.appid dv.docid
  return flag

/-! ## References to stored content -/

/-- The counter of a row that was read, raised as a Java `int` and written back. -/
def updateRef (ref : DocRef) : Act Unit :=
  onRefs (Action.attempt .dataIntegrity fun table =>
    (DocRefDAO.updateRef { ref with ref := (ref.ref + 1).bmod 4294967296 } table).map
      fun table => ((), table))

def incrRef (md5 : Option Text) (size : Int) : Act Unit :=
  onRefs (Action.attempt .dataIntegrity fun table =>
    (DocRefDAO.incrRef md5 size table).map fun table => ((), table))

def incrRefOfKey (storageKey : Option ObjectId) : Act Unit :=
  onRefs (Action.attempt .dataIntegrity fun table =>
    (DocRefDAO.incrRefOfKey storageKey table).map fun table => ((), table))

def createClbRef (session : Session) (clb : ClbMeta) : Act Unit := do
  let _ ← createDocMeta session clb.docid 0
  let ref ← Action.read fun s => DocRefDAO.read clb.md5 clb.size s.refs
  let ref ← Action.require .nullPointer ref
  updateRef ref
  let _ ← createFirstDocVersion session clb.docid clb.filename clb.size ref.storageKey .complete

/-! ## Chunked uploads -/

/-- The content is stored: the new document shares it. -/
def prepareFound (session : Session) (docid : Int) (param : PrepareChunkUploadParam) (ref : DocRef) :
    Act ChunkResponse := do
  incrRef param.md5 param.size
  let _ ← createCompletedDocVersion session docid param.filename param.size ref.storageKey
  return ⟨.prepare, docid, 0, .FOUND_THE_SAME_CONTENT, param.chunkSize, none, some []⟩

/-- An upload of the content has begun: the new document goes on under its storage key. -/
def prepareResumed (session : Session) (docid : Int) (param : PrepareChunkUploadParam)
    (ref : DocRef) : Act ChunkResponse := do
  let _ ← createWaitingDocVersion session docid param.filename param.size ref.storageKey
  let _ ← onChunkStatus (Action.attempt .dataIntegrity
    (DocChunkStatusDAO.create session.appid docid param.size param.md5 param.chunkSize))
  let existSet ← queryDocumentChunkSet ref.storageKey
  let dcs ← onChunkStatus (DocChunkStatusDAO.updateChunkStatusOfSet session.appid docid existSet)
  return ⟨.prepare, docid, 0, .SUCCESS, param.chunkSize, some dcs.findEmptyChunk, some []⟩

/-- The content is new. -/
def prepareNew (session : Session) (docid : Int) (param : PrepareChunkUploadParam) :
    Act ChunkResponse := do
  let storageKey ← onMongo MongoStorageService.newObjectId
  let _ ← onRefs (Action.attempt .dataIntegrity
    (DocRefDAO.create { md5 := param.md5, size := param.size, ref := 0, storageKey := some storageKey }))
  let _ ← createWaitingDocVersion session docid param.filename param.size (some storageKey)
  let dcs ← onChunkStatus (Action.attempt .dataIntegrity
    (DocChunkStatusDAO.create session.appid docid param.size param.md5 param.chunkSize))
  return ⟨.prepare, docid, 0, .SUCCESS, param.chunkSize, some dcs.findEmptyChunk, some []⟩

def prepareUpload (config : Config) (session : Session) (param : PrepareChunkUploadParam) :
    Act ChunkResponse := do
  let docid ← createNewDocMeta config session 0
  let ref ← Action.read fun s => DocRefDAO.read param.md5 param.size s.refs
  if MAX_CHUNK_SIZE < param.chunkSize then
    return ⟨.prepare, docid, 0, .EXCEED_MAX_CHUNK_SIZE, param.chunkSize, none,
      some [("currentChunkSize", param.chunkSize)]⟩
  else
    match ref with
    | some ref =>
      if 0 < ref.ref then
        prepareFound session docid param ref
      else if ref.ref = 0 then
        prepareResumed session docid param ref
      else
        return ⟨.prepare, docid, 0, .SUCCESS, param.chunkSize, none, some []⟩
    | none => prepareNew session docid param

/-- The branch of `writeChunkData` for a chunk that the map does not name yet. -/
def writeEmptyChunk (session : Session) (saves : Saves) (cup : ExecuteChunkUploadParam)
    (ins : InputStream) (mf : MFile) (dcs : DocChunkStatus) : Act ChunkResponse := do
  onMongo (MongoStorageService.chunkedUpload saves cup.index.toNat dcs.numOfChunk ins cup.length
    { mf with length := dcs.fileSize } dcs.chunkSize)
  let _ ← onChunkStatus
    (DocChunkStatusDAO.updateChunkStatus session.appid cup.docid cup.index.toNat)
  return ⟨.execute, cup.docid, cup.index, .SUCCESS, dcs.chunkSize, some dcs.findEmptyChunk, some []⟩

/-- `writeChunkData`. Without a chunk status row the code NOT_FOUND_CHUNK_META is chosen, but the
response reads the chunk size of the missing row. -/
def writeChunkData (session : Session) (saves : Saves) (cup : ExecuteChunkUploadParam)
    (ins : InputStream) : Act ChunkResponse := do
  let dv ← getLastDocVersion session.appid cup.docid
  let mf ← buildMongoFile session.appid dv dv.filename
  let dcs ← Action.read fun s => DocChunkStatusDAO.read session.appid cup.docid s.chunkStatus
  let dcs ← Action.require .nullPointer dcs
  if dcs.numOfChunk ≤ cup.index ∨ cup.index < 0 then
    return ⟨.execute, cup.docid, cup.index, .CHUNK_INDEX_INVALID, dcs.chunkSize, none,
      some [("numOfChunk", dcs.numOfChunk)]⟩
  else if dcs.chunkSize < cup.length then
    return ⟨.execute, cup.docid, cup.index, .TOO_LARGE_CHUNK, dcs.chunkSize, none,
      some [("chunkSize", dcs.chunkSize), ("currentChunkSize", cup.length)]⟩
  else if cup.index.toNat ∈ dcs.findEmptyChunk then
    writeEmptyChunk session saves cup ins mf dcs
  else
    return ⟨.execute, cup.docid, cup.index, .DUPLICATE_CHUNK, dcs.chunkSize,
      some dcs.findEmptyChunk, some []⟩

def finishUpload (session : Session) (docid : Int) : Act ChunkResponse := do
  let docVersion ← Action.read fun s => DocVersionDAO.readLastVersion session.appid docid s.versions
  let docVersion ← Action.require .nullPointer docVersion
  let existSet ← queryDocumentChunkSet docVersion.storageKey
  let dcs ← onChunkStatus (DocChunkStatusDAO.updateChunkStatusOfSet session.appid docid existSet)
  if dcs.findEmptyChunk = [] then do
    updateUploadStatus session.appid docid 1
    incrRef dcs.md5 dcs.fileSize
    return ⟨.finish, docid, 0, .SUCCESS, dcs.chunkSize, some [], none⟩
  else
    return ⟨.finish, docid, 0, .NEED_MORE_CHUNK, dcs.chunkSize, some dcs.findEmptyChunk, none⟩

def queryEmptyChunks (appid docid : Int) : Act (Option (List Nat)) := do
  let dcs ← Action.read fun s => DocChunkStatusDAO.read appid docid s.chunkStatus
  return dcs.map DocChunkStatus.findEmptyChunk

end DocumentFacade

end Clb
