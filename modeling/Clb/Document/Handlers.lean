/-
# Document.Handlers -- the create, update, read and remove handlers

The handlers around `DocumentFacade`: the permission check, the content writer with its local copy
of images, and the four ways to create or update a document in one request. -/
import Clb.Document.Facade

set_option autoImplicit false

namespace Clb

open Clb.Lib Clb.Dao

/-- An uploaded resource: its name and declared length, whether its stream can be opened, what the
stream yields, and whether the server accepts the saves of its content. -/
structure Resource where
  filename : Option Text
  length : Int
  opens : Bool := true
  stream : InputStream
  accepted : Bool := true

/-- The uploaded bytes. -/
def Resource.bytes (r : Resource) : Bytes := r.stream.reads.flatten

structure UpdateInfo where
  docid : Int
  version : Text
deriving DecidableEq, Repr

/-- `OperationUtils.canResize`. -/
def canResize (fileExtension : Text) : Bool :=
  ["png".toList, "gif".toList, "jpg".toList, "jpeg".toList, "bmp".toList].contains fileExtension

namespace LocalFileCache

def tempFile (key : ObjectId) (c : LocalFileCache) : Option Bytes :=
  (c.tempFiles.find? fun entry => entry.1 == key).map (·.2)

/-- Whether `saveTempFile` takes the file that is there instead of the stream. -/
def hit (key : ObjectId) (c : LocalFileCache) : Bool :=
  (c.tempFile key).any fun bytes => c.cached.contains key || bytes != []

def put (key : ObjectId) (bytes : Bytes) (c : LocalFileCache) : LocalFileCache :=
  { c with tempFiles := (key, bytes) :: c.tempFiles.filter fun entry => entry.1 != key }

def remember (key : ObjectId) (c : LocalFileCache) : LocalFileCache :=
  { c with cached := key :: c.cached.filter (· != key) }

def forget (key : ObjectId) (c : LocalFileCache) : LocalFileCache :=
  { c with cached := c.cached.filter (· != key) }

/-- `saveTempFile`; false stands for the null that a failing stream leaves behind, together with the
part of the file that was written. -/
def saveTempFile (key : ObjectId) (ins : InputStream) : Action LocalFileCache Fault Bool := fun c =>
  if c.hit key then
    (.ok true, c.remember key)
  else if ins.fails then
    (.ok false, (c.put key ins.reads.flatten).forget key)
  else
    (.ok true, (c.put key ins.reads.flatten).remember key)

end LocalFileCache

namespace Handlers

open DocumentFacade

def onCache {α : Type} (act : Action LocalFileCache Fault α) : Act α :=
  Action.within Store.cache (fun c s => { s with cache := c }) act

/-- `AppAuthService.isPermitted`: a private document is open to its owner only. -/
def checkPermission (session : Session) (doc : DocMeta) : Act Unit :=
  Action.raiseIf (doc.isPub = 0 ∧ doc.authId ≠ some session.user) .noAuthority

def checkSystemIOMode (config : Config) : Act Unit :=
  Action.raiseIf (config.readonly = true) .invalidFileOperation

/-- `Resource.getInputStream`. -/
def getInputStream (resource : Resource) : Act InputStream := do
  Action.raiseIf (resource.opens = false) .io
  return resource.stream

/-- The stream from which the content is stored: for an image that of the local copy. -/
def contentStream (resource : Resource) (key : ObjectId) (name : Text) : Act InputStream := do
  let ins ← getInputStream resource
  if canResize (getSuffix name) then do
    let saved ← onCache (LocalFileCache.saveTempFile key ins)
    Action.raiseIf (saved = false) .nullPointer
    let bytes ← Action.read fun s => s.cache.tempFile key
    let bytes ← Action.require .io bytes
    return { reads := [bytes] }
  else
    return ins

/-- The faults that `saveFileContent` swallows. -/
def swallowed : Fault → Bool
  | .io => true
  | _ => false

/-- The body of the `try` in `saveFileContent`. -/
def storeContent (resource : Resource) (dv : DocVersion) (mf : MFile) : Act Unit := do
  let name ← Action.require .nullPointer dv.filename
  let ins ← contentStream resource mf.storageKey name
  onMongo (MongoStorageService.writeFile resource.accepted ins mf)

/-- `FileWriterHelper.saveFileContent`. -/
def saveFileContent (session : Session) (resource : Resource) (dv : DocVersion) : Act Unit := do
  let mf ← buildMongoFile session.appid dv resource.filename
  Action.catching swallowed () (storeContent resource dv mf)

/-- The part that `CreateDocHandler` and `CreateDocForJsonHandler` share: a document with a first
version that waits for its content. -/
def createWaiting (config : Config) (session : Session) (isPub : Int) (resource : Resource) :
    Act DocVersion := do
  let docid ← createNewDocMeta config session isPub
  let storageKey ← onMongo MongoStorageService.newObjectId
  createWaitingDocVersion session docid resource.filename resource.length (some storageKey)

/-- `CreateDocHandler`. -/
def createDoc (config : Config) (session : Session) (isPub : Int) (resource : Resource) :
    Act UpdateInfo := do
  checkSystemIOMode config
  let dv ← createWaiting config session isPub resource
  saveFileContent session resource dv
  updateUploadStatus session.appid dv.docid dv.version
  return ⟨dv.docid, decimalText dv.version⟩

/-- `CreateDocForJsonHandler`. -/
def createDocForJson (config : Config) (session : Session) (clbid isPub : Int)
    (resource : Resource) : Act UpdateInfo := do
  checkSystemIOMode config
  let dv ←
    if clbid ≠ 0 then
      getLastDocVersion session.appid clbid
    else
      createWaiting config session isPub resource
  saveFileContent session resource dv
  updateUploadStatus session.appid (if clbid ≠ 0 then clbid else dv.docid) dv.version
  incrRefOfKey dv.storageKey
  return ⟨dv.docid, decimalText dv.version⟩

/-- `UpdateDocHandler`. -/
def updateDoc (config : Config) (session : Session) (docid : Int) (resource : Resource) :
    Act UpdateInfo := do
  checkSystemIOMode config
  let doc ← getDocMetaByDocid session.appid docid
  checkPermission session doc
  let dv ← createDocVersion session docid resource.filename resource.length
  saveFileContent session resource dv
  updateUploadStatus session.appid dv.docid dv.version
  return ⟨dv.docid, decimalText dv.version⟩

/-- The `title` of an entry: its name after the last slash, or else backslash, up to the first dot. -/
def setTitle (name : Text) : Text :=
  let after (c : Char) : Text := (name.reverse.takeWhile fun x => x != c).reverse
  let trimmed := if '/' ∈ name then after '/' else if '\\' ∈ name then after '\\' else name
  trimmed.takeWhile fun x => x != '.'

/-- `BatchCreateListener.onNewEntry`; the status of the version is not advanced. -/
def onNewEntry (config : Config) (session : Session) (isPub : Int) (name : Text)
    (resource : Resource) : Act UpdateInfo := do
  let docid ← createNewDocMeta config session isPub
  let dv ← createDocVersion session docid (some (setTitle name)) resource.length
  saveFileContent session { resource with filename := some name } dv
  return ⟨dv.docid, decimalText dv.version⟩

/-- The entries of the archive in order; `UnCompress.unzip` ends at the first one it cannot open. A
later entry of the same name replaces the information of an earlier one. -/
def unzip (config : Config) (session : Session) (isPub : Int) :
    List (Text × Resource) → List (Text × UpdateInfo) → Act (List (Text × UpdateInfo))
  | [], infos => return infos
  | (name, resource) :: rest, infos =>
    if resource.opens then do
      let info ← onNewEntry config session isPub name resource
      unzip config session isPub rest ((infos.filter fun entry => entry.1 != name) ++ [(name, info)])
    else
      return infos

/-- `CreateMultiDocsHandler`, for an archive that was copied to its temp file. -/
def createMultiDocs (config : Config) (session : Session) (isPub : Int)
    (entries : List (Text × Resource)) : Act (List (Text × UpdateInfo)) := do
  checkSystemIOMode config
  unzip config session isPub entries []

/-- What `GridFSDBFile.writeTo` sends: the chunks up to the first that is missing. -/
def writeTo (f : GridFSFile) (m : Mongo) : Bytes :=
  (((List.range (pieceCount f.length.toNat f.chunkSize.toNat)).map fun n =>
    (m.findChunk f.id n).map (·.data)).takeWhile (·.isSome)).reduceOption.flatten

def readDocContent (dv : DocVersion) : Act GridFSFile := do
  let key ← Action.require .fileContentNotFound dv.storageKey
  let f ← Action.read fun s => s.mongo.readFile key
  Action.require .fileContentNotFound f

/-- `GetDocContentHandler`: the bytes written to the response. -/
def getDocContent (session : Session) (dp : DocPair) : Act Bytes := do
  let p ← Action.require .invalidArgument (convertToPair session.appid dp)
  let doc ← getDocMetaByDocid p.appid p.docid
  checkPermission session doc
  let dv ← getDocVersion p
  Action.raiseIf (dv.isCompletedStatus = false) .readUncompleted
  let f ← readDocContent dv
  Action.read fun s => writeTo f s.mongo

/-- `RemoveDocHandler`. -/
def removeDoc (session : Session) (docid : Int) : Act Unit := do
  let doc ← getDocMetaByDocid session.appid docid
  checkPermission session doc
  removeDocument session.appid docid

/-- `RemoveDocVersionHandler`. -/
def removeVersion (session : Session) (dp : DocPair) : Act Nat := do
  let p ← Action.require .invalidArgument (convertToPair session.appid dp)
  let doc ← getDocMetaByDocid p.appid p.docid
  checkPermission session doc
  let dv ← getDocVersion p
  removeDocVersion dv

end Handlers

end Clb
