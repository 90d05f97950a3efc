/-
# Trivial.Space -- archives unpacked into trivial spaces

`TrivialFacade` and the handlers of clb.trivial. A space is created from the archive of a document
version and is named by the storage key of that version; its row of clb_trivial_item says which version
it was unpacked from last. The handlers schedule the unpacking, and remove the files of a space.

A space name travels as text. `HexCodec` is the text form of an identifier, of which only the round trip
is used. -/
import Clb.Document.ReadPaths
import Clb.Dao.Items

set_option autoImplicit false

namespace Clb

open Clb.Lib Clb.Dao DocumentFacade Handlers

/-- The text form of MongoDB identifiers: `ObjectId.toString` and `new ObjectId(String)`. -/
structure HexCodec where
  toHex : ObjectId → Text
  ofHex : Text → Option ObjectId
  ofHex_toHex : ∀ key, ofHex (toHex key) = some key

structure TrivialParam where
  docPair : DocPair
  unzipBaseDir : Option Text
  spaceName : Option Text
deriving Repr

/-- What the handlers answer; the URL by the name that `URLBuilder` appends to the context. -/
structure TrivialSpace where
  docid : Int
  spaceName : Option Text
  version : Text
  spaceURL : Option Text
deriving DecidableEq, Repr

/-- A file of clb_trivial. -/
structure TrivialFile where
  spaceName : ObjectId
  fileName : Text
deriving DecidableEq, Repr

structure DecompressEvent where
  zipFile : Bytes
  spaceName : Option Text
  filterDir : Option Text
deriving DecidableEq, Repr

structure TrivialServer where
  store : Store
  items : Table TrivialItem
  files : List TrivialFile
  eventQueue : List DecompressEvent

abbrev Trivial := Action TrivialServer Fault

/-- `OperationUtils.canUnzip`. -/
def canUnzip (fileExtension : Text) : Bool := ["zip".toList].contains fileExtension

/-- `URLBuilder.getTrivialURL`. -/
def URLBuilder.getTrivialURL (storageKey : Option Text) : Option Text :=
  storageKey.filter fun key => key != []

namespace TrivialFacade

def onDocuments {α : Type} (act : Act α) : Trivial α :=
  Action.within TrivialServer.store (fun t s => { s with store := t }) act

def checkFileOperation (dv : DocVersion) : Act Unit :=
  Action.raiseIf ((dv.fileExtension.any fun ext => canUnzip (ext.map Char.toLower)) = false)
    .invalidFileOperation

/-- `writeZipFileToTempFile`, for a temp directory that can be written to. -/
def writeZipFileToTempFile (gfile : GridFSFile) : Act Bytes := do
  let ins ← Action.read fun s => gfile.getInputStream s.mongo
  Action.raiseIf (ins.fails = true) .mongo
  return ins.reads.flatten

def decompressZipFile (zipFile : Bytes) (spaceName filterDir : Option Text) : Trivial Unit :=
  Action.write fun s => { s with eventQueue := s.eventQueue ++ [⟨zipFile, spaceName, filterDir⟩] }

def getTrivialSpace (item : TrivialItem) : TrivialSpace where
  docid := item.docid
  spaceName := item.spaceName
  version := decimalText item.version
  spaceURL := URLBuilder.getTrivialURL item.spaceName

def getTrivialItemByStorageKey (spaceName : Option Text) : Trivial TrivialItem := do
  let item ← Action.read fun s => TrivialItemDAO.readBySpaceName spaceName s.items
  Action.require (.trivialNotFound spaceName) item

/-- `updateTrivialItemInfo`: whether there was a row to update. -/
def updateTrivialItemInfo (dv : DocVersion) (item : TrivialItem) : Trivial Bool :=
  Action.attempt .dataIntegrity fun s =>
    (TrivialItemDAO.update
      { item with
        appid := dv.appid, docid := dv.docid, version := dv.version
        status := some CLBStatus.READY.name } s.items).map fun items =>
      (s.items.rows.any fun row => row.id == item.id, { s with items })

/-- `removeTrivialItem`: whether a row was deleted. -/
def removeTrivialItem (itm : TrivialItem) : Trivial Bool := do
  let before ← Action.read fun s => s.items.rows.length
  Action.write fun s =>
    { s with items := TrivialItemDAO.delete ⟨itm.appid, itm.docid, itm.version⟩ s.items }
  Action.read fun s => decide (s.items.rows.length < before)

section Names

variable (codec : HexCodec)

def saveTrivialItemInfo (dv : DocVersion) : Trivial TrivialSpace := do
  let item : TrivialItem :=
    { appid := dv.appid, docid := dv.docid, version := dv.version
      spaceName := dv.storageKey.map codec.toHex, status := some CLBStatus.READY.name }
  Action.attempt .dataIntegrity fun s =>
    (TrivialItemDAO.create item s.items).map fun out => ((), { s with items := out.2 })
  return getTrivialSpace item

def removeTrivialFiles (spaceName : Option Text) : Trivial Unit := do
  let key ← Action.require .illegalArgument (spaceName.bind codec.ofHex)
  Action.write fun s => { s with files := s.files.filter fun f => f.spaceName != key }

end Names

end TrivialFacade

namespace TrivialHandlers

open TrivialFacade

section Handlers

variable (codec : HexCodec) (config : Config) (session : Session)

/-- What `CreateTrivialSpaceHandler` does before it writes: the archive of the version. -/
def archive (tp : TrivialParam) : Act (DocVersion × Bytes) := do
  checkSystemIOMode config
  let p ← openDocument session tp.docPair
  let dv ← getDocVersion p
  checkFileOperation dv
  let gfile ← readDocContent dv
  let zipFile ← writeZipFileToTempFile gfile
  return (dv, zipFile)

/-- `CreateTrivialSpaceHandler`. -/
def createTrivialSpace (tp : TrivialParam) : Trivial TrivialSpace := do
  let (dv, zipFile) ← onDocuments (archive config session tp)
  decompressZipFile zipFile (dv.storageKey.map codec.toHex) tp.unzipBaseDir
  saveTrivialItemInfo codec dv

/-- The item of a space, if its document is open to the session. -/
def openSpace (spaceName : Option Text) : Trivial TrivialItem := do
  let item ← getTrivialItemByStorageKey spaceName
  let doc ← onDocuments (getDocMetaByDocid item.appid item.docid)
  onDocuments (checkPermission session doc)
  return item

/-- `GetTrivialSpaceHandler`. -/
def getTrivialSpace (spaceName : Option Text) : Trivial TrivialSpace := do
  let item ← openSpace session spaceName
  return TrivialFacade.getTrivialSpace item

/-- What `UpdateTrivialSpaceHandler` reads after it has removed the files: the new version and its
archive, and the item of the space. -/
def replacement (tp : TrivialParam) (p : DPair) : Trivial (DocVersion × TrivialItem × Bytes) := do
  let newDocVersion ← onDocuments (getDocVersion p)
  onDocuments (checkFileOperation newDocVersion)
  let item ← getTrivialItemByStorageKey tp.spaceName
  let newZipFile ← onDocuments (readDocContent newDocVersion)
  let tempNewZipFile ← onDocuments (writeZipFileToTempFile newZipFile)
  return (newDocVersion, item, tempNewZipFile)

/-- `UpdateTrivialSpaceHandler`. -/
def updateTrivialSpace (tp : TrivialParam) : Trivial Bool := do
  let p ← onDocuments (openDocument session tp.docPair)
  removeTrivialFiles codec tp.spaceName
  let (newDocVersion, item, tempNewZipFile) ← replacement tp p
  decompressZipFile tempNewZipFile item.spaceName tp.unzipBaseDir
  updateTrivialItemInfo newDocVersion item

/-- `DeleteTrivialSpaceHandler`. -/
def deleteTrivialSpace (spaceName : Option Text) : Trivial Bool := do
  let itm ← openSpace session spaceName
  removeTrivialFiles codec itm.spaceName
  removeTrivialItem itm

end Handlers

end TrivialHandlers

end Clb
