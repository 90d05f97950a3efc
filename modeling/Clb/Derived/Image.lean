/-
# Derived.Image -- the resized copies of an image

`ImageFacade` with its queue and its workers, and the handlers of clb.image. A request inserts one row
of clb_image_item for each size and queues one event for each row; a worker writes the resized file
under the key of the event's item and marks the rows of that key. Rows that wait without an event in
the queue are marked as zombies when somebody asks for them, and are queued again. -/
import Clb.Derived.Server

set_option autoImplicit false

namespace Clb

open Clb.Lib Clb.Dao

structure ResizeParam where
  docid : Int
  version : Text
  smallPoint : Int
  mediumPoint : Int
  largePoint : Int
  useWidthOrHeight : Option Text
deriving Repr

structure ImageQuery where
  docid : Int
  version : Text
  resizeType : Option Text
  needOrignal : Bool
  resizeParam : Option ResizeParam
deriving Repr

structure ImageMeta where
  docid : Int
  version : Int
  width : Int
  height : Int
  status : Option CLBStatus
  size : Int
  resizeType : Option Text
deriving DecidableEq, Repr

structure ResizeImage where
  docid : Int
  filename : Option Text
  version : Text
  smallURL : Option DirectUrl := none
  mediumURL : Option DirectUrl := none
  largeURL : Option DirectUrl := none
  originalURL : Option DirectUrl
  metaList : List ImageMeta
deriving DecidableEq, Repr

/-- `ImageItem.getUniqueKey`. -/
def ImageItem.getUniqueKey (item : ImageItem) : Text :=
  decimalText item.appid ++ ['.'] ++ decimalText item.docid ++ ['.'] ++ decimalText item.version ++
    ['.'] ++ item.resizeType.getD "null".toList ++ ['.'] ++ decimalText item.width ++ ['x'] ++
    decimalText item.height

namespace ImageFacade

open DocumentFacade Handlers

def checkFileOperation (dv : DocVersion) : Serve Unit :=
  Action.raiseIf ((dv.fileExtension.any fun ext => canResize (ext.map Char.toLower)) = false)
    .invalidFileOperation

/-- `loadOriginalImage`; a temp file is named by the storage key of its content. A stored file with
a chunk missing fails with a `MongoException`, which `saveTempFile` does not catch: the part written
so far stays. -/
def loadOriginalImage (gfile : GridFSFile) : Act ObjectId := do
  let ins ← Action.read fun s => gfile.getInputStream s.mongo
  let saved ← onCache (LocalFileCache.saveTempFile gfile.storageKey ins)
  Action.raiseIf (saved = false) .mongo
  return gfile.storageKey

def getPoint (pm : ResizeParam) : ResizeType → Int
  | .SMALL => pm.smallPoint
  | .MEDIUM => pm.mediumPoint
  | .LARGE => pm.largePoint

def buildImageItem (fv : DocVersion) (storageKey : ObjectId) (enumType : ResizeType)
    (resizePoint : Int) (widthOrHeight : Option Text) : ImageItem :=
  let useWidth : Bool := widthOrHeight == some "width".toList
  { appid := fv.appid, docid := fv.docid, version := fv.version, filename := fv.filename
    resizeType := some enumType.name, storageKey := some storageKey
    fileExtension := some "jpeg".toList
    width := if useWidth then resizePoint else 0
    height := if useWidth then 0 else resizePoint
    status := some CLBStatus.NOT_READY.name }

/-- The loop of `convertImage`: the types asked for whose event is not yet in the queue. -/
def buildImageItems (pm : ResizeParam) (dv : DocVersion) :
    List ResizeType → Serve (List (ResizeType × ImageItem))
  | [] => return []
  | rt :: rest =>
    if getPoint pm rt ≤ 0 then
      buildImageItems pm dv rest
    else do
      let storageKey ← generateStorageKey
      let item := buildImageItem dv storageKey rt (getPoint pm rt) pm.useWidthOrHeight
      let queued ← Action.read fun s => s.filterSet.contains item.getUniqueKey
      let items ← buildImageItems pm dv rest
      return if queued then items else (rt, item) :: items

def addEvent (sp : ObjectId) (item : ImageItem) : Serve Unit :=
  Action.write fun s =>
    if s.filterSet.contains item.getUniqueKey then
      s
    else
      { s with
        queue := s.queue ++ [⟨sp, item⟩], filterSet := s.filterSet ++ [item.getUniqueKey] }

def addEvents (sp : ObjectId) (items : List ImageItem) : Serve Unit :=
  Action.forEach (addEvent sp) items

def convertImage (pm : ResizeParam) (dv : DocVersion) (sp : ObjectId) : Serve (List ImageItem) := do
  let jobs ← buildImageItems pm dv ResizeType.values
  Action.write fun s =>
    { s with imageItems := ImageItemDAO.delete dv.pair (jobs.map (·.1)) s.imageItems }
  onImageItems (ImageItemDAO.create (jobs.map (·.2)))
  addEvents sp (jobs.map (·.2))
  return jobs.map (·.2)

def convertToImageMeta (item : ImageItem) : ImageMeta where
  docid := item.docid
  version := item.version
  width := item.width
  height := item.height
  status := CLBStatus.getStatus item.status
  size := item.size
  resizeType := item.resizeType

/-- `getReturnURL`: only a ready copy has a link. -/
def getReturnURL (item : ImageItem) : Option DirectUrl :=
  if CLBStatus.isReady item.status then URLBuilder.getImageURL item.storageKey else none

/-- The `switch` of `buildResizeImageInfo`, which has no case for null. -/
def setURL (result : ResizeImage) (item : ImageItem) : Option ResizeImage :=
  (ResizeType.getEnum item.resizeType).map fun
    | .SMALL => { result with smallURL := getReturnURL item }
    | .MEDIUM => { result with mediumURL := getReturnURL item }
    | .LARGE => { result with largeURL := getReturnURL item }

def buildResizeImageInfo (itemList : List ImageItem) (cfv : DocVersion) : Serve ResizeImage :=
  Action.require .nullPointer (itemList.foldlM setURL
    { docid := cfv.docid, filename := cfv.filename, version := decimalText cfv.version
      originalURL := URLBuilder.getDocURL cfv.storageKey cfv.fileExtension
      metaList := itemList.map convertToImageMeta })

def resizeImage (cfv : DocVersion) (gfile : GridFSFile) (param : ResizeParam) :
    Serve ResizeImage := do
  let sp ← onStore (loadOriginalImage gfile)
  let itemList ← convertImage param cfv sp
  buildResizeImageInfo itemList cfv

/-- `updateImageItem` of one item: the object as it is afterwards. -/
def updateImageItem (t : ImageItem) (size desWidth desHeight : Int) (status : CLBStatus) :
    Serve ImageItem := do
  let t := { t with size, width := desWidth, height := desHeight, status := some status.name }
  onImageItems (Action.attempt .dataIntegrity fun table =>
    (ImageItemDAO.update t table).map fun table => ((), table))
  return t

/-- `updateImageItem` of the rows with a storage key. -/
def updateImageItems (targetKey : Option ObjectId) (size desWidth desHeight : Int)
    (status : CLBStatus) : Serve Unit := do
  let itemList ← Action.read fun s => ImageItemDAO.readByStorageKey targetKey s.imageItems
  Action.forEach (fun t => do
    let _ ← updateImageItem t size desWidth desHeight status
    return ()) itemList

/-- `updateRetryCount`: a row that waits without an event is a zombie. -/
def updateRetryCount (m : ImageItem) : Serve ImageItem :=
  if CLBStatus.getStatus m.status = some .NOT_READY then do
    let queued ← Action.read fun s => s.filterSet.contains m.getUniqueKey
    if queued then
      return m
    else
      updateImageItem m 0 0 0 .ZOMBIE
  else
    return m

/-- The loop around `updateRetryCount`. -/
def updateRetryCounts : List ImageItem → Serve (List ImageItem)
  | [] => return []
  | m :: rest => do
      let m ← updateRetryCount m
      let others ← updateRetryCounts rest
      return m :: others

/-- `IStorageService.loadImage`. -/
def loadImage (storageKey : Option ObjectId) : Serve (Option Artifact) := do
  let key ← Action.require .illegalArgument storageKey
  Action.read fun s => s.images.find? fun file => file.storageKey == key

def getImageItemList (p : DPair) : Serve (List ImageItem) :=
  Action.read fun s => ImageItemDAO.readByDocPair p s.imageItems

/-! ## The workers -/

/-- How the resize command and the write of its result go. -/
inductive ResizeOutcome where
  | unresizable
  | lost
  | unwritable
  | resized (length width height : Int)
deriving Repr

/-- `resizeImageHandler`. A fault ends the worker, and the key of the event stays in the filter. A
result that is gone when it is opened is logged, and its length is zero. -/
def resizeImageHandler (e : ResizeEvent) (outcome : ResizeOutcome) : Serve Unit := do
  let srcTempFile ← Action.read fun s => s.store.cache.tempFile e.source
  if srcTempFile.isNone then
    return ()
  else
    match outcome with
    | .unresizable => updateImageItems e.item.storageKey 0 0 0 .FAILED
    | .lost => return ()
    | .unwritable => Action.raise .mongo
    | .resized length width height => do
        let _ ← Action.require .nullPointer e.item.filename
        let key ← Action.require .illegalArgument e.item.storageKey
        Action.write fun s => { s with images := s.images ++ [⟨key, length, e.source⟩] }
        if length ≠ 0 then
          updateImageItems e.item.storageKey length width height .READY
        else
          return ()

/-- One turn of a worker, with an event that some worker took from the queue. -/
def runWorker (e : ResizeEvent) (outcome : ResizeOutcome) : Serve Unit := do
  Action.write fun s => { s with queue := s.queue.erase e }
  resizeImageHandler e outcome
  Action.write fun s =>
    { s with filterSet := s.filterSet.filter fun key => key != e.item.getUniqueKey }

end ImageFacade

namespace ImageHandlers

open DocumentFacade Handlers ImageFacade

/-- `CreateResizeCopyHandler`. -/
def createResizeCopy (config : ServerConfig) (session : Session) (rzp : ResizeParam) :
    Serve ResizeImage := do
  onStore (checkSystemIOMode config.toConfig)
  let doc ← onStore (getDocMetaByDocid session.appid rzp.docid)
  onStore (checkPermission session doc)
  let version ← Action.require .illegalArgument (parseInt rzp.version)
  let dv ← onStore (getDocVersion ⟨session.appid, rzp.docid, version⟩)
  checkFileOperation dv
  let gfile ← onStore (readDocContent dv)
  resizeImage dv gfile rzp

/-- The copies of a version with zombies among them are resized once more, all of them. -/
def resizeAgain (dv : DocVersion) (items : List ImageItem) : Serve Unit := do
  checkFileOperation dv
  let gfile ← onStore (readDocContent dv)
  let sp ← onStore (loadOriginalImage gfile)
  addEvents sp items

/-- The map of `QueryResizeStatusHandler`: a later item replaces an earlier one of its type. -/
def statusMap (items : List ImageItem) : List (Option Text × ImageMeta) :=
  items.foldl
    (fun map m =>
      (map.filter fun entry => entry.1 != m.resizeType) ++ [(m.resizeType, convertToImageMeta m)]) []

/-- `QueryResizeStatusHandler`. -/
def queryResizeStatus (session : Session) (dp : DocPair) :
    Serve (Option (List (Option Text × ImageMeta))) := do
  let p ← onStore (openDocument session dp)
  let itemList ← getImageItemList p
  if itemList.isEmpty then
    return none
  else do
    let itemList ← updateRetryCounts itemList
    if itemList.any fun m => CLBStatus.isZombie m.status then do
      let dv ← onStore (getDocVersion ⟨session.appid, p.docid, p.version⟩)
      resizeAgain dv itemList
    return some (statusMap itemList)

/-- `GetResizeImageInfoHandler`. -/
def getResizeImageInfo (session : Session) (dp : DocPair) : Serve ResizeImage := do
  let p ← onStore (openDocument session dp)
  let dv ← onStore (getDocVersion p)
  let itemLists ← getImageItemList dv.pair
  let itemLists ← updateRetryCounts itemLists
  let rsi ← buildResizeImageInfo itemLists dv
  if rsi.metaList.any fun m => m.status == some .ZOMBIE then
    resizeAgain dv itemLists
  return rsi

/-- What `GetImageContentHandler` sends: a resized copy or the original. -/
inductive ImageContent where
  | resized (file : Artifact)
  | original (file : GridFSFile)
deriving DecidableEq, Repr

/-- `readDocContent(DPair)`, a lookup by the metadata of the stored file. -/
def originalContent (p : DPair) : Serve ImageContent := do
  let f ← Action.read fun s => s.store.mongo.files.find? fun f =>
    f.docid == p.docid && f.vid == p.version && f.appid == p.appid
  let f ← Action.require .fileContentNotFound f
  return .original f

/-- The original where the query accepts it. -/
def originalIfNeeded (q : ImageQuery) (p : DPair) : Serve ImageContent :=
  if q.needOrignal then originalContent p else Action.raise .resizeNotReady

/-- `GetImageContentHandler`. -/
def getImageContent (session : Session) (q : ImageQuery) : Serve ImageContent := do
  let doc ← onStore (getDocMetaByDocid session.appid q.docid)
  let versionText := if q.version = "latest".toList then decimalText doc.lastVersion else q.version
  onStore (checkPermission session doc)
  let version ← Action.require .illegalArgument (parseInt versionText)
  let p : DPair := ⟨session.appid, q.docid, version⟩
  let items ← getImageItemList p
  match items.find? fun item => item.resizeType == q.resizeType with
  | some item => do
      let file ← loadImage item.storageKey
      match file with
      | some file => return .resized file
      | none => originalIfNeeded q p
  | none => do
      match q.resizeParam with
      | none => originalIfNeeded q p
      | some rzp => do
          let dv ← onStore (getDocVersion p)
          checkFileOperation dv
          let gfile ← onStore (readDocContent dv)
          let _ ← resizeImage dv gfile rzp
          originalIfNeeded q p

end ImageHandlers

end Clb
