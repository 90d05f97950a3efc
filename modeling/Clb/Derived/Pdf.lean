/-
# Derived.Pdf -- the PDF of a document version

`PdfFacade` and the handlers of clb.pdf. A row of clb_pdf_item is created when a conversion is first
asked for, and follows the conversion service when somebody asks again: the file is there, an error
was logged, or the wait has been too long. -/
import Clb.Derived.Server

set_option autoImplicit false

namespace Clb

open Clb.Lib Clb.Dao

/-- The codes of `QueryPdfStatusHandler`. -/
inductive PdfStatusCode where
  | NOT_FOUND_SOURCE_FILE
  | CONVERT_ONGOING
  | CONVERT_SUCCESS
  | CONVERT_FAILED
  | UNCONVERT_SOURCE_FILE
deriving DecidableEq, Repr

/-- `OperationUtils.canConvert`. -/
def canConvert (fileExtension : Option Text) : Bool :=
  fileExtension.any fun ext =>
    ["ppt".toList, "doc".toList, "xls".toList, "docx".toList, "pptx".toList, "xlsx".toList,
      "rtf".toList].contains (ext.map Char.toLower)

namespace PdfFacade

/-- `IStorageService.loadPdf`. -/
def loadPdf (storageKey : Option ObjectId) : Serve (Option Artifact) := do
  let key ← Action.require .illegalArgument storageKey
  Action.read fun s => s.converter.pdfs.find? fun file => file.storageKey == key

def getPdfItemWithoutException (p : DPair) : Serve (Option PdfItem) :=
  Action.read fun s => PdfItemDAO.read p s.pdfItems

def getPdfItem (p : DPair) : Serve PdfItem := do
  let item ← getPdfItemWithoutException p
  Action.require (.pdfNotFound p) item

def getPdfFile (item : PdfItem) : Serve Artifact := do
  let key ← Action.require .fileContentNotFound item.storageKey
  let file ← loadPdf (some key)
  Action.require .fileContentNotFound file

def checkFileOperation (dv : DocVersion) : Serve Unit :=
  Action.raiseIf (canConvert dv.fileExtension = false) .invalidFileOperation

def setUpdateTime (id now : Int) : Serve Unit :=
  Action.write fun s => { s with pdfTimes := Function.update s.pdfTimes id now }

def createPdfItem (now : Int) (dv : DocVersion) : Serve PdfItem := do
  let storageKey ← generateStorageKey
  let item : PdfItem :=
    { appid := dv.appid, docid := dv.docid, version := dv.version, storageKey := some storageKey,
      filename := dv.filename, size := 0, status := some CLBStatus.NOT_READY.name }
  let id ← onPdfItems (Action.attempt .dataIntegrity (PdfItemDAO.create item))
  setUpdateTime id now
  return { item with id }

/-- `pdfItemService.update`. -/
def updateItem (item : PdfItem) : Serve Unit :=
  onPdfItems (Action.attempt .dataIntegrity fun table =>
    (PdfItemDAO.update item table).map fun table => ((), table))

/-- The change of status that the next three share. -/
def updateStatus (now : Int) (status : CLBStatus) (item : PdfItem) : Serve PdfItem := do
  let item := { item with status := some status.name }
  updateItem item
  setUpdateTime item.id now
  return item

def updateItemToReadyStatus (now : Int) (item : PdfItem) (dbfile : Artifact) : Serve PdfItem :=
  updateStatus now .READY { item with size := dbfile.length }

def updatePdfItemToFailedStatus (now : Int) (item : PdfItem) : Serve PdfItem :=
  updateStatus now .FAILED item

def updatePdfItemToNotReadyStatus (now : Int) (item : PdfItem) : Serve PdfItem :=
  updateStatus now .NOT_READY item

def convert (sourceKey targetKey : Option ObjectId) : Serve Unit :=
  Action.write fun s =>
    { s with
      converter := { s.converter with pending := s.converter.pending ++ [⟨sourceKey, targetKey⟩] } }

def checkConvertErrorLog (storageKey : Option ObjectId) : Serve Bool :=
  Action.read fun s => s.converter.errors.contains storageKey

/-- `updatePdfItemStorageKey`; the column updateTime keeps its value. -/
def updatePdfItemStorageKey (item : PdfItem) : Serve ObjectId := do
  let newStorageKey ← generateStorageKey
  updateItem
    { item with status := some CLBStatus.NOT_READY.name, storageKey := some newStorageKey }
  return newStorageKey

end PdfFacade

namespace PdfHandlers

open DocumentFacade Handlers PdfFacade

/-- What `ConvertDocumentHandler` does with a row in status not_ready. -/
def followConversion (now : Int) (dv : DocVersion) (oldItem : PdfItem) : Serve Unit := do
  let failed ← checkConvertErrorLog oldItem.storageKey
  if failed then do
    let newStorageKey ← updatePdfItemStorageKey oldItem
    convert dv.storageKey (some newStorageKey)
  else do
    let gfile ← loadPdf oldItem.storageKey
    match gfile with
    | some gfile => do
        let _ ← updateItemToReadyStatus now oldItem gfile
        return ()
    | none => return ()

/-- A failed conversion is asked for again, with the key it had. -/
def retryFailed (now : Int) (dv : DocVersion) (oldItem : PdfItem) : Serve PdfItem :=
  if CLBStatus.isFailed oldItem.status then do
    let oldItem ← updatePdfItemToNotReadyStatus now oldItem
    convert dv.storageKey oldItem.storageKey
    return oldItem
  else
    return oldItem

/-- What `ConvertDocumentHandler` does with the row it found. -/
def convertAgain (now : Int) (dv : DocVersion) (oldItem : PdfItem) : Serve Unit :=
  if CLBStatus.isReady oldItem.status then
    return ()
  else do
    let oldItem ← retryFailed now dv oldItem
    if CLBStatus.isNotReady oldItem.status then
      followConversion now dv oldItem
    else
      return ()

/-- `ConvertDocumentHandler`, at the time `now`. -/
def convertDocument (config : ServerConfig) (session : Session) (now : Int) (dp : DocPair) :
    Serve Unit := do
  onStore (checkSystemIOMode config.toConfig)
  let p ← onStore (openDocument session dp)
  let dv ← onStore (getDocVersion p)
  checkFileOperation dv
  let oldItem ← getPdfItemWithoutException p
  match oldItem with
  | some oldItem => convertAgain now dv oldItem
  | none => do
      let item ← createPdfItem now dv
      convert dv.storageKey item.storageKey

/-- `isConvertExpired`. -/
def isConvertExpired (config : ServerConfig) (now createTime : Int) : Bool :=
  decide (now - createTime > config.maxWaitingTime)

/-- The answer of `QueryPdfStatusHandler` for a row in status not_ready. -/
def waitingStatus (config : ServerConfig) (now : Int) (item : PdfItem) : Serve PdfStatusCode := do
  let dbfile ← loadPdf item.storageKey
  match dbfile with
  | some dbfile => do
      let _ ← updateItemToReadyStatus now item dbfile
      return .CONVERT_SUCCESS
  | none => do
      let failed ← checkConvertErrorLog item.storageKey
      let updateTime ← Action.read fun s => s.pdfTimes item.id
      if failed || isConvertExpired config now updateTime then do
        let _ ← updatePdfItemToFailedStatus now item
        return .CONVERT_FAILED
      else
        return .CONVERT_ONGOING

/-- The answer of `QueryPdfStatusHandler` for the row it found. -/
def itemStatus (config : ServerConfig) (now : Int) (item : PdfItem) : Serve PdfStatusCode :=
  if CLBStatus.isReady item.status then
    return .CONVERT_SUCCESS
  else if CLBStatus.isNotReady item.status then
    waitingStatus config now item
  else
    return .CONVERT_FAILED

/-- `QueryPdfStatusHandler`, at the time `now`. -/
def queryPdfStatus (config : ServerConfig) (session : Session) (now : Int) (dp : DocPair) :
    Serve PdfStatusCode := do
  let p ← onStore (openDocument session dp)
  let dv ← Action.read fun s => DocVersionDAO.read p s.store.versions
  if dv.isNone then
    return .NOT_FOUND_SOURCE_FILE
  else do
    let item ← getPdfItemWithoutException p
    match item with
    | none => return .UNCONVERT_SOURCE_FILE
    | some item => itemStatus config now item

/-- `GetPdfContentHandler`: the file that is sent. -/
def getPdfContent (session : Session) (dp : DocPair) : Serve Artifact := do
  let p ← onStore (openDocument session dp)
  let item ← getPdfItem p
  getPdfFile item

/-- `GetPdfDirectURLHandler`. -/
def getPdfDirectURL (session : Session) (dp : DocPair) : Serve (Option DirectUrl) := do
  let p ← onStore (openDocument session dp)
  let item ← getPdfItem p
  return URLBuilder.getPdfURL item.storageKey

end PdfHandlers

end Clb
