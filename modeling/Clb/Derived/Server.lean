/-
# Derived.Server -- the state of the server with the files derived from documents

Over the document store stand the tables of the PDFs and of the resized images, the service that
converts to PDF, and the queue of the resize workers. A derived file is stored under a key of its own;
`Artifact.source` records the storage key it was produced from, which no collection holds: it is what
the results about derived files speak of. -/
import Clb.Dao.Items
import Clb.Document.ReadPaths

set_option autoImplicit false

namespace Clb

open Clb.Lib

/-- A file of clb_pdf or clb_image. -/
structure Artifact where
  storageKey : ObjectId
  length : Int
  source : ObjectId
deriving DecidableEq, Repr

/-- A message to the conversion service. -/
structure ConvertRequest where
  source : Option ObjectId
  target : Option ObjectId
deriving DecidableEq, Repr

/-- The conversion service: the messages it has not answered, the target keys in its error log, and
the collection it writes to. -/
structure Converter where
  pending : List ConvertRequest
  errors : List (Option ObjectId)
  pdfs : List Artifact
deriving DecidableEq, Repr

/-- `ResizeEvent`: the temp file to resize, named by the storage key of its content, and the item
that describes the copy. -/
structure ResizeEvent where
  source : ObjectId
  item : ImageItem
deriving DecidableEq, Repr

/-- The state of the server. `pdfTimes` is the column updateTime of clb_pdf_item by row id. -/
structure Server where
  store : Store
  pdfItems : Table PdfItem
  pdfTimes : Int → Int
  imageItems : Table ImageItem
  converter : Converter
  images : List Artifact
  queue : List ResizeEvent
  filterSet : List Text

def Server.empty : Server where
  store := Store.empty
  pdfItems := Table.empty
  pdfTimes := fun _ => 0
  imageItems := Table.empty
  converter := ⟨[], [], []⟩
  images := []
  queue := []
  filterSet := []

structure ServerConfig extends Config where
  maxWaitingTime : Int := 60 * 60 * 1000

abbrev Serve := Action Server Fault

section Parts

variable {α : Type}

def onStore (act : Act α) : Serve α :=
  Action.within Server.store (fun t s => { s with store := t }) act

def onPdfItems (act : Action (Table PdfItem) Fault α) : Serve α :=
  Action.within Server.pdfItems (fun t s => { s with pdfItems := t }) act

def onImageItems (act : Action (Table ImageItem) Fault α) : Serve α :=
  Action.within Server.imageItems (fun t s => { s with imageItems := t }) act

end Parts

/-- `IStorageService.generateStorageKey`. -/
def generateStorageKey : Serve ObjectId := onStore (onMongo MongoStorageService.newObjectId)

end Clb
