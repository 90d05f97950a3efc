/-
# Document.ReadPaths -- the handlers that hand out content, links and metadata

`GetDirectURLHandler`, `GetMultiDocsContentHandler` and `GetDocMetaInfoHandler`, with what the handlers
of a `DocPair` have in common. An answer names the stored file it sends instead of its bytes, which are
those of `writeTo`. The lookups only read (`ReadOnly`), which the `readOnly_` lemmas record. -/
import Clb.Document.Handlers

set_option autoImplicit false

namespace Clb

open Clb.Lib Clb.Dao DocumentFacade Handlers

/-! ## Direct links -/

/-- The kinds of files that nginx serves. -/
inductive UrlContext where
  | document
  | pdf
  | image
deriving DecidableEq, Repr

/-- A direct link, by what `URLBuilder` puts into it. -/
structure DirectUrl where
  context : UrlContext
  storageKey : ObjectId
  extension : Option Text
deriving DecidableEq, Repr

namespace URLBuilder

def getDocURL (storageKey : Option ObjectId) (ext : Option Text) : Option DirectUrl :=
  storageKey.map fun key => ⟨.document, key, ext⟩

def getImageURL (storageKey : Option ObjectId) : Option DirectUrl :=
  storageKey.map fun key => ⟨.image, key, some "jpg".toList⟩

def getPdfURL (storageKey : Option ObjectId) : Option DirectUrl :=
  storageKey.map fun key => ⟨.pdf, key, some "pdf".toList⟩

end URLBuilder

namespace Handlers

/-- What the handlers of a `DocPair` begin with: the document has to exist and to be open to the
session. -/
def openDocument (session : Session) (dp : DocPair) : Act DPair := do
  let p ← Action.require .invalidArgument (convertToPair session.appid dp)
  let doc ← getDocMetaByDocid p.appid p.docid
  checkPermission session doc
  return p

/-- `GetDirectURLHandler`. -/
def getDirectURL (session : Session) (dp : DocPair) : Act (Option DirectUrl) := do
  let p ← openDocument session dp
  let dv ← getDocVersion p
  return URLBuilder.getDocURL dv.storageKey dv.fileExtension

end Handlers

/-! ## Several documents in one archive -/

/-- What the stream of a GridFS file yields. The driver raises at a chunk that is missing; a chunk
size of zero makes it look for more chunks than there are. -/
def GridFSFile.getInputStream (f : GridFSFile) (m : Mongo) : InputStream where
  reads := [writeTo f m]
  fails := decide (f.chunkSize = 0 ∧ 0 < f.length) ||
    !(List.range (pieceCount f.length.toNat f.chunkSize.toNat)).all fun n =>
      (m.findChunk f.id n).isSome

structure ZipEntry where
  row : DocVersion
  name : Text
  file : GridFSFile
deriving DecidableEq, Repr

/-- The entries written to the response, and the fault that ended it early. -/
structure ZipAnswer where
  entries : List ZipEntry
  fault : Option Fault
deriving DecidableEq, Repr

namespace DocumentFacade

/-- `DocMetaDAO.batchRead`. -/
def getDocMetaByIds (appid : Int) (pairs : List DPair) (docs : Table DocMeta) : List DocMeta :=
  docs.rows.filter fun d => d.appid == appid && (pairs.map (·.docid)).contains d.docid

/-- `pairs[map.get(docid)].setVersion(version)`: the map holds the last index of a docid. -/
def setLastIndex (docid version : Int) : List DPair → List DPair
  | [] => []
  | p :: rest =>
    if p.docid = docid ∧ !rest.any (·.docid == docid) then
      { p with version } :: rest
    else
      p :: setLastIndex docid version rest

def replaceDocVersion (pairs : List DPair) (metas : List DocMeta) : List DPair :=
  metas.foldl (fun pairs m => setLastIndex m.docid m.lastVersion pairs) pairs

/-- `DocVersionDAO.batchRead`. -/
def getMultipleDocVersion (pairs : List DPair) (versions : Table DocVersion) : List DocVersion :=
  versions.rows.filter fun v => pairs.contains ⟨v.appid, v.docid, v.version⟩

end DocumentFacade

namespace Handlers

/-- `readDocContent`, by the file it finds. -/
def documentFile (dv : DocVersion) (m : Mongo) : Option GridFSFile :=
  dv.storageKey.bind fun key => m.readFile key

/-- The loop of `readDocuments` from the `i`-th version on; `dupMap` holds the names used before. -/
def readDocuments (m : Mongo) : List DocVersion → Nat → List Text → ZipAnswer
  | [], _, _ => ⟨[], none⟩
  | dv :: rest, i, dupMap =>
    match documentFile dv m with
    | none => ⟨[], some .fileContentNotFound⟩
    | some f =>
      match f.filename with
      | none => ⟨[], some .nullPointer⟩
      | some filename =>
        let name :=
          if dupMap.contains filename then
            decimalText (i + 1) ++ '-' :: filename
          else
            filename
        if (f.getInputStream m).fails then
          ⟨[⟨dv, name, f⟩], some .mongo⟩
        else
          let answer := readDocuments m rest (i + 1) (filename :: dupMap)
          { answer with entries := ⟨dv, name, f⟩ :: answer.entries }

/-- The versions that `GetMultiDocsContentHandler` reads. An empty list of pairs makes a statement
that is not SQL. -/
def multiDocVersions (session : Session) (dps : List DocPair) : Act (List DocVersion) := do
  let pairs ← Action.require .invalidArgument (dps.mapM (convertToPair session.appid))
  Action.raiseIf (pairs = []) .badSqlGrammar
  let metas ← Action.read fun s => getDocMetaByIds session.appid pairs s.docs
  Action.raiseIf (∃ d ∈ metas, d.isPub = 0 ∧ d.authId ≠ some session.user) .noAuthority
  Action.read fun s => getMultipleDocVersion (replaceDocVersion pairs metas) s.versions

/-- `GetMultiDocsContentHandler`. -/
def getMultiDocsContent (session : Session) (dps : List DocPair) : Act ZipAnswer := do
  let dvlist ← multiDocVersions session dps
  Action.read fun s => readDocuments s.mongo dvlist 1 []

/-! ## Metadata -/

/-- The `DocMetaInfo` that is sent, without its dates. -/
structure DocMetaInfo where
  version : Text
  filename : Option Text
  size : Int
  docid : Int
  isPub : Int
  md5 : Text
deriving DecidableEq, Repr

/-- `queryMd5`; `digest` is the field md5 of an entry of fs.files. -/
def queryMd5 (digest : GridFSFile → Option Text) (storageKey : Option ObjectId) : Act Text := do
  let key ← Action.require .illegalArgument storageKey
  let f ← Action.read fun s => s.mongo.readFile key
  match f with
  | none => return []
  | some f => Action.require .nullPointer (digest f)

/-- `updateMetaSize`: the row gets the length, the caller the length as an `int`. -/
def updateMetaSize (dv : DocVersion) : Act Int := do
  let key ← Action.require .illegalArgument dv.storageKey
  let f ← Action.read fun s => s.mongo.readFile key
  let f ← Action.require .nullPointer f
  onVersions (Action.attempt .dataIntegrity fun table =>
    (docVersionDAO.updateObject { dv with size := f.length } table).map fun table => ((), table))
  return f.length.bmod (2 ^ 32)

/-- `GetDocMetaInfoHandler`. -/
def getDocMetaInfo (digest : GridFSFile → Option Text) (session : Session) (dp : DocPair) :
    Act DocMetaInfo := do
  let p ← openDocument session dp
  let dm ← getDocMetaByDocid session.appid p.docid
  let dv ← getDocVersion p
  let md5 ← queryMd5 digest dv.storageKey
  let size ← if dv.size = -1 then updateMetaSize dv else pure dv.size
  return ⟨decimalText dv.version, dv.filename, size, dv.docid, dm.isPub, md5⟩

/-! ## What only reads -/

open Clb.Lib.Action

theorem readOnly_checkPermission (session : Session) (doc : DocMeta) :
    ReadOnly (checkPermission session doc) := readOnly_raiseIf _ _

theorem readOnly_checkSystemIOMode (config : Config) : ReadOnly (checkSystemIOMode config) :=
  readOnly_raiseIf _ _

theorem readOnly_getDocMetaByDocid (appid docid : Int) : ReadOnly (getDocMetaByDocid appid docid) :=
  (readOnly_read _).bind fun _ => readOnly_require _ _

theorem readOnly_getDocVersion (p : DPair) : ReadOnly (getDocVersion p) :=
  (readOnly_read _).bind fun _ => readOnly_require _ _

theorem readOnly_readDocContent (dv : DocVersion) : ReadOnly (readDocContent dv) :=
  (readOnly_require _ _).bind fun _ => (readOnly_read _).bind fun _ => readOnly_require _ _

theorem readOnly_openDocument (session : Session) (dp : DocPair) :
    ReadOnly (openDocument session dp) :=
  (readOnly_require _ _).bind fun _ => (readOnly_getDocMetaByDocid _ _).bind fun _ =>
    (readOnly_checkPermission _ _).bind fun _ => readOnly_pure _

theorem getMultiDocsContent_eq (session : Session) (dps : List DocPair) (s : Store) :
    (getMultiDocsContent session dps s).1 =
      (multiDocVersions session dps s).1.map fun dvlist => readDocuments s.mongo dvlist 1 [] := by
  have readOnly : ReadOnly (multiDocVersions session dps) :=
    (readOnly_require _ _).bind fun _ => (readOnly_raiseIf _ _).bind fun _ =>
      (readOnly_read _).bind fun _ => (readOnly_raiseIf _ _).bind fun _ => readOnly_read _
  unfold getMultiDocsContent
  rw [readOnly.bind_eq]
  cases (multiDocVersions session dps s).1 <;> rfl

end Handlers

end Clb
