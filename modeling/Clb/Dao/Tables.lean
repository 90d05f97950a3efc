/-
# Dao.Tables -- the model classes and the DAOs of the metadata tables

One structure per model class, with the Java defaults (zero and null) as default values, so that an
object with a few fields set is an example for `BaseDAO`. The columns that hold dates are left out:
no modelled statement selects by them. Each DAO carries the constraints of its table in
clb_schema-20160605.sql; a value that does not fit its column raises, as in strict mode. -/
import Mathlib.Data.List.Sort
import Clb.Lib.Action
import Clb.Dao.Query

set_option autoImplicit false

namespace Clb

structure DPair where
  appid : Int
  docid : Int
  version : Int
deriving DecidableEq, Repr

/-- `DPair.LATEST`. -/
def DPair.LATEST : Int := -1

/-- What a call may raise. The two exceptions of missing metadata carry what their message names. -/
inductive Fault where
  | nullPointer
  | illegalArgument
  | negativeArraySize
  | indexOutOfBounds
  | dataIntegrity
  | mongo
  | io
  | metaNotFound (appid docid : Int)
  | pdfNotFound (p : DPair)
  | trivialNotFound (spaceName : Option Text)
  | invalidArgument
  | invalidFileOperation
  | noAuthority
  | fileContentNotFound
  | readUncompleted
  | resizeNotReady
  | badSqlGrammar
  | jedisConnection
deriving DecidableEq, Repr

inductive UploadStatus where
  | complete
  | waiting
deriving DecidableEq, Repr

/-- `DocVersion.COMPLETE_UPLOAD` and `DocVersion.WAITING_UPLOAD`. -/
def UploadStatus.name : UploadStatus → Text
  | .complete => "complete".toList
  | .waiting => "waiting".toList

structure DocMeta where
  id : Int := 0
  isPub : Int := 0
  lastVersion : Int := 0
  authId : Option Text := none
  appid : Int := 0
  docid : Int := 0
deriving DecidableEq, Repr

structure DocVersion where
  id : Int := 0
  docid : Int := 0
  appid : Int := 0
  version : Int := 0
  filename : Option Text := none
  fileExtension : Option Text := none
  size : Int := 0
  storageKey : Option ObjectId := none
  uploadStatus : Option UploadStatus := none
deriving DecidableEq, Repr

def DocVersion.isCompletedStatus (dv : DocVersion) : Bool := dv.uploadStatus == some .complete

structure DocRef where
  id : Int := 0
  md5 : Option Text := none
  ref : Int := 0
  size : Int := 0
  storageKey : Option ObjectId := none
deriving DecidableEq, Repr

structure PdfItem where
  id : Int := 0
  appid : Int := 0
  docid : Int := 0
  version : Int := 0
  storageKey : Option ObjectId := none
  size : Int := 0
  status : Option Text := none
  filename : Option Text := none
deriving DecidableEq, Repr

structure TrivialItem where
  id : Int := 0
  appid : Int := 0
  docid : Int := 0
  version : Int := 0
  spaceName : Option Text := none
  status : Option Text := none
deriving DecidableEq, Repr

end Clb

namespace Clb.Dao

open Clb.Lib

section Columns

variable {T : Type}

/-- A field of type `int` or `long`. -/
def number (name : String) (get : T → Int) (set : Int → T → T) : Field T :=
  ⟨name, fun t => .number (get t), fun src dst => set (get src) dst⟩

def text (name : String) (get : T → Option Text) (set : Option Text → T → T) : Field T :=
  ⟨name, fun t => ((get t).map Value.text).getD .null, fun src dst => set (get src) dst⟩

def key (name : String) (get : T → Option ObjectId) (set : Option ObjectId → T → T) : Field T :=
  ⟨name, fun t => ((get t).map Value.key).getD .null, fun src dst => set (get src) dst⟩

end Columns

/-- The character set of a column. -/
inductive Charset where
  | utf8
  | latin1
deriving DecidableEq, Repr

/-- The characters that `latin1` of MySQL has in place of the control codes 0x80 to 0x9f. -/
def cp1252 : List Nat :=
  [0x20ac, 0x81, 0x201a, 0x192, 0x201e, 0x2026, 0x2020, 0x2021, 0x2c6, 0x2030, 0x160, 0x2039, 0x152,
    0x8d, 0x17d, 0x8f, 0x90, 0x2018, 0x2019, 0x201c, 0x201d, 0x2022, 0x2013, 0x2014, 0x2dc, 0x2122,
    0x161, 0x203a, 0x153, 0x9d, 0x17e, 0x178]

/-- The characters a column can hold; `utf8` of MySQL has at most three bytes for each. -/
def Charset.holds : Charset → Char → Bool
  | .utf8, c => c.toNat < 0x10000
  | .latin1, c => c.toNat < 0x80 || 0xa0 ≤ c.toNat && c.toNat < 0x100 || cp1252.contains c.toNat

/-- A `varchar(n)` column, null allowed. -/
def varchar (charset : Charset) (n : Nat) (value : Option Text) : Bool :=
  value.all fun t => t.length ≤ n && t.all charset.holds

theorem holds_utf8_of_latin1 {c : Char} (holds : Charset.latin1.holds c = true) :
    Charset.utf8.holds c = true := by
  have few : ∀ n ∈ cp1252, n < 0x10000 := by decide
  simp only [Charset.holds, Bool.or_eq_true, Bool.and_eq_true, decide_eq_true_eq,
    List.contains_iff_mem] at holds ⊢
  rcases holds with (low | ⟨-, low⟩) | high
  · omega
  · omega
  · exact few _ high

/-- A wider column of `utf8` holds what a column of `latin1` holds. -/
theorem varchar_utf8_of_latin1 {n m : Nat} (wider : n ≤ m) {value : Option Text}
    (fits : varchar .latin1 n value = true) : varchar .utf8 m value = true := by
  cases value with
  | none => rfl
  | some t =>
    simp only [varchar, Option.all_some, Bool.and_eq_true, decide_eq_true_eq, List.all_eq_true]
      at fits ⊢
    exact ⟨fits.1.trans wider, fun c member => holds_utf8_of_latin1 (fits.2 c member)⟩

/-- `order by version desc`. -/
def orderByVersionDesc (rows : List DocVersion) : List DocVersion :=
  rows.insertionSort fun a b => b.version ≤ a.version

def docMetaDAO : BaseDAO DocMeta where
  fields :=
    [number "id" (·.id) fun n t => { t with id := n },
      number "isPub" (·.isPub) fun n t => { t with isPub := n },
      number "lastVersion" (·.lastVersion) fun n t => { t with lastVersion := n },
      text "authId" (·.authId) fun v t => { t with authId := v },
      number "appid" (·.appid) fun n t => { t with appid := n },
      number "docid" (·.docid) fun n t => { t with docid := n }]
  getId := (·.id)
  setId n t := { t with id := n }
  fits t := t.authId.isSome && varchar .utf8 255 t.authId
  clash t row := t.appid == row.appid && t.docid == row.docid

namespace DocMetaDAO

def create (doc : DocMeta) (table : Table DocMeta) : Option (Int × Table DocMeta) :=
  docMetaDAO.insertObject doc table

def update (doc : DocMeta) (queryFields : List String) (table : Table DocMeta) :
    Option (Table DocMeta) :=
  docMetaDAO.updateObjectBy doc queryFields table

def delete (appid docid : Int) (table : Table DocMeta) : Table DocMeta :=
  docMetaDAO.deleteObject { appid, docid } table

def read (appid docid : Int) (table : Table DocMeta) : Option DocMeta :=
  docMetaDAO.findAndReturnOnly { appid, docid } table

end DocMetaDAO

def docVersionDAO : BaseDAO DocVersion where
  fields :=
    [number "id" (·.id) fun n t => { t with id := n },
      number "docid" (·.docid) fun n t => { t with docid := n },
      number "appid" (·.appid) fun n t => { t with appid := n },
      number "version" (·.version) fun n t => { t with version := n },
      text "filename" (·.filename) fun v t => { t with filename := v },
      text "fileExtension" (·.fileExtension) fun v t => { t with fileExtension := v },
      number "size" (·.size) fun n t => { t with size := n },
      key "storageKey" (·.storageKey) fun v t => { t with storageKey := v },
      ⟨"uploadStatus", fun t => (t.uploadStatus.map fun s => Value.text s.name).getD .null,
        fun src dst => { dst with uploadStatus := src.uploadStatus }⟩]
  getId := (·.id)
  setId n t := { t with id := n }
  fits t := varchar .utf8 255 t.filename && varchar .utf8 20 t.fileExtension
  clash _ _ := false

namespace DocVersionDAO

/-- `DocVersion(DPair)`. -/
def ofPair (p : DPair) : DocVersion :=
  { appid := p.appid, docid := p.docid, version := p.version }

def createFirstVersion (v : DocVersion) (table : Table DocVersion) :
    Option (DocVersion × Table DocVersion) :=
  let nv : DocVersion :=
    { appid := v.appid, version := 1, docid := v.docid, fileExtension := v.fileExtension,
      size := v.size, filename := v.filename, storageKey := v.storageKey,
      uploadStatus := v.uploadStatus }
  (docVersionDAO.insertObject nv table).map fun out => ({ nv with id := out.1 }, out.2)

/-- The `doc_version` that proc_create_doc_version computes. -/
def nextVersion (appid docid : Int) (table : Table DocVersion) : Int :=
  let versions := (table.rows.filter fun r => r.docid == docid && r.appid == appid).map (·.version)
  match versions.max? with
  | none => 1
  | some last => if last < 0 then 1 else last + 1

/-- proc_create_doc_version: a row of which only the key columns are set. The procedure fails where
the next version is outside the range of `int`. -/
def getNewDocVersionId (appid docid : Int) (table : Table DocVersion) :
    Option (DocVersion × Table DocVersion) :=
  let version := nextVersion appid docid table
  if version ≤ 2147483647 then
    (docVersionDAO.insertObject { appid, docid, version, uploadStatus := some .waiting } table).map
      fun out => ({ appid, docid, id := out.1, version }, out.2)
  else
    none

/-- The object that `create` writes over the row the procedure inserted. -/
def newVersion (v nv : DocVersion) : DocVersion :=
  { nv with
    fileExtension := v.fileExtension, size := v.size, filename := v.filename,
    storageKey := v.storageKey, uploadStatus := v.uploadStatus }

/-- `DocVersionDAO.create`: two statements, each committed on its own. -/
def create (v : DocVersion) : Action (Table DocVersion) Fault DocVersion := do
  let nv ← Action.attempt .dataIntegrity (getNewDocVersionId v.appid v.docid)
  let nv := newVersion v nv
  Action.attempt .dataIntegrity fun table =>
    (docVersionDAO.updateObject nv table).map fun table => ((), table)
  return nv

def deleteByDocid (appid docid : Int) (table : Table DocVersion) : Table DocVersion :=
  docVersionDAO.deleteObject { appid, docid } table

def readVersions (appid docid : Int) (table : Table DocVersion) : List DocVersion :=
  orderByVersionDesc (docVersionDAO.findByProperties { appid, docid } table)

def readLastVersion (appid docid : Int) (table : Table DocVersion) : Option DocVersion :=
  (readVersions appid docid table).head?

def read (p : DPair) (table : Table DocVersion) : Option DocVersion :=
  if p.version = DPair.LATEST then
    readLastVersion p.appid p.docid table
  else
    docVersionDAO.findAndReturnOnly (ofPair p) table

def delete (p : DPair) (table : Table DocVersion) : Table DocVersion :=
  docVersionDAO.deleteObject (ofPair p) table

def updateStatus (v : DocVersion) (table : Table DocVersion) : Option (Table DocVersion) :=
  docVersionDAO.updateObjectBy v ["docid", "appid", "version"] table

end DocVersionDAO

def docRefDAO : BaseDAO DocRef where
  fields :=
    [number "id" (·.id) fun n t => { t with id := n },
      text "md5" (·.md5) fun v t => { t with md5 := v },
      number "ref" (·.ref) fun n t => { t with ref := n },
      number "size" (·.size) fun n t => { t with size := n },
      key "storageKey" (·.storageKey) fun v t => { t with storageKey := v }]
  getId := (·.id)
  setId n t := { t with id := n }
  fits t := t.md5.isSome && varchar .latin1 64 t.md5 && t.storageKey.isSome
  clash t row := (t.md5 == row.md5 && t.size == row.size) || t.storageKey == row.storageKey

namespace DocRefDAO

def create (dr : DocRef) (table : Table DocRef) : Option (Int × Table DocRef) :=
  docRefDAO.insertObject dr table

def updateRef (dr : DocRef) (table : Table DocRef) : Option (Table DocRef) :=
  docRefDAO.updateObject dr table

def read (md5 : Option Text) (size : Int) (table : Table DocRef) : Option DocRef :=
  docRefDAO.findAndReturnOnly { md5, size } table

/-- `update clb_doc_ref set ref=ref+1` on the selected rows, refused where a sum is outside the range
of `int`. -/
def countUp (selected : DocRef → Bool) (table : Table DocRef) : Option (Table DocRef) :=
  if table.rows.all fun r => !selected r || r.ref < 2147483647 then
    some (table.update selected fun r => { r with ref := r.ref + 1 })
  else
    none

/-- `incrRef(md5, size)`; no row has a null md5. -/
def incrRef (md5 : Option Text) (size : Int) (table : Table DocRef) : Option (Table DocRef) :=
  countUp (fun r => r.md5 == md5 && r.size == size) table

/-- `incrRef(storageKey)`. -/
def incrRefOfKey (storageKey : Option ObjectId) (table : Table DocRef) : Option (Table DocRef) :=
  countUp (fun r => r.storageKey == storageKey) table

end DocRefDAO

def pdfItemDAO : BaseDAO PdfItem where
  fields :=
    [number "id" (·.id) fun n t => { t with id := n },
      number "appid" (·.appid) fun n t => { t with appid := n },
      number "docid" (·.docid) fun n t => { t with docid := n },
      number "version" (·.version) fun n t => { t with version := n },
      key "storageKey" (·.storageKey) fun v t => { t with storageKey := v },
      number "size" (·.size) fun n t => { t with size := n },
      text "status" (·.status) fun v t => { t with status := v },
      text "filename" (·.filename) fun v t => { t with filename := v }]
  getId := (·.id)
  setId n t := { t with id := n }
  fits t := t.storageKey.isSome && t.status.isSome && varchar .utf8 255 t.status &&
    t.filename.isSome && varchar .utf8 255 t.filename
  clash _ _ := false

namespace PdfItemDAO

/-- `PdfItem(DPair)`. -/
def ofPair (p : DPair) : PdfItem := { appid := p.appid, docid := p.docid, version := p.version }

def read (p : DPair) (table : Table PdfItem) : Option PdfItem :=
  pdfItemDAO.findAndReturnOnly (ofPair p) table

def delete (p : DPair) (table : Table PdfItem) : Table PdfItem :=
  pdfItemDAO.deleteObject (ofPair p) table

end PdfItemDAO

def trivialItemDAO : BaseDAO TrivialItem where
  fields :=
    [number "id" (·.id) fun n t => { t with id := n },
      number "appid" (·.appid) fun n t => { t with appid := n },
      number "docid" (·.docid) fun n t => { t with docid := n },
      number "version" (·.version) fun n t => { t with version := n },
      text "spaceName" (·.spaceName) fun v t => { t with spaceName := v },
      text "status" (·.status) fun v t => { t with status := v }]
  getId := (·.id)
  setId n t := { t with id := n }
  fits t := t.spaceName.isSome && varchar .utf8 127 t.spaceName && t.status.isSome &&
    varchar .utf8 20 t.status
  clash _ _ := false

namespace TrivialItemDAO

/-- `TrivialItemDAO.getQueryItem`. -/
def getQueryItem (p : DPair) : TrivialItem :=
  { appid := p.appid, docid := p.docid, version := p.version }

def read (p : DPair) (table : Table TrivialItem) : Option TrivialItem :=
  trivialItemDAO.findAndReturnOnly (getQueryItem p) table

def readBySpaceName (spaceName : Option Text) (table : Table TrivialItem) : Option TrivialItem :=
  trivialItemDAO.findAndReturnOnly { spaceName } table

def create (item : TrivialItem) (table : Table TrivialItem) : Option (Int × Table TrivialItem) :=
  trivialItemDAO.insertObject item table

def update (item : TrivialItem) (table : Table TrivialItem) : Option (Table TrivialItem) :=
  trivialItemDAO.updateObject item table

def delete (p : DPair) (table : Table TrivialItem) : Table TrivialItem :=
  trivialItemDAO.deleteObject (getQueryItem p) table

end TrivialItemDAO

end Clb.Dao
