/-
# Dao.Items -- the rows of the files that are derived from documents

A PDF of a document version has a row in clb_pdf_item, a resized image one in clb_image_item. The
status of a row is a text, compared without regard to case. `pdfItem_set` and `imageItem_set` say what
an update by id writes into a row: everything that was set, but no zero. -/
import Clb.Dao.Statements

set_option autoImplicit false

namespace Clb

open Clb.Lib

inductive CLBStatus where
  | NOT_READY
  | READY
  | FAILED
  | ZOMBIE
deriving DecidableEq, Repr

namespace CLBStatus

/-- `CLBStatus.toString`. -/
def name : CLBStatus → Text
  | .NOT_READY => "not_ready".toList
  | .READY => "ready".toList
  | .FAILED => "failed".toList
  | .ZOMBIE => "zombie".toList

def isEqualStatus (s : CLBStatus) (actual : Option Text) : Bool :=
  actual.any fun t => t.map Char.toLower == s.name

def isReady (type : Option Text) : Bool := isEqualStatus .READY type

def isNotReady (type : Option Text) : Bool := isEqualStatus .NOT_READY type

def isFailed (type : Option Text) : Bool := isEqualStatus .FAILED type

def isZombie (type : Option Text) : Bool := isEqualStatus .ZOMBIE type

def getStatus (str : Option Text) : Option CLBStatus :=
  if isReady str then some .READY
  else if isNotReady str then some .NOT_READY
  else if isFailed str then some .FAILED
  else if isZombie str then some .ZOMBIE
  else none

@[simp] theorem isEqualStatus_name (s s' : CLBStatus) :
    isEqualStatus s (some s'.name) = decide (s' = s) := by
  cases s <;> cases s' <;> decide

@[simp] theorem isReady_name (s : CLBStatus) : isReady (some s.name) = decide (s = .READY) :=
  isEqualStatus_name .READY s

theorem getStatus_eq_some_iff {str : Option Text} {s : CLBStatus} :
    getStatus str = some s ↔ isEqualStatus s str = true := by
  constructor
  · unfold getStatus
    split_ifs with equal equal equal equal <;> rintro ⟨⟩ <;> exact equal
  · intro equal
    cases str with
    | none => simp [isEqualStatus] at equal
    | some t =>
      have lower : t.map Char.toLower = s.name := by simpa [isEqualStatus] using equal
      have others (s' : CLBStatus) : isEqualStatus s' (some t) = isEqualStatus s' (some s.name) := by
        rw [isEqualStatus_name, isEqualStatus, Option.any_some, lower]
        clear equal lower
        cases s <;> cases s' <;> decide
      simp only [getStatus, isReady, isNotReady, isFailed, isZombie, others, isEqualStatus_name]
      clear equal lower others
      cases s <;> decide

theorem varchar_name (s : CLBStatus) : Dao.varchar .utf8 255 (some s.name) = true := by
  cases s <;> decide

end CLBStatus

inductive ResizeType where
  | SMALL
  | MEDIUM
  | LARGE
deriving DecidableEq, Repr

namespace ResizeType

def values : List ResizeType := [.SMALL, .MEDIUM, .LARGE]

/-- `ResizeType.toString`. -/
def name : ResizeType → Text
  | .SMALL => "small".toList
  | .MEDIUM => "medium".toList
  | .LARGE => "large".toList

def isEqualStatus (t : ResizeType) (actual : Option Text) : Bool :=
  actual.any fun str => str.map Char.toLower == t.name

def getEnum (str : Option Text) : Option ResizeType :=
  if isEqualStatus .SMALL str then some .SMALL
  else if isEqualStatus .MEDIUM str then some .MEDIUM
  else if isEqualStatus .LARGE str then some .LARGE
  else none

end ResizeType

structure ImageItem where
  id : Int := 0
  appid : Int := 0
  docid : Int := 0
  version : Int := 0
  storageKey : Option ObjectId := none
  fileExtension : Option Text := none
  filename : Option Text := none
  size : Int := 0
  width : Int := 0
  height : Int := 0
  resizeType : Option Text := none
  status : Option Text := none
deriving DecidableEq, Repr

/-! ## The version that a row belongs to -/

def DocVersion.pair (v : DocVersion) : DPair := ⟨v.appid, v.docid, v.version⟩

def PdfItem.pair (i : PdfItem) : DPair := ⟨i.appid, i.docid, i.version⟩

def ImageItem.pair (i : ImageItem) : DPair := ⟨i.appid, i.docid, i.version⟩

end Clb

namespace Clb.Dao

open Clb.Lib

namespace PdfItemDAO

def create (item : PdfItem) (table : Table PdfItem) : Option (Int × Table PdfItem) :=
  pdfItemDAO.insertObject item table

def update (item : PdfItem) (table : Table PdfItem) : Option (Table PdfItem) :=
  pdfItemDAO.updateObject item table

end PdfItemDAO

def imageItemDAO : BaseDAO ImageItem where
  fields :=
    [number "id" (·.id) fun n t => { t with id := n },
      number "appid" (·.appid) fun n t => { t with appid := n },
      number "docid" (·.docid) fun n t => { t with docid := n },
      number "version" (·.version) fun n t => { t with version := n },
      key "storageKey" (·.storageKey) fun v t => { t with storageKey := v },
      text "fileExtension" (·.fileExtension) fun v t => { t with fileExtension := v },
      text "filename" (·.filename) fun v t => { t with filename := v },
      number "size" (·.size) fun n t => { t with size := n },
      number "width" (·.width) fun n t => { t with width := n },
      number "height" (·.height) fun n t => { t with height := n },
      text "resizeType" (·.resizeType) fun v t => { t with resizeType := v },
      text "status" (·.status) fun v t => { t with status := v }]
  getId := (·.id)
  setId n t := { t with id := n }
  fits t := t.storageKey.isSome && t.fileExtension.isSome && varchar .utf8 20 t.fileExtension &&
    t.filename.isSome && varchar .utf8 255 t.filename && t.resizeType.isSome &&
    varchar .utf8 255 t.resizeType && t.status.isSome && varchar .utf8 255 t.status
  clash _ _ := false

namespace ImageItemDAO

/-- `ImageItem(DPair)`. -/
def ofPair (p : DPair) : ImageItem := { appid := p.appid, docid := p.docid, version := p.version }

def readByDocPair (p : DPair) (table : Table ImageItem) : List ImageItem :=
  imageItemDAO.findByProperties (ofPair p) table

def readByStorageKey (targetKey : Option ObjectId) (table : Table ImageItem) : List ImageItem :=
  imageItemDAO.findByProperties { storageKey := targetKey } table

/-- `create` of a list: one INSERT for each item. -/
def create (items : List ImageItem) : Action (Table ImageItem) Fault Unit :=
  Action.forEach (fun item => Action.attempt .dataIntegrity fun table =>
    (imageItemDAO.insertObject item table).map fun out => ((), out.2)) items

def update (item : ImageItem) (table : Table ImageItem) : Option (Table ImageItem) :=
  imageItemDAO.updateObject item table

/-- The row of a version and a type that `delete` names. -/
def isOfType (p : DPair) (rt : ResizeType) (row : ImageItem) : Bool :=
  row.appid == p.appid && row.docid == p.docid && row.version == p.version &&
    row.resizeType == some rt.name

/-- `delete` of a list of types: one DELETE for each type. -/
def delete (p : DPair) (rt : List ResizeType) (table : Table ImageItem) : Table ImageItem :=
  rt.foldl (fun table t => table.delete (isOfType p t)) table

end ImageItemDAO

/-! ## The statements in plain terms -/

theorem imageItem_clause {p : DPair} {row : ImageItem} :
    choseAllFieldsAsQueryClause imageItemDAO.fields (ImageItemDAO.ofPair p) row = true ↔
      Selects p.appid row.appid ∧ Selects p.docid row.docid ∧ Selects p.version row.version := by
  rw [choseAllFieldsAsQueryClause_iff]
  simp [imageItemDAO, ImageItemDAO.ofPair, number, text, key, isUninitField, Selects]

theorem imageItemKey_clause {k : ObjectId} {row : ImageItem} :
    choseAllFieldsAsQueryClause imageItemDAO.fields { storageKey := some k } row = true ↔
      row.storageKey = some k := by
  rw [choseAllFieldsAsQueryClause_iff]
  cases stored : row.storageKey <;>
    simp [imageItemDAO, number, text, key, isUninitField, stored]

theorem pdfItem_read_some {p : DPair} {table : Table PdfItem} {row : PdfItem}
    (found : PdfItemDAO.read p table = some row) :
    row ∈ table.rows ∧ Selects p.appid row.appid ∧ Selects p.docid row.docid ∧
      Selects p.version row.version := by
  obtain ⟨member, chosen⟩ := BaseDAO.findAndReturnOnly_eq_some found
  exact ⟨member, pdfItem_clause.mp chosen⟩

/-- The row found by its pair and rewritten is found again. -/
theorem pdfItem_read_replace {p : DPair} {table : Table PdfItem} {row new : PdfItem}
    (numbered : Table.Numbered PdfItem.id table) (found : PdfItemDAO.read p table = some row)
    (same : new.pair = row.pair) :
    PdfItemDAO.read p (table.replace PdfItem.id row new) = some new := by
  obtain ⟨appid, docid, version⟩ := DPair.mk.inj same
  refine @BaseDAO.findAndReturnOnly_replace _ pdfItemDAO _ _ _ _ numbered found ?_
  rw [Bool.eq_iff_iff, pdfItem_clause, pdfItem_clause, appid, docid, version]

/-- The row inserted for a pair that has none. -/
theorem pdfItem_read_insert {p : DPair} {table : Table PdfItem} {new : PdfItem}
    (missing : PdfItemDAO.read p table = none) (same : new.pair = p) :
    PdfItemDAO.read p (table.insert pdfItemDAO.setId new) = some { new with id := table.next } := by
  obtain ⟨appid, docid, version⟩ := DPair.mk.inj same
  unfold PdfItemDAO.read BaseDAO.findAndReturnOnly BaseDAO.findByProperties at missing ⊢
  rw [Table.rows_insert, List.filter_append, List.head?_eq_none_iff.mp missing, List.nil_append,
    List.filter_singleton, pdfItem_clause.mpr]
  · rfl
  · exact ⟨fun _ => appid, fun _ => docid, fun _ => version⟩

theorem mem_readByDocPair {p : DPair} {table : Table ImageItem} {row : ImageItem} :
    row ∈ ImageItemDAO.readByDocPair p table ↔ row ∈ table.rows ∧ Selects p.appid row.appid ∧
      Selects p.docid row.docid ∧ Selects p.version row.version := by
  unfold ImageItemDAO.readByDocPair BaseDAO.findByProperties
  rw [List.mem_filter]
  exact and_congr_right fun _ => imageItem_clause

theorem mem_readByStorageKey {key : ObjectId} {table : Table ImageItem} {row : ImageItem} :
    row ∈ ImageItemDAO.readByStorageKey (some key) table ↔
      row ∈ table.rows ∧ row.storageKey = some key := by
  unfold ImageItemDAO.readByStorageKey BaseDAO.findByProperties
  rw [List.mem_filter]
  exact and_congr_right fun _ => imageItemKey_clause

/-- The row of a version that is named by its number. -/
theorem docVersion_read_pair {p : DPair} {table : Table DocVersion} {row : DocVersion}
    (found : DocVersionDAO.read p table = some row) (named : p.version ≠ DPair.LATEST) :
    row ∈ table.rows ∧ Selects p.appid row.appid ∧ Selects p.docid row.docid ∧
      Selects p.version row.version := by
  unfold DocVersionDAO.read at found
  rw [if_neg named] at found
  obtain ⟨member, chosen⟩ := BaseDAO.findAndReturnOnly_eq_some found
  exact ⟨member, docVersion_clause.mp chosen⟩

/-- A key, a status and a size written to the row they were read from; without a key the row keeps
its own. -/
theorem pdfItem_set {row : PdfItem} {storageKey : Option ObjectId} {status : Text} {size : Int} :
    getSetValuesClause pdfItemDAO.fields { row with storageKey, status := some status, size } [] row =
      { row with
        storageKey := storageKey.or row.storageKey, status := some status
        size := if size = 0 then row.size else size } := by
  rw [getSetValuesClause_eq]
  rcases row
  cases storageKey <;> by_cases empty : size = 0 <;>
    simp [pdfItemDAO, number, text, key, isUninitField, empty]

/-- A size, a width, a height and a status written to the row they were read from. -/
theorem imageItem_set {row : ImageItem} {size width height : Int} {status : Text} :
    getSetValuesClause imageItemDAO.fields { row with size, width, height, status := some status } []
        row =
      { row with
        size := if size = 0 then row.size else size
        width := if width = 0 then row.width else width
        height := if height = 0 then row.height else height
        status := some status } := by
  rw [getSetValuesClause_eq]
  rcases row
  by_cases noSize : size = 0 <;> by_cases noWidth : width = 0 <;> by_cases noHeight : height = 0 <;>
    simp [imageItemDAO, number, text, key, isUninitField, noSize, noWidth, noHeight]

end Clb.Dao
