/-
# Derived.Conversion -- what the PDF handlers do

Equations for the calls of `PdfFacade` on a row of the table, and from them what a handler makes of
the server: `convertDocument_ends` and `queryPdfStatus_ends`. A conversion is asked for when there is
no row yet, under the old key when the row has failed, and under a new key when the service has logged
an error for the old one. `convertDocument_evolves` and `queryPdfStatus_evolves` place these effects
among the steps of the derivation of PDFs. -/
import Clb.Derived.Evolve
import Clb.Document.Readable

set_option autoImplicit false

namespace Clb

open Clb.Lib Clb.Dao Clb.Lib.Action DocumentFacade Handlers PdfFacade PdfHandlers

namespace Server

/-- A status and a size are written to a row. -/
def markPdf (now : Int) (row : PdfItem) (status : CLBStatus) (size : Int) (s : Server) : Server :=
  { s with
    pdfItems := s.pdfItems.replace PdfItem.id row { row with status := some status.name, size }
    pdfTimes := Function.update s.pdfTimes row.id now }

/-- A row gets a new key and waits. -/
def rekeyPdf (row : PdfItem) (s : Server) : Server :=
  { s with
    store := s.store.issueKey
    pdfItems := s.pdfItems.replace PdfItem.id row
      { row with status := some CLBStatus.NOT_READY.name, storageKey := some s.store.newKey } }

/-- The row that `createPdfItem` inserts. -/
def newPdf (dv : DocVersion) (s : Server) : PdfItem :=
  { appid := dv.appid, docid := dv.docid, version := dv.version, storageKey := some s.store.newKey,
    filename := dv.filename, status := some CLBStatus.NOT_READY.name }

def addPdf (now : Int) (dv : DocVersion) (s : Server) : Server :=
  { s with
    store := s.store.issueKey
    pdfItems := s.pdfItems.insert pdfItemDAO.setId (newPdf dv s)
    pdfTimes := Function.update s.pdfTimes s.pdfItems.next now }

def sendConvert (source target : Option ObjectId) (s : Server) : Server :=
  { s with
    converter := { s.converter with pending := s.converter.pending ++ [⟨source, target⟩] } }

/-- The file that `loadPdf` finds. -/
def pdfFile (key : ObjectId) (s : Server) : Option Artifact :=
  s.converter.pdfs.find? fun file => file.storageKey == key

/-- The size that an update to ready leaves in the row. -/
def readySize (row : PdfItem) (file : Artifact) : Int :=
  if file.length = 0 then row.size else file.length

/-- What `followConversion` does with a row that has a key. -/
def followed (now : Int) (source : Option ObjectId) (row : PdfItem) (key : ObjectId) (s : Server) :
    Server :=
  if s.converter.errors.contains (some key) then
    (s.rekeyPdf row).sendConvert source (some s.store.newKey)
  else
    match s.pdfFile key with
    | some file => s.markPdf now row .READY (readySize row file)
    | none => s

/-- What `retryFailed` does with a row that has failed. -/
def retried (now : Int) (source : Option ObjectId) (row : PdfItem) (s : Server) : Server :=
  (s.markPdf now row .NOT_READY row.size).sendConvert source row.storageKey

/-- What `convertAgain` does with a row that has a key. -/
def convertedAgain (now : Int) (source : Option ObjectId) (row : PdfItem) (key : ObjectId)
    (s : Server) : Server :=
  if CLBStatus.isFailed row.status then
    (s.retried now source row).followed now source
      { row with status := some CLBStatus.NOT_READY.name } key
  else if CLBStatus.isNotReady row.status then
    s.followed now source row key
  else
    s

/-- What `itemStatus` answers about a row that has a key, and what it does. -/
def answered (config : ServerConfig) (now : Int) (row : PdfItem) (key : ObjectId) (s : Server) :
    PdfStatusCode × Server :=
  if CLBStatus.isReady row.status then
    (.CONVERT_SUCCESS, s)
  else if CLBStatus.isNotReady row.status then
    match s.pdfFile key with
    | some file => (.CONVERT_SUCCESS, s.markPdf now row .READY (readySize row file))
    | none =>
      if s.converter.errors.contains (some key) || isConvertExpired config now (s.pdfTimes row.id) then
        (.CONVERT_FAILED, s.markPdf now row .FAILED row.size)
      else
        (.CONVERT_ONGOING, s)
  else
    (.CONVERT_FAILED, s)

end Server

/-! ## Statuses -/

namespace CLBStatus

@[simp] theorem isFailed_name (s : CLBStatus) : isFailed (some s.name) = decide (s = .FAILED) :=
  isEqualStatus_name .FAILED s

theorem not_isReady_notReady : ¬ isReady (some NOT_READY.name) = true := by
  simp

theorem isEqualStatus_eq {s s' : CLBStatus} {actual : Option Text}
    (first : isEqualStatus s actual = true) (second : isEqualStatus s' actual = true) : s = s' := by
  unfold isEqualStatus at first second
  cases actual with
  | none => cases first
  | some t =>
    simp only [Option.any_some, beq_iff_eq] at first second
    rw [first] at second
    revert second
    cases s <;> cases s' <;> decide

end CLBStatus

/-! ## The calls on a row -/

section Rows

variable {s : Server} {row : PdfItem} {now : Int}

theorem pdf_fits_key (fits : pdfItemDAO.fits row = true) : ∃ key, row.storageKey = some key := by
  simp only [pdfItemDAO, Bool.and_eq_true] at fits
  exact Option.isSome_iff_exists.mp fits.1.1.1.1

/-- A key and a status keep a row in shape. -/
theorem pdf_fits_set {storageKey : Option ObjectId} {status : CLBStatus} {size : Int}
    (fits : pdfItemDAO.fits row = true) :
    pdfItemDAO.fits
      { row with
        storageKey := storageKey.or row.storageKey, status := some status.name
        size } = true := by
  have text := status.varchar_name
  simp only [pdfItemDAO, Bool.and_eq_true] at fits text ⊢
  obtain ⟨⟨⟨⟨stored, -⟩, -⟩, named⟩, short⟩ := fits
  refine ⟨⟨⟨⟨?_, rfl⟩, text⟩, named⟩, short⟩
  cases storageKey with
  | none => exact stored
  | some key => rfl

theorem updateItem_eq {storageKey : Option ObjectId} {status : CLBStatus} {size : Int}
    (numbered : Table.Numbered PdfItem.id s.pdfItems) (member : row ∈ s.pdfItems.rows)
    (fits : pdfItemDAO.fits row = true) :
    updateItem { row with storageKey, status := some status.name, size } s =
      (.ok (),
        { s with
          pdfItems := s.pdfItems.replace PdfItem.id row
            { row with
              storageKey := storageKey.or row.storageKey, status := some status.name
              size := if size = 0 then row.size else size } }) := by
  have updated := @BaseDAO.updateObject_eq _ pdfItemDAO
    { row with storageKey, status := some status.name, size } _ numbered row member rfl
  rw [pdfItem_set, if_pos (pdf_fits_set fits)] at updated
  unfold updateItem onPdfItems Action.attempt PdfItemDAO.update
  refine within_eq ?_
  simp only [updated, Option.map_some]
  rfl

theorem generateStorageKey_eq (s : Server) :
    generateStorageKey s = (.ok s.store.newKey, { s with store := s.store.issueKey }) := rfl

theorem updateStatus_eq {status : CLBStatus} {size : Int}
    (numbered : Table.Numbered PdfItem.id s.pdfItems) (member : row ∈ s.pdfItems.rows)
    (fits : pdfItemDAO.fits row = true) :
    updateStatus now status { row with size } s =
      (.ok { row with status := some status.name, size },
        s.markPdf now row status (if size = 0 then row.size else size)) := by
  have updated := @updateItem_eq s row row.storageKey status size numbered member fits
  unfold updateStatus
  rw [bind_ok updated]
  simp only [Option.or_self]
  rfl

theorem updateItemToReadyStatus_eq {file : Artifact}
    (numbered : Table.Numbered PdfItem.id s.pdfItems) (member : row ∈ s.pdfItems.rows)
    (fits : pdfItemDAO.fits row = true) :
    updateItemToReadyStatus now row file s =
      (.ok { row with status := some CLBStatus.READY.name, size := file.length },
        s.markPdf now row .READY (Server.readySize row file)) :=
  updateStatus_eq numbered member fits

/-- What is written to a row that has a key. -/
theorem markPdf_row {status : CLBStatus} {size : Int}
    (numbered : Table.Numbered PdfItem.id s.pdfItems) (member : row ∈ s.pdfItems.rows) :
    { row with status := some status.name, size } ∈ (s.markPdf now row status size).pdfItems.rows :=
  (numbered.mem_replace member).mpr (.inl rfl)

theorem followConversion_eq {dv : DocVersion} {key : ObjectId}
    (numbered : Table.Numbered PdfItem.id s.pdfItems) (member : row ∈ s.pdfItems.rows)
    (fits : pdfItemDAO.fits row = true) (stored : row.storageKey = some key) :
    followConversion now dv row s = (.ok (), s.followed now dv.storageKey row key) := by
  unfold followConversion checkConvertErrorLog Server.followed
  rw [read_bind, stored]
  cases logged : s.converter.errors.contains (some key) with
  | true =>
    have updated := @updateItem_eq { s with store := s.store.issueKey } row (some s.store.newKey)
      .NOT_READY row.size numbered member fits
    have rekeyed : updatePdfItemStorageKey row s = (.ok s.store.newKey, s.rekeyPdf row) := by
      unfold updatePdfItemStorageKey
      rw [bind_ok (generateStorageKey_eq s), bind_ok updated]
      simp only [ite_self, Option.some_or]
      rfl
    simp only [if_true]
    rw [bind_ok rekeyed]
    rfl
  | false =>
    have loaded : loadPdf (some key) s = (.ok (s.pdfFile key), s) := rfl
    simp only [Bool.false_eq_true, if_false]
    rw [bind_ok loaded]
    cases s.pdfFile key with
    | none => rfl
    | some file =>
      simp only
      rw [bind_ok (updateItemToReadyStatus_eq numbered member fits)]
      rfl

theorem convertAgain_eq {dv : DocVersion} {key : ObjectId}
    (numbered : Table.Numbered PdfItem.id s.pdfItems) (member : row ∈ s.pdfItems.rows)
    (fits : pdfItemDAO.fits row = true) (stored : row.storageKey = some key) :
    convertAgain now dv row s = (.ok (), s.convertedAgain now dv.storageKey row key) := by
  unfold convertAgain Server.convertedAgain retryFailed
  cases failed : CLBStatus.isFailed row.status with
  | true =>
    have notReady : ¬ CLBStatus.isReady row.status = true := fun ready =>
      nomatch CLBStatus.isEqualStatus_eq failed ready
    have marked := @updateStatus_eq s row now .NOT_READY row.size numbered member fits
    have numbered' : Table.Numbered PdfItem.id (s.retried now dv.storageKey row).pdfItems :=
      numbered.replace rfl
    have waits := @followConversion_eq (s.retried now dv.storageKey row)
      { row with status := some CLBStatus.NOT_READY.name } now dv key numbered'
      (@markPdf_row s row now _ _ numbered member) (@pdf_fits_set row none .NOT_READY row.size fits) stored
    rw [if_neg notReady]
    simp only [if_true]
    unfold updatePdfItemToNotReadyStatus
    rw [ite_self] at marked
    rw [bind_assoc, bind_ok marked]
    exact waits
  | false =>
    simp only [Bool.false_eq_true, if_false]
    cases waiting : CLBStatus.isNotReady row.status with
    | true =>
      have notReady : ¬ CLBStatus.isReady row.status = true := fun ready =>
        nomatch CLBStatus.isEqualStatus_eq waiting ready
      rw [if_neg notReady, pure_bind, if_pos waiting]
      exact followConversion_eq numbered member fits stored
    | false =>
      split
      · rfl
      · rw [pure_bind, if_neg (by simp [waiting])]
        rfl

theorem itemStatus_eq {config : ServerConfig} {key : ObjectId}
    (numbered : Table.Numbered PdfItem.id s.pdfItems) (member : row ∈ s.pdfItems.rows)
    (fits : pdfItemDAO.fits row = true) (stored : row.storageKey = some key) :
    itemStatus config now row s =
      (.ok (s.answered config now row key).1, (s.answered config now row key).2) := by
  unfold itemStatus Server.answered
  split
  · rfl
  · split
    · have loaded : loadPdf row.storageKey s = (.ok (s.pdfFile key), s) := by
        rw [stored]
        rfl
      unfold waitingStatus
      rw [bind_ok loaded]
      cases s.pdfFile key with
      | some file =>
        simp only
        rw [bind_ok (updateItemToReadyStatus_eq numbered member fits)]
        rfl
      | none =>
        have failed := @updateStatus_eq s row now .FAILED row.size numbered member fits
        rw [ite_self] at failed
        simp only
        unfold checkConvertErrorLog updatePdfItemToFailedStatus
        rw [read_bind, read_bind, stored]
        split
        · rw [bind_ok failed]
          rfl
        · rfl
    · rfl

end Rows

/-! ## The handlers -/

section Handlers

variable {config : ServerConfig} {session : Session} {now : Int} {dp : DocPair} {s : Server}

theorem readOnly_onStore {α : Type} {act : Act α} (readOnly : ReadOnly act) :
    ReadOnly (onStore act) :=
  readOnly_within readOnly fun _ => rfl

theorem getDocVersion_ends {t : Store} {p : DPair} :
    Ends (getDocVersion p) t fun r t' => t' = t ∧
      ∀ dv, r = .ok dv → DocVersionDAO.read p t.versions = some dv := by
  unfold getDocVersion
  refine ends_bind (ends_read (ends_require (fun dv found => ⟨rfl, ?_⟩) fun _ => ⟨rfl, ?_⟩))
  · intro dv' same
    rw [found, Except.ok.inj same]
  · exact fun _ returned => nomatch returned

/-- The beginning of a handler, on the server. -/
theorem onStore_openDocument_ends {post : Except Fault DPair → Server → Prop}
    (opened : ∀ p, convertToPair session.appid dp = some p → post (.ok p) s)
    (refused : ∀ fault, post (.error fault) s) : Ends (onStore (openDocument session dp)) s post := by
  refine (readOnly_onStore (readOnly_openDocument _ _)).ends ?_
  cases result : (onStore (openDocument session dp) s).1 with
  | error fault => exact refused fault
  | ok p => exact opened p (openDocument_ok result).1

theorem onStore_getDocVersion_ends {p : DPair} {post : Except Fault DocVersion → Server → Prop}
    (found : ∀ dv, DocVersionDAO.read p s.store.versions = some dv → post (.ok dv) s)
    (missing : ∀ fault, post (.error fault) s) : Ends (onStore (getDocVersion p)) s post := by
  refine ends_within (getDocVersion_ends.mono ?_)
  rintro (fault | dv) _ ⟨rfl, reads⟩
  · exact missing fault
  · exact found dv (reads dv rfl)

theorem onStore_openDocument_eq {r : Except Fault DPair}
    (opened : openDocument session dp s.store = (r, s.store)) :
    onStore (openDocument session dp) s = (r, s) :=
  within_eq opened

section Opened

variable {p : DPair} {dv : DocVersion}

theorem convertDocument_opened (writable : ¬ config.readonly = true)
    (opened : openDocument session dp s.store = (.ok p, s.store))
    (read : DocVersionDAO.read p s.store.versions = some dv) :
    convertDocument config session now dp s =
      if canConvert dv.fileExtension = false then (.error .invalidFileOperation, s)
      else
        match PdfItemDAO.read p s.pdfItems with
        | some oldItem => convertAgain now dv oldItem s
        | none => (do
            let item ← createPdfItem now dv
            convert dv.storageKey item.storageKey : Serve Unit) s := by
  have mode : onStore (checkSystemIOMode config.toConfig) s = (.ok (), s) := by
    refine within_eq ?_
    unfold checkSystemIOMode raiseIf
    rw [if_neg writable]
    rfl
  have found : onStore (getDocVersion p) s = (.ok dv, s) := within_eq (getDocVersion_eq read)
  unfold convertDocument
  rw [bind_ok mode, bind_ok (onStore_openDocument_eq opened), bind_ok found]
  unfold PdfFacade.checkFileOperation raiseIf getPdfItemWithoutException
  split
  · rfl
  · rw [pure_bind, read_bind]
    cases PdfItemDAO.read p s.pdfItems <;> rfl

theorem queryPdfStatus_opened (opened : openDocument session dp s.store = (.ok p, s.store))
    (read : DocVersionDAO.read p s.store.versions = some dv) :
    queryPdfStatus config session now dp s =
      match PdfItemDAO.read p s.pdfItems with
      | none => (.ok .UNCONVERT_SOURCE_FILE, s)
      | some item => itemStatus config now item s := by
  unfold queryPdfStatus getPdfItemWithoutException
  rw [bind_ok (onStore_openDocument_eq opened), read_bind, read, if_neg (by simp), read_bind]
  cases PdfItemDAO.read p s.pdfItems <;> rfl

end Opened

/-- What `ConvertDocumentHandler` makes of the server once the document is open: a row that is refused
costs a key, a first row is inserted, the row found is followed. -/
inductive ConvertEffect (now : Int) (p : DPair) (s : Server) : Server → Prop
  | refused : ConvertEffect now p s { s with store := s.store.issueKey }
  | first (dv : DocVersion) (found : DocVersionDAO.read p s.store.versions = some dv)
      (missing : PdfItemDAO.read p s.pdfItems = none)
      (fits : pdfItemDAO.fits (s.newPdf dv) = true) :
      ConvertEffect now p s ((s.addPdf now dv).sendConvert dv.storageKey (some s.store.newKey))
  | again (dv : DocVersion) (found : DocVersionDAO.read p s.store.versions = some dv)
      (row : PdfItem) (read : PdfItemDAO.read p s.pdfItems = some row) (key : ObjectId)
      (stored : row.storageKey = some key) :
      ConvertEffect now p s (s.convertedAgain now dv.storageKey row key)

theorem createPdfItem_ends {dv : DocVersion} :
    Ends (createPdfItem now dv) s fun r s' =>
      (∃ fault, r = .error fault ∧ s' = { s with store := s.store.issueKey }) ∨
        (pdfItemDAO.fits (s.newPdf dv) = true ∧
          r = .ok { s.newPdf dv with id := s.pdfItems.next } ∧ s' = s.addPdf now dv) := by
  unfold createPdfItem
  refine ends_bind (ends_of_eq (generateStorageKey_eq s) ?_)
  refine ends_bind (ends_within (ends_attempt ?_ fun _ => .inl ⟨_, rfl, rfl⟩))
  intro id table created
  obtain ⟨fits, -, inserted⟩ := BaseDAO.insertObject_eq_some created
  obtain ⟨rfl, rfl⟩ := Prod.mk.inj inserted
  exact .inr ⟨fits, rfl, rfl⟩

/-- **What `ConvertDocumentHandler` does.** -/
theorem convertDocument_ends (wf : ServerWf config.toConfig s) :
    Ends (convertDocument config session now dp) s fun _ s' =>
      s' = s ∨ ∃ p, convertToPair session.appid dp = some p ∧ ConvertEffect now p s s' := by
  unfold convertDocument
  refine ends_bind ((readOnly_onStore (readOnly_checkSystemIOMode _)).ends ?_)
  split
  · refine ends_bind (onStore_openDocument_ends (fun p converted => ?_) fun _ => .inl rfl)
    refine ends_bind (onStore_getDocVersion_ends (fun dv found => ?_) fun _ => .inl rfl)
    refine ends_bind (ends_raiseIf (fun _ => .inl rfl) fun _ => ?_)
    refine ends_bind (ends_read ?_)
    cases read : PdfItemDAO.read p s.pdfItems with
    | none =>
      refine ends_bind (createPdfItem_ends.mono ?_)
      rintro _ _ (⟨fault, rfl, rfl⟩ | ⟨fits, rfl, rfl⟩)
      · exact .inr ⟨p, converted, .refused⟩
      · exact .inr ⟨p, converted, .first dv found read fits⟩
    | some row =>
      obtain ⟨member, -⟩ := pdfItem_read_some read
      obtain ⟨key, stored⟩ := pdf_fits_key (wf.pdfFit row member)
      refine ends_of_eq (convertAgain_eq wf.pdfNumbered member (wf.pdfFit row member) stored) ?_
      exact .inr ⟨p, converted, .again dv found row read key stored⟩
  · exact .inl rfl

/-- **What `QueryPdfStatusHandler` does.** -/
theorem queryPdfStatus_ends (wf : ServerWf config.toConfig s) :
    Ends (queryPdfStatus config session now dp) s fun _ s' =>
      s' = s ∨ ∃ p row key, convertToPair session.appid dp = some p ∧
        PdfItemDAO.read p s.pdfItems = some row ∧ row.storageKey = some key ∧
        s' = (s.answered config now row key).2 := by
  unfold queryPdfStatus
  refine ends_bind (onStore_openDocument_ends (fun p converted => ?_) fun _ => .inl rfl)
  refine ends_bind (ends_read (ends_ite (fun _ => .inl rfl) fun _ => ?_))
  refine ends_bind (ends_read ?_)
  cases read : PdfItemDAO.read p s.pdfItems with
  | none => exact .inl rfl
  | some row =>
    obtain ⟨member, -⟩ := pdfItem_read_some read
    obtain ⟨key, stored⟩ := pdf_fits_key (wf.pdfFit row member)
    refine ends_of_eq (itemStatus_eq wf.pdfNumbered member (wf.pdfFit row member) stored) ?_
    exact .inr ⟨p, row, key, converted, read, stored, rfl⟩

end Handlers

/-! ## The effects as steps of the derivation -/

section Evolving

variable {precise : Prop} {config : Config} {s : Server} {row : PdfItem} {key : ObjectId}
  {source : Option ObjectId} {now : Int}

/-- The column updateTime plays no part in the derivation. -/
theorem Evolves.withTimes (times : Int → Int) : Evolves precise s { s with pdfTimes := times } :=
  .of_same (Lends.refl _) rfl rfl rfl rfl

theorem Evolves.sendConvert (member : row ∈ s.pdfItems.rows) (stored : row.storageKey = some key)
    (has : precise → Current s.store row.pair source) :
    Evolves precise s (s.sendConvert source (some key)) := by
  have asked : (s.sendConvert source (some key)).pdfs =
      { s.pdfs with asked := insert (key, source) s.pdfs.asked } := by
    unfold Server.pdfs Server.sendConvert
    congr 1
    ext ⟨key', source'⟩
    constructor
    · rintro ⟨r, inside, target, from_⟩
      rcases List.mem_append.mp inside with old | new
      · exact .inr ⟨r, old, target, from_⟩
      · obtain rfl := List.mem_singleton.mp new
        exact .inl (Prod.ext (Option.some.inj target).symm from_.symm)
    · rintro (same | ⟨r, old, target, from_⟩)
      · obtain ⟨rfl, rfl⟩ := Prod.mk.inj same
        exact ⟨_, List.mem_append_right _ (List.mem_singleton_self _), rfl, rfl⟩
      · exact ⟨r, List.mem_append_left _ old, target, from_⟩
  refine .of_rows (Lends.refl _) rfl rfl ?_ .refl
  rw [asked]
  exact .single (.ask row key source member stored has)

theorem Evolves.markPdf {status : CLBStatus} {size : Int}
    (numbered : Table.Numbered PdfItem.id s.pdfItems) (member : row ∈ s.pdfItems.rows)
    (stored : row.storageKey = some key)
    (ready : status = .READY → ∃ source, (key, source) ∈ s.pdfs.files) :
    Evolves precise s (s.markPdf now row status size) := by
  refine Evolves.trans (.withTimes (Function.update s.pdfTimes row.id now))
    (.rewritePdf (fun numbered => numbered.replace rfl) (fun fit i inside => ?_) fun i inside => ?_)
  · rcases (numbered.mem_replace member).mp inside with rfl | ⟨old, -⟩
    · exact @pdf_fits_set row none status size (fit row member)
    · exact fit i old
  · rcases (numbered.mem_replace member).mp inside with rfl | ⟨old, -⟩
    · refine ⟨row, member, rfl, rfl, fun isReady => .inr ?_⟩
      obtain ⟨source, filed⟩ := ready (by simpa [pdfLedger] using isReady)
      exact ⟨key, source, stored, filed⟩
    · exact ⟨i, old, rfl, rfl, .inl⟩

theorem filed_of_pdfFile {file : Artifact} (found : s.pdfFile key = some file) :
    (key, some file.source) ∈ s.pdfs.files :=
  ⟨file, List.mem_of_find?_eq_some found, by simpa using List.find?_some found, rfl⟩

theorem Evolves.issueKey : Evolves precise s { s with store := s.store.issueKey } :=
  .ofStore (Lends.issueKey _)

theorem Evolves.rekeyPdf (wf : ServerWf config s) (member : row ∈ s.pdfItems.rows) :
    Evolves precise s (s.rekeyPdf row) := by
  refine Evolves.trans .issueKey (.enterPdf row.pair s.store.newKey
    (fun numbered => numbered.replace rfl) (fun fit i inside => ?_) (wf.unused (Nat.le_refl _)).1
    (Nat.lt_succ_self _) (.inr ⟨row, member, rfl⟩) fun i inside => ?_)
  · rcases (wf.pdfNumbered.mem_replace member).mp inside with rfl | ⟨old, -⟩
    · exact @pdf_fits_set row (some _) .NOT_READY row.size (fit row member)
    · exact fit i old
  · rcases (wf.pdfNumbered.mem_replace member).mp inside with rfl | ⟨old, -⟩
    · exact .inr ⟨rfl, rfl, CLBStatus.not_isReady_notReady⟩
    · exact .inl old

theorem Evolves.followed (wf : ServerWf config s) (member : row ∈ s.pdfItems.rows)
    (stored : row.storageKey = some key) (has : precise → Current s.store row.pair source) :
    Evolves precise s (s.followed now source row key) := by
  unfold Server.followed
  split
  · refine (Evolves.rekeyPdf wf member).trans (.sendConvert
      ((wf.pdfNumbered.mem_replace member).mpr (.inl rfl)) rfl has)
  · split
    · rename_i file found
      exact .markPdf wf.pdfNumbered member stored fun _ => ⟨_, filed_of_pdfFile found⟩
    · exact .refl s

theorem Evolves.convertedAgain (wf : ServerWf config s) (member : row ∈ s.pdfItems.rows)
    (stored : row.storageKey = some key) (has : precise → Current s.store row.pair source) :
    Evolves precise s (s.convertedAgain now source row key) := by
  unfold Server.convertedAgain
  split
  · have waits : Evolves precise s (s.markPdf now row .NOT_READY row.size) :=
      .markPdf wf.pdfNumbered member stored nofun
    have member' := @markPdf_row s row now .NOT_READY row.size wf.pdfNumbered member
    have sent : Evolves precise s (s.retried now source row) := by
      unfold Server.retried
      rw [stored]
      exact waits.trans (.sendConvert member' stored has)
    exact sent.trans (.followed (sent.wf wf) member' stored has)
  · split
    · exact .followed wf member stored has
    · exact .refl s

theorem Evolves.answered {config : ServerConfig} (wf : ServerWf config.toConfig s)
    (member : row ∈ s.pdfItems.rows) (stored : row.storageKey = some key) :
    Evolves precise s (s.answered config now row key).2 := by
  unfold Server.answered
  split
  · exact .refl s
  · split
    · split
      · rename_i file found
        exact .markPdf wf.pdfNumbered member stored fun _ => ⟨_, filed_of_pdfFile found⟩
      · split
        · exact .markPdf wf.pdfNumbered member stored nofun
        · exact .refl s
    · exact .refl s

/-- A row and a version that are selected by the same pair belong together, except for version 0. -/
theorem current_of_selects {t : Store} {p owner : DPair} {dv : DocVersion} (appid : p.appid ≠ 0)
    (docid : p.docid ≠ 0) (version : p.version ≠ 0)
    (found : DocVersionDAO.read p t.versions = some dv) (positive : 0 < owner.version)
    (sameApp : Selects p.appid owner.appid) (sameDoc : Selects p.docid owner.docid)
    (sameVersion : Selects p.version owner.version) : Current t owner dv.storageKey := by
  have named : p.version ≠ DPair.LATEST := by
    rw [← sameVersion version]
    unfold DPair.LATEST
    omega
  obtain ⟨inside, dvApp, dvDoc, dvVersion⟩ := docVersion_read_pair found named
  refine ⟨dv, inside, ?_, rfl⟩
  obtain ⟨ownerApp, ownerDoc, ownerVersion⟩ := owner
  unfold DocVersion.pair
  rw [dvApp appid, dvDoc docid, dvVersion version]
  exact (congr (congr (congrArg DPair.mk (sameApp appid)) (sameDoc docid)) (sameVersion version)).symm

theorem current_of_read (wf : ServerWf config s) {p : DPair} {dv : DocVersion} (appid : p.appid ≠ 0)
    (docid : p.docid ≠ 0) (version : p.version ≠ 0)
    (found : DocVersionDAO.read p s.store.versions = some dv)
    (read : PdfItemDAO.read p s.pdfItems = some row) : Current s.store row.pair dv.storageKey := by
  obtain ⟨member, sameApp, sameDoc, sameVersion⟩ := pdfItem_read_some read
  exact current_of_selects appid docid version found (wf.pdfWithin.owned row member).2 sameApp sameDoc
    sameVersion

theorem ConvertEffect.evolves {p : DPair} {s' : Server} (wf : ServerWf config s) (appid : p.appid ≠ 0)
    (docid : p.docid ≠ 0) (effect : ConvertEffect now p s s') : Evolves (p.version ≠ 0) s s' := by
  cases effect with
  | refused => exact .issueKey
  | first dv found missing fits =>
    obtain ⟨inside, -, sameDoc⟩ := docVersion_read_some found
    have owner : dv.docid ≠ 0 := by
      rw [sameDoc docid]
      exact docid
    have entered : Evolves (p.version ≠ 0) s (s.addPdf now dv) := by
      refine (Evolves.issueKey.trans (.withTimes _)).trans (.enterPdf dv.pair s.store.newKey
        (fun numbered => numbered.insert (fun _ _ => rfl) _)
        (fun fit => Table.forall_mem_insert fit fits) (wf.unused (Nat.le_refl _)).1
        (Nat.lt_succ_self _) (.inl ⟨⟨dv, inside, rfl⟩, fun _ => owner⟩) fun i member => ?_)
      rcases List.mem_append.mp member with old | new
      · exact .inl old
      · rw [List.mem_singleton.mp new]
        exact .inr ⟨rfl, rfl, CLBStatus.not_isReady_notReady⟩
    exact entered.trans (.sendConvert (List.mem_append_right _ (List.mem_singleton_self _)) rfl
      fun _ => ⟨dv, inside, rfl, rfl⟩)
  | again dv found row read key stored =>
    exact .convertedAgain wf (pdfItem_read_some read).1 stored fun version =>
      current_of_read wf appid docid version found read

/-- A `DocPair` that does not name version 0. -/
theorem version_ne_zero {appid : Int} {dp : DocPair} {p : DPair}
    (converted : convertToPair appid dp = some p) (named : parseInt dp.version ≠ some 0) :
    p.version ≠ 0 := by
  unfold convertToPair at converted
  split at converted
  · cases converted
  · split at converted
    · obtain rfl := Option.some.inj converted
      exact (by decide : DPair.LATEST ≠ 0)
    · obtain ⟨version, parsed, rfl⟩ := Option.map_eq_some_iff.mp converted
      rintro rfl
      exact named parsed

theorem convertDocument_evolves {config : ServerConfig} {session : Session} {dp : DocPair}
    (wf : ServerWf config.toConfig s) :
    Evolves (parseInt dp.version ≠ some 0) s (convertDocument config session now dp s).2 := by
  change Ends (convertDocument config session now dp) s fun _ s' => Evolves _ s s'
  refine (convertDocument_ends wf).mono ?_
  rintro _ _ (rfl | ⟨p, converted, effect⟩)
  · exact .refl _
  · obtain ⟨appid, docid, positive⟩ := convertToPair_eq_some converted
    have session_pos := session.appid_pos
    exact (effect.evolves wf (by omega) (by omega)).mono (version_ne_zero converted)

theorem queryPdfStatus_evolves {config : ServerConfig} {session : Session} {dp : DocPair}
    (wf : ServerWf config.toConfig s) :
    Evolves precise s (queryPdfStatus config session now dp s).2 := by
  change Ends (queryPdfStatus config session now dp) s fun _ s' => Evolves _ s s'
  refine (queryPdfStatus_ends wf).mono ?_
  rintro _ _ (rfl | ⟨p, row, key, -, read, stored, rfl⟩)
  · exact .refl _
  · exact .answered wf (pdfItem_read_some read).1 stored

end Evolving

end Clb
