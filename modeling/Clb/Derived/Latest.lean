/-
# Derived.Latest -- is "latest" the last version

Eight handlers take a `DocPair` whose version may be the text "latest". Those that only go through the
version row they load do the same for the number of the greatest version. The others look for rows of
the version -1, which has none: `latest_iff` says for each handler when the two calls agree. -/
import Clb.Derived.System
import Clb.Document.Readable

set_option autoImplicit false

namespace Clb

open Clb.Lib Clb.Dao Clb.Lib.Action DocumentFacade Handlers PdfFacade PdfHandlers ImageFacade ImageHandlers

variable {now : Int}

/-- The handlers of a `DocPair` that may name the latest version. -/
inductive PairHandler where
  | getDocContent
  | getDocMetaInfo (digest : GridFSFile → Option Text)
  | convertDocument (now : Int)
  | queryPdfStatus (now : Int)
  | getPdfContent
  | getPdfDirectURL
  | queryResizeStatus
  | getResizeImageInfo

namespace PairHandler

def Answer : PairHandler → Type
  | .getDocContent => Bytes
  | .getDocMetaInfo _ => DocMetaInfo
  | .convertDocument _ => Unit
  | .queryPdfStatus _ => PdfStatusCode
  | .getPdfContent => Artifact
  | .getPdfDirectURL => Option DirectUrl
  | .queryResizeStatus => Option (List (Option Text × ImageMeta))
  | .getResizeImageInfo => ResizeImage

def call (config : ServerConfig) (session : Session) (dp : DocPair) :
    (handler : PairHandler) → Serve handler.Answer
  | .getDocContent => onStore (Handlers.getDocContent session dp)
  | .getDocMetaInfo digest => onStore (Handlers.getDocMetaInfo digest session dp)
  | .convertDocument now => PdfHandlers.convertDocument config session now dp
  | .queryPdfStatus now => PdfHandlers.queryPdfStatus config session now dp
  | .getPdfContent => PdfHandlers.getPdfContent session dp
  | .getPdfDirectURL => PdfHandlers.getPdfDirectURL session dp
  | .queryResizeStatus => ImageHandlers.queryResizeStatus session dp
  | .getResizeImageInfo => ImageHandlers.getResizeImageInfo session dp

/-- When the handler has nothing to do with rows of the version, given by its number. -/
def Indifferent (config : ServerConfig) (session : Session) (docid version : Int) (s : Server) :
    PairHandler → Prop
  | .getDocContent | .getDocMetaInfo _ | .getResizeImageInfo => True
  | .convertDocument _ => config.readonly = true ∨
      (∀ dv, DocVersionDAO.read ⟨session.appid, docid, version⟩ s.store.versions = some dv →
        canConvert dv.fileExtension = false) ∨
      PdfItemDAO.read ⟨session.appid, docid, version⟩ s.pdfItems = none
  | .queryPdfStatus _ => PdfItemDAO.read ⟨session.appid, docid, version⟩ s.pdfItems = none
  | .getPdfContent | .getPdfDirectURL => False
  | .queryResizeStatus =>
    ImageItemDAO.readByDocPair ⟨session.appid, docid, version⟩ s.imageItems = []

end PairHandler

/-- The greatest version of a document. -/
def Greatest (appid docid version : Int) (t : Store) : Prop :=
  (∃ v ∈ t.versions.rows, v.appid = appid ∧ v.docid = docid ∧ v.version = version) ∧
    ∀ v ∈ t.versions.rows, v.appid = appid → v.docid = docid → v.version ≤ version

def latest (docid : Int) : DocPair := ⟨docid, "latest".toList⟩

def numbered (docid version : Int) : DocPair := ⟨docid, decimalText version⟩

section Reads

variable {config : Config} {session : Session} {docid version : Int}

/-- Both pairs read the row of the greatest version. -/
theorem greatest_read {t : Store} (wf : Wf config t) (positive : 0 < docid)
    (greatest : Greatest session.appid docid version t) :
    ∃ dv ∈ t.versions.rows, dv.version = version ∧
      DocVersionDAO.read ⟨session.appid, docid, version⟩ t.versions = some dv ∧
      DocVersionDAO.read ⟨session.appid, docid, DPair.LATEST⟩ t.versions = some dv := by
  obtain ⟨⟨dv, member, sameApp, sameDoc, rfl⟩, above⟩ := greatest
  have nonzero : dv.docid ≠ 0 := by omega
  have read := docVersion_read_eq wf member nonzero
  rw [sameApp, sameDoc] at read
  refine ⟨dv, member, rfl, read, ?_⟩
  have session_pos := session.appid_pos
  unfold DocVersionDAO.read
  rw [if_pos rfl]
  cases last : DocVersionDAO.readLastVersion session.appid docid t.versions with
  | none => exact absurd ⟨fun _ => sameApp, fun _ => sameDoc⟩ (readLastVersion_none last member)
  | some v =>
    obtain ⟨inside, chosenApp, chosenDoc⟩ := readLastVersion_some last
    have app : v.appid = session.appid := chosenApp (by omega)
    have doc : v.docid = docid := chosenDoc (by omega)
    have notBelow := readLastVersion_greatest last member (fun _ => sameApp) fun _ => sameDoc
    have notAbove := above v inside app doc
    have same : versionKey v = versionKey dv := by
      unfold versionKey
      rw [if_neg (by omega), if_neg nonzero, app, doc, sameApp, sameDoc,
        show v.version = dv.version by omega]
    rw [wf.versionsUnique v inside dv member same]

end Reads

/-! ## Calls on a document that is not open, and on one that is -/

section Calls

variable {config : ServerConfig} {session : Session} {dp dp' : DocPair} {s : Server}

theorem onStore_congr {α : Type} {act act' : Act α} (same : act s.store = act' s.store) :
    onStore act s = onStore act' s := by
  unfold onStore within
  rw [same]

/-- Two pairs that are refused for the same reason. -/
theorem call_eq_of_refused {fault : Fault}
    (refused : openDocument session dp s.store = (.error fault, s.store))
    (refused' : openDocument session dp' s.store = (.error fault, s.store)) (handler : PairHandler) :
    handler.call config session dp s = handler.call config session dp' s := by
  have first := onStore_openDocument_eq refused
  have second := onStore_openDocument_eq refused'
  cases handler with
  | getDocContent =>
    refine onStore_congr ?_
    rw [getDocContent_openDocument, getDocContent_openDocument, bind_error refused, bind_error refused']
  | getDocMetaInfo digest =>
    refine onStore_congr ?_
    unfold getDocMetaInfo
    rw [bind_error refused, bind_error refused']
  | convertDocument now =>
    change convertDocument config session now dp s = convertDocument config session now dp' s
    unfold convertDocument
    rw [(readOnly_onStore (readOnly_checkSystemIOMode _)).bind_eq,
      (readOnly_onStore (readOnly_checkSystemIOMode _)).bind_eq]
    split
    · rw [bind_error first, bind_error second]
    · rfl
  | queryPdfStatus now => exact (bind_error first).trans (bind_error second).symm
  | getPdfContent => exact (bind_error first).trans (bind_error second).symm
  | getPdfDirectURL => exact (bind_error first).trans (bind_error second).symm
  | queryResizeStatus => exact (bind_error first).trans (bind_error second).symm
  | getResizeImageInfo => exact (bind_error first).trans (bind_error second).symm

variable {p p' : DPair} {dv : DocVersion}

/-- Two pairs that are opened, for the same document, and read the same version row. -/
structure SameRow (session : Session) (dp dp' : DocPair) (p p' : DPair) (dv : DocVersion) (s : Server) :
    Prop where
  opened : openDocument session dp s.store = (.ok p, s.store)
  opened' : openDocument session dp' s.store = (.ok p', s.store)
  document : p.docid = p'.docid
  read : DocVersionDAO.read p s.store.versions = some dv
  read' : DocVersionDAO.read p' s.store.versions = some dv

namespace SameRow

/-- `GetDocContentHandler` and `GetDocMetaInfoHandler` go through the row. -/
theorem getDocContent (same : SameRow session dp dp' p p' dv s) :
    PairHandler.getDocContent.call config session dp s =
      PairHandler.getDocContent.call config session dp' s := by
  refine onStore_congr ?_
  rw [getDocContent_openDocument, getDocContent_openDocument, bind_ok same.opened, bind_ok same.opened',
    bind_ok (getDocVersion_eq same.read), bind_ok (getDocVersion_eq same.read')]

theorem getDocMetaInfo (same : SameRow session dp dp' p p' dv s) (digest : GridFSFile → Option Text) :
    (PairHandler.getDocMetaInfo digest).call config session dp s =
      (PairHandler.getDocMetaInfo digest).call config session dp' s := by
  refine onStore_congr ?_
  unfold Handlers.getDocMetaInfo
  rw [bind_ok same.opened, bind_ok same.opened', same.document,
    (readOnly_getDocMetaByDocid _ _).bind_eq, (readOnly_getDocMetaByDocid _ _).bind_eq]
  split
  · rw [bind_ok (getDocVersion_eq same.read), bind_ok (getDocVersion_eq same.read')]
  · rfl

theorem getResizeImageInfo (same : SameRow session dp dp' p p' dv s) :
    PairHandler.getResizeImageInfo.call config session dp s =
      PairHandler.getResizeImageInfo.call config session dp' s := by
  have found : onStore (getDocVersion p) s = (.ok dv, s) := within_eq (getDocVersion_eq same.read)
  have found' : onStore (getDocVersion p') s = (.ok dv, s) := within_eq (getDocVersion_eq same.read')
  change ImageHandlers.getResizeImageInfo session dp s = ImageHandlers.getResizeImageInfo session dp' s
  unfold ImageHandlers.getResizeImageInfo
  rw [bind_ok (onStore_openDocument_eq same.opened), bind_ok (onStore_openDocument_eq same.opened'),
    bind_ok found, bind_ok found']

end SameRow

/-! ## Rows of the version -/

theorem not_selects_latest {version : Int} (positive : 0 < version) :
    ¬ Selects DPair.LATEST version := by
  intro selected
  rw [selected (by decide)] at positive
  exact absurd positive (by decide)

/-- No row has the version that "latest" stands for. -/
theorem pdfItem_read_latest {config : Config} {appid docid : Int} (wf : ServerWf config s) :
    PdfItemDAO.read ⟨appid, docid, DPair.LATEST⟩ s.pdfItems = none := by
  cases read : PdfItemDAO.read ⟨appid, docid, DPair.LATEST⟩ s.pdfItems with
  | none => rfl
  | some row =>
    obtain ⟨member, -, -, selected⟩ := pdfItem_read_some read
    exact absurd selected (not_selects_latest (wf.pdfWithin.owned row member).2)

theorem readByDocPair_latest {config : Config} {appid docid : Int} (wf : ServerWf config s) :
    ImageItemDAO.readByDocPair ⟨appid, docid, DPair.LATEST⟩ s.imageItems = [] := by
  refine List.eq_nil_iff_forall_not_mem.mpr fun row listed => ?_
  obtain ⟨member, -, -, selected⟩ := mem_readByDocPair.mp listed
  exact not_selects_latest (wf.imageWithin.owned row member).2 selected

theorem length_replace {table : Table PdfItem} {row new : PdfItem} :
    (table.replace PdfItem.id row new).rows.length = table.rows.length := by
  simp [Table.replace]

/-- A row that is found stays the only one. -/
theorem length_convertedAgain {source : Option ObjectId} {row : PdfItem} {key : ObjectId} :
    (s.convertedAgain now source row key).pdfItems.rows.length = s.pdfItems.rows.length := by
  have follows : ∀ (s : Server) (row : PdfItem),
      (s.followed now source row key).pdfItems.rows.length = s.pdfItems.rows.length := by
    intro s row
    unfold Server.followed
    split
    · exact length_replace
    · split
      · exact length_replace
      · rfl
  unfold Server.convertedAgain
  split
  · rw [follows]
    exact length_replace
  · split
    · exact follows s row
    · rfl

/-- A conversion that is asked for the first time either fails or adds a row. -/
theorem convert_first_ends :
    Ends (do
      let item ← createPdfItem now dv
      convert dv.storageKey item.storageKey) s fun r s' =>
      (∃ fault, r = .error fault) ∨ s'.pdfItems.rows.length = s.pdfItems.rows.length + 1 := by
  refine ends_bind (createPdfItem_ends.mono ?_)
  rintro _ _ (⟨fault, rfl, -⟩ | ⟨-, rfl, rfl⟩)
  · exact .inl ⟨fault, rfl⟩
  · refine .inr ?_
    change (s.pdfItems.rows ++ [_]).length = _
    simp

theorem answered_ne {row : PdfItem} {key : ObjectId} :
    (s.answered config now row key).1 ≠ .UNCONVERT_SOURCE_FILE := by
  unfold Server.answered
  split
  · nofun
  · split
    · split
      · nofun
      · split <;> nofun
    · nofun

/-- `QueryResizeStatusHandler` answers null only where there is no row. -/
theorem queryResizeStatus_opened (opened : openDocument session dp s.store = (.ok p, s.store)) :
    (ImageItemDAO.readByDocPair p s.imageItems = [] → queryResizeStatus session dp s = (.ok none, s)) ∧
      (ImageItemDAO.readByDocPair p s.imageItems ≠ [] →
        Ends (queryResizeStatus session dp) s fun r _ => r ≠ .ok none) := by
  constructor
  · intro missing
    unfold queryResizeStatus getImageItemList
    rw [bind_ok (onStore_openDocument_eq opened), read_bind, missing]
    rfl
  · intro found
    unfold queryResizeStatus getImageItemList
    refine ends_bind (ends_of_eq (onStore_openDocument_eq opened) (ends_bind (ends_read ?_)))
    refine ends_ite (fun empty => absurd (List.isEmpty_iff.mp empty) found) fun _ => ends_bind ?_
    refine ends_any fun r s' => ?_
    cases r with
    | error fault => nofun
    | ok items =>
      refine ends_ite (fun _ => ends_bind (ends_any fun r s' => ?_)) fun _ => ends_pure nofun
      cases r with
      | error fault => nofun
      | ok dv =>
        refine ends_bind (ends_any fun r s' => ?_)
        cases r with
        | error fault => nofun
        | ok _ => exact ends_pure nofun

end Calls

/-! ## The handlers one by one -/

section Opened

variable {config : ServerConfig} {session : Session} {docid version : Int} {dv : DocVersion}
  {s : Server}

/-- The two pairs of an open document, and the row they read. -/
abbrev LatestRow (session : Session) (docid version : Int) (dv : DocVersion) (s : Server) : Prop :=
  SameRow session (latest docid) (numbered docid version) ⟨session.appid, docid, DPair.LATEST⟩
    ⟨session.appid, docid, version⟩ dv s

theorem convertDocument_latest_iff (wf : ServerWf config.toConfig s)
    (same : LatestRow session docid version dv s) :
    convertDocument config session now (latest docid) s =
        convertDocument config session now (numbered docid version) s ↔
      config.readonly = true ∨ canConvert dv.fileExtension = false ∨
        PdfItemDAO.read ⟨session.appid, docid, version⟩ s.pdfItems = none := by
  by_cases readonly : config.readonly = true
  · refine iff_of_true ?_ (.inl readonly)
    have mode : onStore (checkSystemIOMode config.toConfig) s = (.error .invalidFileOperation, s) := by
      refine within_eq ?_
      unfold checkSystemIOMode raiseIf
      rw [if_pos readonly]
      rfl
    exact (bind_error mode).trans (bind_error mode).symm
  · rw [convertDocument_opened readonly same.opened same.read,
      convertDocument_opened readonly same.opened' same.read', pdfItem_read_latest wf]
    by_cases plain : canConvert dv.fileExtension = false
    · rw [if_pos plain, if_pos plain]
      exact iff_of_true rfl (.inr (.inl plain))
    · rw [if_neg plain, if_neg plain]
      cases read : PdfItemDAO.read ⟨session.appid, docid, version⟩ s.pdfItems with
      | none => exact iff_of_true rfl (.inr (.inr rfl))
      | some row =>
        refine iff_of_false (fun equal => ?_) (by simp [readonly, plain])
        -- one call adds a row or fails, the other one does neither
        obtain ⟨member, -⟩ := pdfItem_read_some read
        obtain ⟨key, stored⟩ := pdf_fits_key (wf.pdfFit row member)
        dsimp only at equal
        rw [convertAgain_eq wf.pdfNumbered member (wf.pdfFit row member) stored] at equal
        rcases convert_first_ends.apply equal with ⟨fault, failed⟩ | longer
        · cases failed
        · rw [length_convertedAgain] at longer
          omega

theorem queryPdfStatus_latest_iff (wf : ServerWf config.toConfig s)
    (same : LatestRow session docid version dv s) :
    queryPdfStatus config session now (latest docid) s =
        queryPdfStatus config session now (numbered docid version) s ↔
      PdfItemDAO.read ⟨session.appid, docid, version⟩ s.pdfItems = none := by
  rw [queryPdfStatus_opened same.opened same.read, queryPdfStatus_opened same.opened' same.read',
    pdfItem_read_latest wf]
  cases read : PdfItemDAO.read ⟨session.appid, docid, version⟩ s.pdfItems with
  | none => exact iff_of_true rfl rfl
  | some row =>
    refine iff_of_false (fun equal => ?_) (by simp)
    obtain ⟨member, -⟩ := pdfItem_read_some read
    obtain ⟨key, stored⟩ := pdf_fits_key (wf.pdfFit row member)
    dsimp only at equal
    rw [itemStatus_eq wf.pdfNumbered member (wf.pdfFit row member) stored] at equal
    exact answered_ne (Except.ok.inj (Prod.mk.inj equal).1).symm

/-- What the handlers that send a PDF or its link find for "latest" and for the number. -/
theorem getPdfItem_latest (wf : ServerWf config.toConfig s) {appid : Int} :
    getPdfItem ⟨appid, docid, DPair.LATEST⟩ s =
      (.error (.pdfNotFound ⟨appid, docid, DPair.LATEST⟩), s) := by
  unfold getPdfItem getPdfItemWithoutException
  rw [read_bind, pdfItem_read_latest wf]
  rfl

/-- No call for the number names the version -1. -/
theorem getPdfItem_named {α : Type} {appid : Int} (positive : 0 < version) {next : PdfItem → Serve α}
    (others : ∀ item s, Ends (next item) s fun r _ => ∀ q, r ≠ .error (.pdfNotFound q)) :
    Ends (getPdfItem ⟨appid, docid, version⟩ >>= next) s fun r _ =>
      r ≠ .error (.pdfNotFound ⟨appid, docid, DPair.LATEST⟩) := by
  unfold getPdfItem getPdfItemWithoutException
  refine ends_bind (ends_bind (ends_read (ends_require (fun item _ => ?_) fun _ same => ?_)))
  · exact (others item s).mono fun _ _ named => named _
  · have version_eq := congrArg DPair.version (Fault.pdfNotFound.inj (Except.error.inj same))
    dsimp only at version_eq
    unfold DPair.LATEST at version_eq
    omega

theorem getPdfContent_latest_ne (wf : ServerWf config.toConfig s) (positive : 0 < version)
    (same : LatestRow session docid version dv s) :
    getPdfContent session (latest docid) s ≠ getPdfContent session (numbered docid version) s := by
  unfold getPdfContent
  rw [bind_ok (onStore_openDocument_eq same.opened), bind_ok (onStore_openDocument_eq same.opened'),
    bind_error (getPdfItem_latest wf)]
  intro equal
  refine (getPdfItem_named positive fun item s => ?_).apply equal.symm rfl
  unfold getPdfFile loadPdf
  refine ends_bind (ends_require (fun key _ => ?_) fun _ => nofun)
  refine ends_bind (ends_bind (ends_pure (ends_read ?_)))
  exact ends_require (fun _ _ => nofun) fun _ => nofun

theorem getPdfDirectURL_latest_ne (wf : ServerWf config.toConfig s) (positive : 0 < version)
    (same : LatestRow session docid version dv s) :
    getPdfDirectURL session (latest docid) s ≠ getPdfDirectURL session (numbered docid version) s := by
  unfold getPdfDirectURL
  rw [bind_ok (onStore_openDocument_eq same.opened), bind_ok (onStore_openDocument_eq same.opened'),
    bind_error (getPdfItem_latest wf)]
  intro equal
  exact (getPdfItem_named positive fun item s => ends_pure nofun).apply equal.symm rfl

theorem queryResizeStatus_latest_iff (wf : ServerWf config.toConfig s)
    (same : LatestRow session docid version dv s) :
    queryResizeStatus session (latest docid) s = queryResizeStatus session (numbered docid version) s ↔
      ImageItemDAO.readByDocPair ⟨session.appid, docid, version⟩ s.imageItems = [] := by
  rw [(queryResizeStatus_opened same.opened).1 (readByDocPair_latest wf)]
  constructor
  · intro equal
    by_contra found
    exact ((queryResizeStatus_opened same.opened').2 found).apply equal.symm rfl
  · intro missing
    rw [(queryResizeStatus_opened same.opened').1 missing]

end Opened

/-- **When "latest" is the greatest version.** In every reachable state, for a document of the
application that has versions, a handler does the same for "latest" as for the number of the greatest
version, if and only if the id is not positive, the session may not read the document, or the handler
has nothing to do with rows of that version. -/
theorem latest_iff {config : ServerConfig} {session : Session} {docid version : Int} {s : Server}
    (reachable : Serves config s)
    (document : ∃ d ∈ s.store.docs.rows, d.appid = session.appid ∧ d.docid = docid)
    (greatest : Greatest session.appid docid version s.store) (handler : PairHandler) :
    handler.call config session (latest docid) s =
        handler.call config session (numbered docid version) s ↔
      docid ≤ 0 ∨ ¬ Permitted session docid s.store ∨
        handler.Indifferent config session docid version s := by
  have wf := reachable.wf
  obtain ⟨v, member, -, -, sameVersion⟩ := greatest.1
  have version_pos : 0 < version := sameVersion ▸ (wf.store.versionsPos v member).2
  have small : version ≤ 2147483647 := sameVersion ▸ reachable.small v member
  by_cases positive : 0 < docid
  · have first : convertToPair session.appid (latest docid) = some ⟨_, _, _⟩ :=
      convertToPair_latest positive
    have second : convertToPair session.appid (numbered docid version) = some ⟨_, _, _⟩ :=
      convertToPair_decimalText positive version_pos small
    obtain ⟨opens, denies⟩ := openDocument_eq wf.store first
    obtain ⟨opens', denies'⟩ := openDocument_eq wf.store second
    by_cases permitted : Permitted session docid s.store
    · obtain ⟨dv, -, -, read', read⟩ := greatest_read wf.store positive greatest
      have same : LatestRow session docid version dv s :=
        ⟨opens permitted, opens' permitted, rfl, read, read'⟩
      have opened : ∀ {P : Prop}, (docid ≤ 0 ∨ ¬ Permitted session docid s.store ∨ P) ↔ P := by
        intro P
        simp [permitted, Int.not_le.mpr positive]
      rw [opened]
      cases handler with
      | getDocContent => exact iff_of_true same.getDocContent trivial
      | getDocMetaInfo digest => exact iff_of_true (same.getDocMetaInfo digest) trivial
      | getResizeImageInfo => exact iff_of_true same.getResizeImageInfo trivial
      | convertDocument now =>
        refine (convertDocument_latest_iff wf same).trans ?_
        unfold PairHandler.Indifferent
        simp [read']
      | queryPdfStatus now => exact queryPdfStatus_latest_iff wf same
      | getPdfContent => exact iff_of_false (getPdfContent_latest_ne wf version_pos same) id
      | getPdfDirectURL => exact iff_of_false (getPdfDirectURL_latest_ne wf version_pos same) id
      | queryResizeStatus => exact queryResizeStatus_latest_iff wf same
    · refine iff_of_true ?_ (.inr (.inl permitted))
      exact call_eq_of_refused (denies document permitted) (denies' document permitted) handler
  · have refused : ∀ text, openDocument session ⟨docid, text⟩ s.store = (.error .invalidArgument, s.store) := by
      intro text
      unfold openDocument convertToPair
      rw [if_pos (Int.not_lt.mp positive)]
      rfl
    exact iff_of_true (call_eq_of_refused (refused _) (refused _) handler) (.inl (Int.not_lt.mp positive))

/-! ## A converted document -/

/-- A document is converted under its number. -/
def convertedOnce : List Event :=
  [.document ⟨someSession, .createDoc 0 (wordFile [1])⟩,
    .convertDocument someSession 0 ⟨1, "1".toList⟩]

theorem convertedOnce_document :
    (∃ d ∈ (serverAfter convertedOnce).store.docs.rows, d.appid = someSession.appid ∧ d.docid = 1) ∧
      Greatest someSession.appid 1 1 (serverAfter convertedOnce).store := by
  unfold Greatest
  decide +kernel

/-- The content of the document is the same for both pairs. -/
theorem latest_iff_content :
    PairHandler.getDocContent.call countingServer someSession (latest 1) (serverAfter convertedOnce) =
      PairHandler.getDocContent.call countingServer someSession (numbered 1 1)
        (serverAfter convertedOnce) :=
  (latest_iff (serves_serverAfter convertedOnce) convertedOnce_document.1 convertedOnce_document.2
    .getDocContent).mpr (.inr (.inr trivial))

/-- For "latest" the conversion under way is unknown, and another one is asked for. -/
theorem latest_converts_again :
    Serves countingServer (serverAfter convertedOnce) ∧
      Greatest someSession.appid 1 1 (serverAfter convertedOnce).store ∧
      (queryPdfStatus countingServer someSession 1 (latest 1) (serverAfter convertedOnce)).1 =
        .ok .UNCONVERT_SOURCE_FILE ∧
      (queryPdfStatus countingServer someSession 1 (numbered 1 1) (serverAfter convertedOnce)).1 =
        .ok .CONVERT_ONGOING ∧
      (convertDocument countingServer someSession 1 (latest 1)
        (serverAfter convertedOnce)).2.converter.pending.length = 2 ∧
      (convertDocument countingServer someSession 1 (numbered 1 1)
        (serverAfter convertedOnce)).2.converter.pending.length = 1 := by
  refine ⟨serves_serverAfter _, ?_⟩
  unfold Greatest
  decide +kernel

end Clb
