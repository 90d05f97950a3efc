/-
# Document.Readable -- is what was created readable

Four handlers create or update a document in one request, and all of them store the content through
`saveFileContent`, which swallows an IOException. `created_readable_iff` says when the version that
such a call returned can be read back as the uploaded bytes: not if it came from an entry of an
archive, because its status is never advanced; not if the resource could not be opened, because the
version is completed without content; and not if a document id that is not positive was updated. -/
import Mathlib.Data.List.ReduceOption
import Clb.Document.Decimal
import Clb.Document.QueryExact
import Clb.Document.ReadPaths
import Clb.Document.System

set_option autoImplicit false

namespace Clb

open Clb.Lib Clb.Dao Clb.Lib.Action DocumentFacade Handlers MongoStorageService

variable {p : DPair} {dp : DocPair} {config : Config} {session : Session} {s : Store}

/-! ## Reading -/

theorem map_of_mapM_eq_some {α β : Type} {g : α → Option β} {xs : List α} {ys : List β}
    (defined : xs.mapM g = some ys) : xs.map g = ys.map some := by
  induction xs generalizing ys with
  | nil =>
    obtain rfl := Option.some.inj defined
    rfl
  | cons x xs ih =>
    rw [List.mapM_cons] at defined
    obtain ⟨y, head, defined⟩ := Option.bind_eq_some_iff.mp defined
    obtain ⟨rest, tail, same⟩ := Option.bind_eq_some_iff.mp defined
    obtain rfl := Option.some.inj same
    rw [List.map_cons, head, ih tail, List.map_cons]

theorem takeWhile_isSome_map_some {α : Type} (ys : List α) :
    ((ys.map some).takeWhile (·.isSome)).reduceOption = ys := by
  induction ys with
  | nil => rfl
  | cons y ys ih => simpa [List.reduceOption_cons_of_some] using ih

/-- The chunks of a file that are all there are sent whole. -/
theorem writeTo_of_content {f : GridFSFile} {m : Mongo} {bytes : Bytes}
    (content : m.content f = some bytes) : writeTo f m = bytes := by
  unfold Mongo.content at content
  split at content
  · cases content
  · obtain ⟨chunks, defined, rfl⟩ := Option.map_eq_some_iff.mp content
    unfold writeTo
    rw [map_of_mapM_eq_some defined, takeWhile_isSome_map_some]

/-- What a version row of a document other than 0 is found by. -/
theorem docVersion_read_eq (wf : Wf config s) {dv : DocVersion} (member : dv ∈ s.versions.rows)
    (docid : dv.docid ≠ 0) :
    DocVersionDAO.read ⟨dv.appid, dv.docid, dv.version⟩ s.versions = some dv := by
  obtain ⟨appid_pos, version_pos⟩ := wf.versionsPos dv member
  have fixed : dv.version ≠ DPair.LATEST := by
    unfold DPair.LATEST
    omega
  unfold DocVersionDAO.read
  rw [if_neg fixed]
  refine BaseDAO.findAndReturnOnly_of_unique member
    (docVersion_clause.mpr ⟨fun _ => rfl, fun _ => rfl, fun _ => rfl⟩) fun v inside chosen => ?_
  obtain ⟨sameApp, sameDoc, sameVersion⟩ := docVersion_clause.mp chosen
  refine wf.versionsUnique v inside dv member ?_
  simp only [versionKey, sameApp (Int.ne_of_gt appid_pos), sameDoc docid,
    sameVersion (Int.ne_of_gt version_pos), docid, if_false]

theorem docMeta_read_eq (wf : Wf config s) {d : DocMeta} (member : d ∈ s.docs.rows)
    (appid : d.appid ≠ 0) (docid : d.docid ≠ 0) :
    DocMetaDAO.read d.appid d.docid s.docs = some d := by
  refine BaseDAO.findAndReturnOnly_of_unique member
    (docMeta_clause.mpr ⟨fun _ => rfl, fun _ => rfl⟩) fun d' inside chosen => ?_
  obtain ⟨sameApp, sameDoc⟩ := docMeta_clause.mp chosen
  exact wf.docsUnique d' inside d member (Prod.ext (sameApp appid) (sameDoc docid))

/-- A document that the session may read. -/
def Permitted (session : Session) (docid : Int) (s : Store) : Prop :=
  ∃ d ∈ s.docs.rows, d.appid = session.appid ∧ d.docid = docid ∧
    ¬(d.isPub = 0 ∧ d.authId ≠ some session.user)

/-- `openDocument` on an existing document. -/
theorem openDocument_eq (wf : Wf config s) (converted : convertToPair session.appid dp = some p) :
    (Permitted session dp.docid s → openDocument session dp s = (.ok p, s)) ∧
      ((∃ d ∈ s.docs.rows, d.appid = session.appid ∧ d.docid = dp.docid) →
        ¬ Permitted session dp.docid s → openDocument session dp s = (.error .noAuthority, s)) := by
  obtain ⟨appid, document, positive⟩ := convertToPair_eq_some converted
  have session_pos := session.appid_pos
  have opened : ∀ d ∈ s.docs.rows, d.appid = session.appid → d.docid = dp.docid →
      openDocument session dp s =
        if d.isPub = 0 ∧ d.authId ≠ some session.user then (.error .noAuthority, s) else (.ok p, s) := by
    intro d member sameApp sameDoc
    have read := docMeta_read_eq wf member (by omega) (by omega)
    rw [sameApp, sameDoc, ← appid, ← document] at read
    unfold openDocument getDocMetaByDocid checkPermission raiseIf
    simp only [bind_assoc]
    rw [converted, require_some_bind, read_bind, read, require_some_bind]
    split <;> rfl
  constructor
  · rintro ⟨d, member, sameApp, sameDoc, allowed⟩
    rw [opened d member sameApp sameDoc, if_neg allowed]
  · rintro ⟨d, member, sameApp, sameDoc⟩ denied
    rw [opened d member sameApp sameDoc, if_pos]
    by_contra allowed
    exact denied ⟨d, member, sameApp, sameDoc, allowed⟩

/-- The document that is read for a request is open to the session. -/
def Opens (session : Session) (docid : Int) (s : Store) : Prop :=
  ∃ doc, DocMetaDAO.read session.appid docid s.docs = some doc ∧
    ¬(doc.isPub = 0 ∧ doc.authId ≠ some session.user)

theorem openDocument_ok_iff :
    (openDocument session dp s).1 = .ok p ↔
      convertToPair session.appid dp = some p ∧ Opens session dp.docid s := by
  change Ends (openDocument session dp) s fun r _ => r = .ok p ↔ _
  unfold openDocument getDocMetaByDocid checkPermission Opens
  refine ends_bind (ends_require (fun p' converted => ?_) fun missing => by simp [missing])
  obtain ⟨appid, docid, -⟩ := convertToPair_eq_some converted
  dsimp only
  rw [appid, docid]
  refine ends_bind (ends_bind (ends_read (ends_require (fun doc read => ?_) fun missing => ?_)))
  · refine ends_bind (ends_raiseIf (fun denied => ?_) fun allowed => ends_pure ?_)
    · simp [read, denied]
    · rw [converted, Option.some.injEq, Except.ok.injEq]
      exact (and_iff_left ⟨doc, read, allowed⟩).symm
  · simp [missing]

/-- A pair that is opened names a document that the session may read. -/
theorem openDocument_ok (opened : (openDocument session dp s).1 = .ok p) :
    convertToPair session.appid dp = some p ∧ Permitted session dp.docid s := by
  obtain ⟨converted, doc, read, allowed⟩ := openDocument_ok_iff.mp opened
  obtain ⟨appid, docid, positive⟩ := convertToPair_eq_some converted
  obtain ⟨member, sameApp, sameDoc⟩ := docMeta_read_some read
  have session_pos := session.appid_pos
  exact ⟨converted, doc, member, sameApp (by omega), sameDoc (by omega), allowed⟩

theorem getDocVersion_eq {dv : DocVersion} (read : DocVersionDAO.read p s.versions = some dv) :
    getDocVersion p s = (.ok dv, s) := by
  unfold getDocVersion
  rw [read_bind, read]
  rfl

theorem getDocContent_openDocument (session : Session) (dp : DocPair) :
    getDocContent session dp = openDocument session dp >>= fun p => (do
      let dv ← getDocVersion p
      raiseIf (dv.isCompletedStatus = false) .readUncompleted
      let f ← readDocContent dv
      Action.read fun s => writeTo f s.mongo) := by
  unfold getDocContent openDocument
  simp only [bind_assoc, pure_bind]

/-- `getDocContent` for a version that is read: it must be complete and its key must resolve. -/
theorem getDocContent_of_read (wf : Wf config s) {dv : DocVersion}
    (converted : convertToPair session.appid dp = some p) (permitted : Permitted session dp.docid s)
    (readVersion : DocVersionDAO.read p s.versions = some dv) :
    (getDocContent session dp s).1 =
      if dv.isCompletedStatus = false then .error .readUncompleted
      else
        match dv.storageKey.bind fun key => s.mongo.readFile key with
        | none => .error .fileContentNotFound
        | some f => .ok (writeTo f s.mongo) := by
  obtain ⟨d, member, appD, docD, allowed⟩ := permitted
  obtain ⟨appid, document, positive⟩ := convertToPair_eq_some converted
  have readDoc : DocMetaDAO.read p.appid p.docid s.docs = some d := by
    have appid_pos := session.appid_pos
    have found := docMeta_read_eq wf member (by omega) (by omega)
    rwa [appD, docD, ← appid, ← document] at found
  unfold getDocContent getDocMetaByDocid getDocVersion readDocContent checkPermission Action.raiseIf
  simp only [bind_assoc]
  rw [converted, require_some_bind, read_bind, readDoc, require_some_bind, if_neg allowed, pure_bind,
    read_bind, readVersion, require_some_bind]
  split
  · rfl
  · rw [pure_bind]
    cases dv.storageKey with
    | none => rfl
    | some key =>
      rw [require_some_bind, read_bind, Option.bind_some]
      cases s.mongo.readFile key with
      | none => rfl
      | some f => rfl

/-- The text of a version number names that version. -/
theorem convertToPair_decimalText {appid docid version : Int} (positive : 0 < docid)
    (version_pos : 0 < version) (small : version ≤ 2147483647) :
    convertToPair appid ⟨docid, decimalText version⟩ = some ⟨appid, docid, version⟩ := by
  unfold convertToPair
  rw [if_neg (Int.not_le.mpr positive), if_neg (decimalText_ne_latest version),
    parseInt_decimalText ⟨by omega, small⟩]
  rfl

theorem convertToPair_latest {appid docid : Int} (positive : 0 < docid) :
    convertToPair appid ⟨docid, "latest".toList⟩ = some ⟨appid, docid, DPair.LATEST⟩ := by
  unfold convertToPair
  rw [if_neg (Int.not_le.mpr positive)]
  exact if_pos (Eq.refl "latest".toList)

/-- The same for a version row given by its number. -/
theorem getDocContent_eq (wf : Wf config s) {dv : DocVersion} (member : dv ∈ s.versions.rows)
    (owner : dv.appid = session.appid) (positive : 0 < dv.docid) (small : dv.version ≤ 2147483647)
    (permitted : Permitted session dv.docid s) :
    (getDocContent session ⟨dv.docid, decimalText dv.version⟩ s).1 =
      if dv.isCompletedStatus = false then .error .readUncompleted
      else
        match dv.storageKey.bind fun key => s.mongo.readFile key with
        | none => .error .fileContentNotFound
        | some f => .ok (writeTo f s.mongo) := by
  have readVersion := docVersion_read_eq wf member (by omega)
  rw [owner] at readVersion
  exact getDocContent_of_read wf
    (convertToPair_decimalText positive (wf.versionsPos dv member).2 small) permitted readVersion

/-- Content is sent only of a document that the session may read. -/
theorem permitted_of_getDocContent {docid : Int} {version : Text} {bytes : Bytes}
    (got : (getDocContent session ⟨docid, version⟩ s).1 = .ok bytes) :
    0 < docid ∧ Permitted session docid s := by
  unfold getDocContent getDocMetaByDocid checkPermission Action.raiseIf at got
  simp only [bind_assoc] at got
  cases converted : convertToPair session.appid ⟨docid, version⟩ with
  | none =>
    rw [converted] at got
    cases got
  | some p =>
    obtain ⟨appid, document, positive⟩ := convertToPair_eq_some converted
    rw [converted, require_some_bind, read_bind, appid, document] at got
    cases read : DocMetaDAO.read session.appid docid s.docs with
    | none =>
      rw [read] at got
      cases got
    | some d =>
      rw [read, require_some_bind] at got
      obtain ⟨member, sameApp, sameDoc⟩ := docMeta_read_some read
      refine ⟨positive, d, member, sameApp (Int.ne_of_gt session.appid_pos),
        sameDoc (Int.ne_of_gt positive), fun denied => ?_⟩
      rw [if_pos denied] at got
      cases got

/-! ## A version with a new storage key -/

/-- A version that a handler just added, before its content is stored. -/
structure FreshVersion (config : Config) (session : Session) (dv : DocVersion) (key : ObjectId)
    (s : Store) : Prop where
  wf : Wf config s
  member : dv ∈ s.versions.rows
  owner : dv.appid = session.appid
  small : dv.version ≤ 2147483647
  stored : dv.storageKey = some key
  waiting : dv.isCompletedStatus = false
  noFile : ∀ f ∈ s.mongo.files, f.storageKey ≠ key
  noTemp : ∀ entry ∈ s.cache.tempFiles, entry.1 ≠ key

namespace FreshVersion

variable {dv : DocVersion} {key : ObjectId}

/-- Without a local copy the uploaded bytes are stored. -/
theorem savedBytes_eq (fresh : FreshVersion config session dv key s) (resource : Resource)
    (name : Text) : savedBytes resource key name s.cache = resource.bytes := by
  have absent : s.cache.tempFile key = none := by
    unfold LocalFileCache.tempFile
    rw [Option.map_eq_none_iff, List.find?_eq_none]
    intro entry member
    simpa using fresh.noTemp entry member
  have miss : s.cache.hit key = false := by
    unfold LocalFileCache.hit
    rw [absent]
    rfl
  unfold savedBytes
  rw [miss, Bool.and_false, if_neg (by decide)]

/-- What is stored under the new key afterwards: nothing if the resource could not be opened, else
the uploaded bytes. -/
theorem saved (fresh : FreshVersion config session dv key s) {resource : Resource} {name : Text}
    {filename : Text} {s' : Store}
    (saved : Saved resource name (mongoFile session dv filename key) s (.ok ()) s') :
    (resource.opens = false ∧ s'.mongo.readFile key = none) ∨
      (resource.opens = true ∧
        ∃ f, s'.mongo.readFile key = some f ∧ s'.mongo.content f = some resource.bytes) := by
  have none_before : s.mongo.files.find? (fun f => f.storageKey == key) = none := by
    rw [List.find?_eq_none]
    intro f member
    simpa using fresh.noFile f member
  cases saved with
  | skipped closed => exact .inl ⟨closed, none_before⟩
  | driven opened temp wrote =>
    rw [fresh.savedBytes_eq] at wrote
    obtain ⟨files, content⟩ := fresh.wf.mongo.content_driven
      (fresh.wf.versionKeys dv fresh.member key fresh.stored) wrote
    refine .inr ⟨opened, _, ?_, content⟩
    unfold Mongo.readFile
    rw [files, List.find?_append, none_before]
    simp [driverFile]

/-- **When a stored and completed version is readable.** -/
theorem readable_iff (fresh : FreshVersion config session dv key s) {reader : Session}
    (sameApp : reader.appid = session.appid) {resource : Resource} {after : Act Unit}
    {info : UpdateInfo} {s' : Store} (after_docs : ∀ s, (after s).2.docs = s.docs)
    (after_versions : ∀ s, (after s).2.versions = s.versions)
    (after_mongo : ∀ s, (after s).2.mongo = s.mongo)
    (after_wf : ∀ s, Wf config s → Wf config (after s).2)
    (advanced : Advanced session resource dv dv.docid after s (.ok info) s') :
    (getDocContent reader ⟨info.docid, info.version⟩ s').1 = .ok resource.bytes ↔
      resource.opens = true ∧ 0 < dv.docid ∧ Permitted reader dv.docid s := by
  have wf' := advanced.wf fresh.wf
    (fun k same => fresh.wf.versionKeys dv fresh.member k same) after_wf
  obtain ⟨rfl, name, filename, key', s₂, stored, saved, rfl⟩ := advanced.returned
  obtain rfl : key' = key := Option.some.inj (stored.symm.trans fresh.stored)
  obtain ⟨docs, versions, -⟩ := saved.tables
  have permitted_iff : Permitted reader dv.docid
      (after (s₂.complete session.appid dv.docid dv.version)).2 ↔ Permitted reader dv.docid s := by
    unfold Permitted
    rw [after_docs, ← docs]
  by_cases readable : 0 < dv.docid ∧ Permitted reader dv.docid s
  · obtain ⟨positive, permitted⟩ := readable
    have member : { dv with uploadStatus := some .complete } ∈
        (after (s₂.complete session.appid dv.docid dv.version)).2.versions.rows := by
      rw [after_versions]
      refine Table.mem_update.mpr (.inl ⟨dv, versions ▸ fresh.member, ?_, rfl⟩)
      exact decide_eq_true ⟨fun _ => fresh.owner, fun _ => rfl, fun _ => rfl⟩
    have read := getDocContent_eq wf' member (fresh.owner.trans sameApp.symm) positive fresh.small
      (permitted_iff.mpr permitted)
    rw [if_neg (by simp [DocVersion.isCompletedStatus]), fresh.stored, Option.bind_some,
      after_mongo] at read
    rcases fresh.saved saved with ⟨closed, absent⟩ | ⟨opened, f, found, content⟩
    · have absent : (s₂.complete session.appid dv.docid dv.version).mongo.readFile key' = none :=
        absent
      rw [absent] at read
      refine iff_of_false (fun got => ?_) (by simp [closed])
      rw [read] at got
      cases got
    · have found : (s₂.complete session.appid dv.docid dv.version).mongo.readFile key' = some f :=
        found
      rw [found] at read
      exact iff_of_true (read.trans (congrArg Except.ok (writeTo_of_content content)))
        ⟨opened, positive, permitted⟩
  · refine iff_of_false (fun got => readable ?_) fun all => readable all.2
    obtain ⟨positive, permitted⟩ := permitted_of_getDocContent got
    exact ⟨positive, permitted_iff.mp permitted⟩

end FreshVersion

/-- The next storage key has no local copy either. -/
theorem Wf.newKey_noTemp (wf : Wf config s) : ∀ entry ∈ s.cache.tempFiles, entry.1 ≠ s.newKey := by
  rintro entry member same
  have below := wf.tempIssued entry member
  rw [same] at below
  exact Nat.lt_irrefl _ below

/-- The version of a new document: only its creator may read it, unless it is public. -/
theorem Waiting.fresh (wf : Wf config s) {isPub : Int} {resource : Resource} {dv : DocVersion}
    {s' : Store} (waiting : Waiting config session isPub resource s (.ok dv) s') :
    FreshVersion config session dv s.newKey s' ∧ 0 < dv.docid ∧
      ∀ reader : Session, reader.appid = session.appid →
        (Permitted reader dv.docid s' ↔ ¬(isPub = 0 ∧ session.user ≠ reader.user)) := by
  have wf' := waiting.wf wf
  cases waiting with
  | waiting name noDoc named =>
    refine ⟨?_, config.nextID_pos _ _, fun reader sameApp => ?_⟩
    · exact
        { wf := wf'
          member := List.mem_append_right _ (List.mem_singleton_self _)
          owner := rfl
          small := by
            change (1 : Int) ≤ 2147483647
            decide
          stored := rfl
          waiting := rfl
          noFile := wf.newKey_unused.2
          noTemp := wf.newKey_noTemp }
    · constructor
      · rintro ⟨d, member, appD, docD, allowed⟩ denied
        rcases List.mem_append.mp member with old | new
        · exact noDoc d old (appD.trans sameApp) docD
        · obtain rfl := List.mem_singleton.mp new
          exact allowed ⟨denied.1, fun same => denied.2 (Option.some.inj same)⟩
      · intro allowed
        refine ⟨_, List.mem_append_right _ (List.mem_singleton_self _), sameApp.symm, rfl, ?_⟩
        exact fun denied => allowed ⟨denied.1, fun same => denied.2 (congrArg some same)⟩

/-- The next version of a document: who may read the document does not change. -/
theorem Versioned.fresh (wf : Wf config s) {docid size : Int} {filename : Option Text}
    {dv : DocVersion} {s' : Store}
    (doc : docid ≠ 0 → ∃ d ∈ s.docs.rows, d.appid = session.appid ∧ d.docid = docid)
    (versioned : Versioned session docid (DocVersionDAO.nextVersion session.appid docid s.versions)
      filename size s (.ok dv) s') :
    FreshVersion config session dv s.newKey s' ∧ dv.docid = docid ∧
      ∀ reader : Session, Permitted reader docid s' ↔ Permitted reader docid s := by
  have wf' := versioned.wf wf doc
  cases versioned with
  | created name named small =>
    refine ⟨?_, rfl, fun reader => ?_⟩
    · exact
        { wf := wf'
          member := List.mem_append_right _ (List.mem_singleton_self _)
          owner := rfl
          small
          stored := rfl
          waiting := rfl
          noFile := wf.newKey_unused.2
          noTemp := wf.newKey_noTemp }
    · unfold Permitted
      simp only [Table.rows_update, List.mem_map, exists_exists_and_eq_and]
      refine exists_congr fun d => and_congr_right fun _ => ?_
      split <;> rfl

/-! ## The ways to create or update -/

inductive Path where
  | createDoc (isPub : Int) (resource : Resource)
  | createDocForJson (isPub : Int) (resource : Resource)
  | entry (isPub : Int) (name : Text) (resource : Resource)
  | updateDoc (docid : Int) (resource : Resource)

namespace Path

def run (config : Config) (session : Session) : Path → Act UpdateInfo
  | .createDoc isPub resource => Handlers.createDoc config session isPub resource
  | .createDocForJson isPub resource => Handlers.createDocForJson config session 0 isPub resource
  | .entry isPub name resource => onNewEntry config session isPub name resource
  | .updateDoc docid resource => Handlers.updateDoc config session docid resource

def resource : Path → Resource
  | .createDoc _ resource | .createDocForJson _ resource | .entry _ _ resource
  | .updateDoc _ resource => resource

/-- The content can be opened, the document has a positive id and the reader may read it; an entry of
an archive has no such condition. -/
def Keeps (session reader : Session) (s : Store) : Path → Prop
  | .createDoc isPub resource | .createDocForJson isPub resource =>
    resource.opens = true ∧ ¬(isPub = 0 ∧ session.user ≠ reader.user)
  | .entry _ _ _ => False
  | .updateDoc docid resource => resource.opens = true ∧ 0 < docid ∧ Permitted reader docid s

end Path

variable {reader : Session}

theorem Created.readable_iff (wf : Wf config s) (sameApp : reader.appid = session.appid) {isPub : Int}
    {resource : Resource} {after : DocVersion → Act Unit} {info : UpdateInfo} {s' : Store}
    (after_docs : ∀ dv s, (after dv s).2.docs = s.docs)
    (after_versions : ∀ dv s, (after dv s).2.versions = s.versions)
    (after_mongo : ∀ dv s, (after dv s).2.mongo = s.mongo)
    (after_wf : ∀ dv s, Wf config s → Wf config (after dv s).2)
    (created : Created config session isPub resource after s (.ok info) s') :
    (getDocContent reader ⟨info.docid, info.version⟩ s').1 = .ok resource.bytes ↔
      resource.opens = true ∧ ¬(isPub = 0 ∧ session.user ≠ reader.user) := by
  cases created with
  | advanced waiting advanced =>
    obtain ⟨fresh, positive, permitted_iff⟩ := waiting.fresh wf
    refine (fresh.readable_iff sameApp (after_docs _) (after_versions _) (after_mongo _)
      (after_wf _) advanced).trans (and_congr_right' ?_)
    rw [permitted_iff reader sameApp]
    exact and_iff_right positive

theorem Updated.readable_iff (wf : Wf config s) (sameApp : reader.appid = session.appid)
    {docid : Int} {resource : Resource} {info : UpdateInfo} {s' : Store}
    (updated : Updated session docid resource s (.ok info) s') :
    (getDocContent reader ⟨info.docid, info.version⟩ s').1 = .ok resource.bytes ↔
      resource.opens = true ∧ 0 < docid ∧ Permitted reader docid s := by
  cases updated with
  | advanced read permitted versioned advanced =>
    obtain ⟨fresh, rfl, permitted_iff⟩ := versioned.fresh wf (docMeta_read_doc read)
    rw [← permitted_iff reader]
    exact fresh.readable_iff sameApp (fun _ => rfl) (fun _ => rfl) (fun _ => rfl)
      (fun _ wf' => wf') advanced

/-- The version of an entry still waits, so reading it is refused. -/
theorem Entered.not_readable (wf : Wf config s) (sameApp : reader.appid = session.appid)
    {isPub : Int} {name : Text} {resource : Resource} {info : UpdateInfo} {s' : Store}
    (entered : Entered config session isPub name resource s (.ok info) s') (bytes : Bytes) :
    (getDocContent reader ⟨info.docid, info.version⟩ s').1 ≠ .ok bytes := by
  intro got
  have wf' := entered.wf wf
  generalize same : (Except.ok info : Except Fault UpdateInfo) = r at entered
  cases entered with
  | refused fault => cases same
  | unversioned fault => cases same
  | @saved r dv s₁ s' noDoc versioned saved =>
    obtain ⟨fresh, -⟩ := versioned.fresh (wf.withNewDoc isPub noDoc).wf
      fun _ => (wf.withNewDoc isPub noDoc).doc
    cases r with
    | error fault => cases same
    | ok =>
      obtain rfl := Except.ok.inj same
      have versions : s'.versions = s₁.versions := by
        rcases saved with ⟨-, rfl⟩ | ⟨title, key, -, -, saved⟩
        · rfl
        · exact saved.tables.2.1
      obtain ⟨positive, permitted⟩ := permitted_of_getDocContent got
      rw [getDocContent_eq wf' (versions ▸ fresh.member) (fresh.owner.trans sameApp.symm) positive
        fresh.small permitted, if_pos fresh.waiting] at got
      cases got

/-- **Which created versions are readable.** In every reachable state, if a call that creates or
updates a document returns, the version it returned reads as the uploaded bytes, for a reader of the
same application, if and only if the call advanced its status, its resource could be opened, the
document has a positive id and the reader may read the document. -/
theorem created_readable_iff (reachable : Reachable config s) (path : Path)
    (sameApp : reader.appid = session.appid) {info : UpdateInfo} {s' : Store}
    (returned : path.run config session s = (.ok info, s')) :
    (getDocContent reader ⟨info.docid, info.version⟩ s').1 = .ok path.resource.bytes ↔
      path.Keeps session reader s := by
  have wf := reachable.wf
  cases path with
  | createDoc isPub resource =>
    exact ((createDoc_ends wf).apply returned).readable_iff wf sameApp (fun _ _ => rfl)
      (fun _ _ => rfl) (fun _ _ => rfl) fun _ _ wf' => wf'
  | createDocForJson isPub resource =>
    have ended := (createDocForJson_ends wf).apply returned
    cases ended with
    | created zero created =>
      exact @Created.readable_iff _ _ _ _ wf sameApp _ _ countKey _ _ (fun _ _ => rfl)
        (fun _ _ => rfl) (fun _ _ => rfl)
        (fun dv s wf' => countKey_keeps dv s fun _ => wf'.editRefs _ _) created
    | advanced nonzero => exact absurd rfl nonzero
  | entry isPub name resource =>
    exact iff_of_false (((onNewEntry_ends wf).apply returned).not_readable wf sameApp _) id
  | updateDoc docid resource =>
    exact ((updateDoc_ends wf).apply returned).readable_iff wf sameApp

/-- A text file of three bytes. -/
def threeBytesFile : Resource :=
  { filename := some "a.txt".toList, length := 3, stream := { reads := [[1, 2], [3]] } }

/-- A created document and one update of it. -/
theorem created_readable_iff_updated :
    (getDocContent someSession ⟨1, "2".toList⟩ (storeAfter
      [.createDoc 0 { threeBytesFile with stream := { reads := [] } },
        .updateDoc 1 threeBytesFile])).1 = .ok [1, 2, 3] := by
  have returned : (Path.updateDoc 1 threeBytesFile).run countingConfig someSession
      (storeAfter [.createDoc 0 { threeBytesFile with stream := { reads := [] } }]) =
        (.ok ⟨1, "2".toList⟩, _) := Prod.ext (by decide +kernel) rfl
  refine (created_readable_iff (reachable_storeAfter _) _ rfl returned).mpr ⟨rfl, by decide, ?_⟩
  unfold Permitted
  decide +kernel

/-- The creator cannot read an entry of an archive, the content of a stream that could not be opened,
nor the version that an update without a document id added. -/
theorem created_not_readable :
    Reachable countingConfig (storeAfter [.createDoc 0 threeBytesFile]) ∧
      ∀ path ∈ [Path.entry 0 "b".toList threeBytesFile,
          Path.createDoc 0 { threeBytesFile with opens := false }, Path.updateDoc 0 threeBytesFile],
        ∃ info s', path.run countingConfig someSession (storeAfter [.createDoc 0 threeBytesFile]) =
            (.ok info, s') ∧
          (getDocContent someSession ⟨info.docid, info.version⟩ s').1 ≠ .ok path.resource.bytes := by
  refine ⟨reachable_storeAfter _, ?_⟩
  intro path member
  simp only [List.mem_cons, List.not_mem_nil, or_false] at member
  rcases member with rfl | rfl | rfl
  · exact ⟨⟨2, "1".toList⟩, _, Prod.ext (by decide +kernel) rfl, by decide +kernel⟩
  · exact ⟨⟨2, "1".toList⟩, _, Prod.ext (by decide +kernel) rfl, by decide +kernel⟩
  · exact ⟨⟨0, "1".toList⟩, _, Prod.ext (by decide +kernel) rfl, by decide +kernel⟩

end Clb
