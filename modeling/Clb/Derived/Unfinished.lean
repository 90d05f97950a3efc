/-
# Derived.Unfinished -- is content handed out before it is complete

Four paths lead to the content of a version: its bytes, an archive of several versions, a direct link,
and the original of an image. Only the first one looks at the status of the row. `safe_iff` says for
each path when it sends neither bytes nor a link under the storage key of a row that it addresses and
that is not complete. `unfinished_sent` gets a link to an upload that has only been prepared, and the
content of an entry of an archive, whose status is never advanced, on the other three paths. -/
import Clb.Derived.System
import Clb.Document.Readable

set_option autoImplicit false

namespace Clb

open Clb.Lib Clb.Dao Clb.Lib.Action DocumentFacade Handlers ImageFacade ImageHandlers

variable {q : ImageQuery} {f : GridFSFile}

/-! ## The original of an image -/

/-- The version text of a query, with the latest version of the document filled in. -/
def ImageQuery.versionText (q : ImageQuery) (doc : DocMeta) : Text :=
  if q.version = "latest".toList then decimalText doc.lastVersion else q.version

/-- The version that `GetImageContentHandler` looks for. -/
def ImageQuery.pair (session : Session) (q : ImageQuery) (t : Store) : Option DPair := do
  let doc ← DocMetaDAO.read session.appid q.docid t.docs
  let version ← parseInt (q.versionText doc)
  return ⟨session.appid, q.docid, version⟩

/-- The document that the query reads is open to the session. -/
def ImageQuery.Open (session : Session) (q : ImageQuery) (t : Store) : Prop :=
  ∃ doc, DocMetaDAO.read session.appid q.docid t.docs = some doc ∧
    ¬(doc.isPub = 0 ∧ doc.authId ≠ some session.user)

/-- The entry of fs.files that names the version in its metadata. -/
def originalFile (p : DPair) (t : Store) : Option GridFSFile :=
  t.mongo.files.find? fun f => f.docid == p.docid && f.vid == p.version && f.appid == p.appid

/-- There is no copy of the type asked for, and the query accepts the original. -/
def ImageQuery.GivesOriginal (q : ImageQuery) (p : DPair) (s : Server) : Prop :=
  q.needOrignal = true ∧
    match (ImageItemDAO.readByDocPair p s.imageItems).find? fun item => item.resizeType == q.resizeType with
    | some item => ∃ key, item.storageKey = some key ∧ ∀ f ∈ s.images, f.storageKey ≠ key
    | none =>
      match q.resizeParam with
      | none => True
      | some rzp => Resizes p rzp s

/-! ## The paths -/

inductive ReadPath where
  | getDocContent (dp : DocPair)
  | getMultiDocsContent (dps : List DocPair)
  | getDirectURL (dp : DocPair)
  | getImageContent (q : ImageQuery)

/-- The versions whose files `readDocuments` writes into the archive: all of them up to the first
without a file or a file name, or with a stream that breaks. -/
def packed (m : Mongo) : List DocVersion → List DocVersion
  | [] => []
  | dv :: rest =>
    match documentFile dv m with
    | none => []
    | some f =>
      if f.filename.isNone then []
      else if (f.getInputStream m).fails then [dv]
      else dv :: packed m rest

namespace ReadPath

variable (session : Session) (s : Server)

/-- The version rows that a path addresses. -/
def Addresses (v : DocVersion) : ReadPath → Prop
  | .getDocContent dp | .getDirectURL dp => ∃ p, convertToPair session.appid dp = some p ∧
      DocVersionDAO.read p s.store.versions = some v
  | .getMultiDocsContent dps => ∃ dvlist, (multiDocVersions session dps s.store).1 = .ok dvlist ∧
      v ∈ dvlist
  | .getImageContent q => v ∈ s.store.versions.rows ∧ q.pair session s.store = some v.pair

/-- The path returns the bytes stored under a key, or a link to them. -/
def Sends (k : ObjectId) : ReadPath → Prop
  | .getDocContent dp => ∃ f, s.store.mongo.readFile k = some f ∧
      (Handlers.getDocContent session dp s.store).1 = .ok (writeTo f s.store.mongo)
  | .getMultiDocsContent dps => ∃ answer, (Handlers.getMultiDocsContent session dps s.store).1 = .ok answer ∧
      ∃ entry ∈ answer.entries, entry.file.storageKey = k
  | .getDirectURL dp => ∃ url, (Handlers.getDirectURL session dp s.store).1 = .ok (some url) ∧
      url.storageKey = k
  | .getImageContent q => ∃ f, (ImageHandlers.getImageContent session q s).1 = .ok (.original f) ∧
      f.storageKey = k

/-- Nothing is sent under the key of a row that is addressed and not complete. -/
def Safe (path : ReadPath) : Prop :=
  ∀ v, path.Addresses session s v → v.isCompletedStatus = false → ∀ k, v.storageKey = some k →
    ¬ path.Sends session s k

/-- What the safety of a path comes to. -/
def Guarded : ReadPath → Prop
  | .getDocContent _ => True
  | .getDirectURL dp => ∀ p v, convertToPair session.appid dp = some p →
      Permitted session dp.docid s.store → DocVersionDAO.read p s.store.versions = some v →
      v.isCompletedStatus = false → v.storageKey = none
  | .getMultiDocsContent dps => ∀ dvlist, (multiDocVersions session dps s.store).1 = .ok dvlist →
      ∀ v ∈ dvlist, v.isCompletedStatus = false → ∀ w ∈ packed s.store.mongo dvlist,
        v.storageKey ≠ w.storageKey
  | .getImageContent q => ∀ v ∈ s.store.versions.rows, q.pair session s.store = some v.pair →
      v.isCompletedStatus = false → q.Open session s.store → q.GivesOriginal v.pair s →
      ∀ f, originalFile v.pair s.store = some f → v.storageKey ≠ some f.storageKey

end ReadPath

/-! ## What each path sends -/

section Paths

variable {config : ServerConfig} {session : Session} {s : Server}

theorem getDocContent_sends {dp : DocPair} {bytes : Bytes}
    (sent : (getDocContent session dp s.store).1 = .ok bytes) :
    ∃ p v, convertToPair session.appid dp = some p ∧ DocVersionDAO.read p s.store.versions = some v ∧
      v.isCompletedStatus = true := by
  revert sent
  change Ends (getDocContent session dp) s.store fun r _ => r = .ok bytes → _
  rw [getDocContent_openDocument]
  refine ends_bind ((readOnly_openDocument _ _).ends ?_)
  split
  · rename_i p opened
    refine ends_bind (ends_bind (ends_read (ends_require (fun v read => ?_) fun _ => nofun)))
    refine ends_bind (ends_raiseIf (fun _ => nofun) fun complete => ends_any fun _ _ _ => ?_)
    exact ⟨p, v, (openDocument_ok opened).1, read, by simpa using complete⟩
  · nofun

theorem getDirectURL_sends_iff {dp : DocPair} {url : DirectUrl} (wf : ServerWf config.toConfig s) :
    (getDirectURL session dp s.store).1 = .ok (some url) ↔
      ∃ p v, convertToPair session.appid dp = some p ∧ Permitted session dp.docid s.store ∧
        DocVersionDAO.read p s.store.versions = some v ∧
        URLBuilder.getDocURL v.storageKey v.fileExtension = some url := by
  constructor
  · intro sent
    revert sent
    change Ends (getDirectURL session dp) s.store fun r _ => r = .ok (some url) → _
    refine ends_bind ((readOnly_openDocument _ _).ends ?_)
    split
    · rename_i p opened
      obtain ⟨converted, permitted⟩ := openDocument_ok opened
      refine ends_bind (ends_bind (ends_read (ends_require (fun v read => ?_) fun _ => nofun)))
      exact ends_pure fun same => ⟨p, v, converted, permitted, read, Except.ok.inj same⟩
    · nofun
  · rintro ⟨p, v, converted, permitted, read, built⟩
    unfold getDirectURL
    rw [bind_ok ((openDocument_eq wf.store converted).1 permitted), bind_ok (getDocVersion_eq read), built]
    rfl

/-- The keys in the archive are those of the versions that were packed. -/
theorem readDocuments_keys (m : Mongo) (dvs : List DocVersion) :
    ∀ (i : Nat) (dupMap : List Text),
      (readDocuments m dvs i dupMap).entries.map (fun entry => some entry.file.storageKey) =
        (packed m dvs).map DocVersion.storageKey := by
  induction dvs with
  | nil => exact fun _ _ => rfl
  | cons dv rest ih =>
    intro i dupMap
    unfold readDocuments packed
    cases found : documentFile dv m with
    | none => rfl
    | some f =>
      have own : some f.storageKey = dv.storageKey := by
        obtain ⟨key, stored, read⟩ := Option.bind_eq_some_iff.mp found
        rw [stored, (Mongo.readFile_eq_some read).2]
      cases named : f.filename with
      | none => simp [named]
      | some filename =>
        cases fails : (f.getInputStream m).fails with
        | true => simp [named, fails, own]
        | false => simp [named, fails, own, ih]

theorem getMultiDocsContent_sends_iff {dps : List DocPair} {k : ObjectId} :
    (∃ answer, (getMultiDocsContent session dps s.store).1 = .ok answer ∧
      ∃ entry ∈ answer.entries, entry.file.storageKey = k) ↔
    ∃ dvlist, (multiDocVersions session dps s.store).1 = .ok dvlist ∧
      ∃ w ∈ packed s.store.mongo dvlist, w.storageKey = some k := by
  rw [getMultiDocsContent_eq]
  cases listed : (multiDocVersions session dps s.store).1 with
  | error fault => simp [Except.map]
  | ok dvlist =>
    have keys := readDocuments_keys s.store.mongo dvlist 1 []
    have sent : (∃ entry ∈ (readDocuments s.store.mongo dvlist 1 []).entries,
        entry.file.storageKey = k) ↔ ∃ w ∈ packed s.store.mongo dvlist, w.storageKey = some k := by
      have member : some k ∈ (readDocuments s.store.mongo dvlist 1 []).entries.map
          (fun entry => some entry.file.storageKey) ↔
          some k ∈ (packed s.store.mongo dvlist).map DocVersion.storageKey := by
        rw [keys]
      simpa using member
    simpa [Except.map] using sent

theorem originalIfNeeded_eq_ok_iff {p : DPair} :
    (originalIfNeeded q p s).1 = .ok (.original f) ↔
      q.needOrignal = true ∧ originalFile p s.store = some f := by
  unfold originalIfNeeded originalContent originalFile
  split
  · rename_i needed
    rw [read_bind]
    cases s.store.mongo.files.find? fun f =>
        f.docid == p.docid && f.vid == p.version && f.appid == p.appid with
    | none =>
      rw [require_none_bind]
      simp
    | some found =>
      rw [require_some_bind]
      simp [needed, pure]
  · rename_i needed
    simp [raise, needed]

/-- What `getImageContent` does with the version that it has found. -/
def imageFor (q : ImageQuery) (p : DPair) : Serve ImageContent := do
  let items ← getImageItemList p
  match items.find? fun item => item.resizeType == q.resizeType with
  | some item => do
      let file ← loadImage item.storageKey
      match file with
      | some file => return .resized file
      | none => originalIfNeeded q p
  | none => do
      match q.resizeParam with
      | none => originalIfNeeded q p
      | some rzp => do
          let _ ← resizeVersion p rzp
          originalIfNeeded q p

theorem getImageContent_eq (q : ImageQuery) :
    ImageHandlers.getImageContent session q = (do
      let doc ← onStore (getDocMetaByDocid session.appid q.docid)
      onStore (checkPermission session doc)
      let version ← require .illegalArgument (parseInt (q.versionText doc))
      imageFor q ⟨session.appid, q.docid, version⟩) := by
  unfold ImageHandlers.getImageContent imageFor resizeVersion
  simp only [bind_assoc]
  rfl

theorem imageFor_original_iff {p : DPair} (wf : ServerWf config.toConfig s) :
    (imageFor q p s).1 = .ok (.original f) ↔
      q.GivesOriginal p s ∧ originalFile p s.store = some f := by
  unfold imageFor ImageQuery.GivesOriginal getImageItemList
  rw [read_bind]
  cases (ImageItemDAO.readByDocPair p s.imageItems).find? fun item =>
      item.resizeType == q.resizeType with
  | some item =>
    dsimp only
    unfold loadImage
    cases item.storageKey with
    | none =>
      rw [bind_assoc, require_none_bind]
      simp
    | some key =>
      rw [bind_assoc, require_some_bind, read_bind]
      cases loaded : s.images.find? fun file => file.storageKey == key with
      | some file =>
        have listed := List.mem_of_find?_eq_some loaded
        have same := List.find?_some loaded
        simp only [beq_iff_eq] at same
        simp only [pure, reduceCtorEq, Except.ok.injEq, false_iff]
        rintro ⟨⟨-, key', sameKey, missing⟩, -⟩
        exact missing file listed (same.trans (Option.some.inj sameKey))
      | none =>
        simp only [List.find?_eq_none, beq_iff_eq] at loaded
        rw [originalIfNeeded_eq_ok_iff]
        refine and_congr_left fun _ => (and_iff_left ?_).symm
        exact ⟨key, rfl, loaded⟩
  | none =>
    dsimp only
    cases q.resizeParam with
    | none => simp [originalIfNeeded_eq_ok_iff]
    | some rzp =>
      dsimp only
      rw [← resizeVersion_returns_iff]
      have evolves := @resizeVersion_ends config.toConfig s p rzp wf
      rcases resized : resizeVersion p rzp s with ⟨fault | rsi, s'⟩
      · rw [bind_error resized]
        simp
      · have files := (evolves.apply resized).store.files
        rw [bind_ok resized, originalIfNeeded_eq_ok_iff]
        unfold originalFile
        rw [files]
        simp

/-- The original is sent to whoever may open the document, whatever the row says. -/
theorem getImageContent_original_iff (wf : ServerWf config.toConfig s) :
    (ImageHandlers.getImageContent session q s).1 = .ok (.original f) ↔
      ∃ p, q.pair session s.store = some p ∧ q.Open session s.store ∧ q.GivesOriginal p s ∧
        originalFile p s.store = some f := by
  rw [getImageContent_eq]
  unfold ImageQuery.pair ImageQuery.Open
  cases read : DocMetaDAO.read session.appid q.docid s.store.docs with
  | none =>
    have missing : onStore (getDocMetaByDocid session.appid q.docid) s =
        (.error (.metaNotFound session.appid q.docid), s) :=
      within_eq (by unfold getDocMetaByDocid; rw [read_bind, read]; rfl)
    rw [bind_error missing]
    simp
  | some doc =>
    have found : onStore (getDocMetaByDocid session.appid q.docid) s = (.ok doc, s) :=
      within_eq (by unfold getDocMetaByDocid; rw [read_bind, read]; rfl)
    rw [bind_ok found]
    by_cases denied : doc.isPub = 0 ∧ doc.authId ≠ some session.user
    · have refused : onStore (checkPermission session doc) s = (.error .noAuthority, s) :=
        within_eq (by unfold checkPermission raiseIf; rw [if_pos denied]; rfl)
      rw [bind_error refused]
      simp [denied]
    · have passed : onStore (checkPermission session doc) s = (.ok (), s) :=
        within_eq (by unfold checkPermission raiseIf; rw [if_neg denied]; rfl)
      rw [bind_ok passed]
      cases parsed : parseInt (q.versionText doc) with
      | none =>
        rw [require_none_bind]
        simp [parsed]
      | some version =>
        rw [require_some_bind, imageFor_original_iff wf]
        simp only [Option.bind_eq_bind, Option.bind_some, parsed, Option.pure_def, Option.some.injEq,
          exists_eq_left', denied, not_false_eq_true, true_and]

end Paths

/-! ## When a path is safe -/

section Safety

variable {config : ServerConfig} {session : Session} {s : Server}

theorem safe_getDocContent (dp : DocPair) : (ReadPath.getDocContent dp).Safe session s := by
  rintro v ⟨p, converted, read⟩ incomplete k - ⟨f, -, sent⟩
  obtain ⟨p', v', converted', read', complete⟩ := getDocContent_sends sent
  obtain rfl : p = p' := Option.some.inj (converted.symm.trans converted')
  obtain rfl : v = v' := Option.some.inj (read.symm.trans read')
  exact Bool.false_ne_true (incomplete.symm.trans complete)

theorem safe_getDirectURL_iff (wf : ServerWf config.toConfig s) (dp : DocPair) :
    (ReadPath.getDirectURL dp).Safe session s ↔ (ReadPath.getDirectURL dp).Guarded session s := by
  constructor
  · intro safe p v converted permitted read incomplete
    by_contra given
    obtain ⟨k, stored⟩ := Option.ne_none_iff_exists'.mp given
    refine safe v ⟨p, converted, read⟩ incomplete k stored ⟨⟨.document, k, v.fileExtension⟩, ?_, rfl⟩
    refine (getDirectURL_sends_iff wf).mpr ⟨p, v, converted, permitted, read, ?_⟩
    rw [stored]
    rfl
  · rintro guarded v ⟨p, converted, read⟩ incomplete k stored ⟨url, sent, -⟩
    obtain ⟨p', v', converted', permitted, -⟩ := (getDirectURL_sends_iff wf).mp sent
    have missing := guarded p v converted permitted read incomplete
    exact Option.some_ne_none k (stored.symm.trans missing)

theorem safe_getMultiDocsContent_iff (dps : List DocPair) :
    (ReadPath.getMultiDocsContent dps).Safe session s ↔
      (ReadPath.getMultiDocsContent dps).Guarded session s := by
  constructor
  · intro safe dvlist listed v member incomplete w inside sameKey
    -- a version that is packed has a file, and so a storage key
    have keyed : w.storageKey ∈ (packed s.store.mongo dvlist).map DocVersion.storageKey :=
      List.mem_map_of_mem inside
    rw [← readDocuments_keys _ _ 1 []] at keyed
    obtain ⟨entry, -, stored⟩ := List.mem_map.mp keyed
    refine safe v ⟨dvlist, listed, member⟩ incomplete _ (sameKey.trans stored.symm) ?_
    exact getMultiDocsContent_sends_iff.mpr ⟨dvlist, listed, w, inside, stored.symm⟩
  · rintro guarded v ⟨dvlist, listed, member⟩ incomplete k stored sent
    obtain ⟨dvlist', listed', w, inside, key⟩ := getMultiDocsContent_sends_iff.mp sent
    obtain rfl : dvlist = dvlist' := Except.ok.inj (listed.symm.trans listed')
    exact guarded dvlist listed v member incomplete w inside (stored.trans key.symm)

theorem safe_getImageContent_iff (wf : ServerWf config.toConfig s) (q : ImageQuery) :
    (ReadPath.getImageContent q).Safe session s ↔ (ReadPath.getImageContent q).Guarded session s := by
  constructor
  · intro safe v member addressed incomplete permitted gives f found stored
    refine safe v ⟨member, addressed⟩ incomplete _ stored ⟨f, ?_, rfl⟩
    exact (getImageContent_original_iff wf).mpr ⟨v.pair, addressed, permitted, gives, found⟩
  · rintro guarded v ⟨member, addressed⟩ incomplete k stored ⟨f, sent, rfl⟩
    obtain ⟨p, addressed', permitted, gives, found⟩ := (getImageContent_original_iff wf).mp sent
    obtain rfl : v.pair = p := Option.some.inj (addressed.symm.trans addressed')
    exact guarded v member addressed incomplete permitted gives f found stored

/-- **Unfinished content.** In every reachable state a path hands out nothing under the key of a row
that is addressed and not complete, exactly if it is `getDocContent`; or a link, and the row has no
key; or an archive that holds no file of such a row; or an original that is not the file of such a
row. -/
theorem safe_iff (run : Serves config s) (session : Session) (path : ReadPath) :
    path.Safe session s ↔ path.Guarded session s := by
  have wf := run.wf
  cases path with
  | getDocContent dp => exact iff_of_true (safe_getDocContent dp) trivial
  | getMultiDocsContent dps => exact safe_getMultiDocsContent_iff dps
  | getDirectURL dp => exact safe_getDirectURL_iff wf dp
  | getImageContent q => exact safe_getImageContent_iff wf q

end Safety

/-! ## Two documents that are not complete -/

/-- An upload of two bytes is prepared, and nothing is sent. -/
def preparedOnly : List Event :=
  [.document ⟨someSession, .prepareUpload ⟨some "a".toList, some "m".toList, 2, 1⟩⟩]

/-- An archive with one image is unpacked. -/
def unpacked : List Event :=
  [.document ⟨someSession, .createMultiDocs 0 [("a.jpg".toList, wordFile [1])]⟩]

/-- The row of the first version of the first document, which waits for its content. -/
def waitingRow (size : Int) : DocVersion where
  id := 1
  docid := 1
  appid := 1
  version := 1
  filename := some "a".toList
  fileExtension := some []
  size := size
  storageKey := some ⟨0⟩
  uploadStatus := some .waiting

def firstPair : DocPair := ⟨1, "1".toList⟩

def firstImage : ImageQuery := ⟨1, "1".toList, none, true, none⟩

/-- The archive entry is sent as a link, in an archive and as an original, and the prepared upload as
a link. -/
theorem unfinished_sent :
    (Serves countingServer (serverAfter preparedOnly) ∧
      ¬ (ReadPath.getDirectURL firstPair).Safe someSession (serverAfter preparedOnly)) ∧
    Serves countingServer (serverAfter unpacked) ∧
      ¬ (ReadPath.getDirectURL firstPair).Safe someSession (serverAfter unpacked) ∧
      ¬ (ReadPath.getMultiDocsContent [firstPair]).Safe someSession (serverAfter unpacked) ∧
      ¬ (ReadPath.getImageContent firstImage).Safe someSession (serverAfter unpacked) := by
  refine ⟨⟨serves_serverAfter _, fun safe => ?_⟩, serves_serverAfter _, fun safe => ?_, fun safe => ?_,
    fun safe => ?_⟩
  · refine safe (waitingRow 2) ⟨⟨1, 1, 1⟩, ?_⟩ rfl ⟨0⟩ rfl ⟨⟨.document, ⟨0⟩, some []⟩, ?_, rfl⟩
    · decide +kernel
    · decide +kernel
  · refine safe (waitingRow 1) ⟨⟨1, 1, 1⟩, ?_⟩ rfl ⟨0⟩ rfl ⟨⟨.document, ⟨0⟩, some []⟩, ?_, rfl⟩
    · decide +kernel
    · decide +kernel
  · let file : GridFSFile := ⟨⟨1⟩, some "a.jpg".toList, ⟨0⟩, 1, 1, 1, 1, 261120⟩
    refine safe (waitingRow 1) ⟨[waitingRow 1], ?_, List.mem_singleton_self _⟩ rfl ⟨0⟩ rfl
      ⟨⟨[⟨waitingRow 1, "a.jpg".toList, file⟩], none⟩, ?_, _, List.mem_singleton_self _, rfl⟩
    · decide +kernel
    · decide +kernel
  · refine safe (waitingRow 1) ?_ rfl ⟨0⟩ rfl ⟨⟨⟨1⟩, some "a.jpg".toList, ⟨0⟩, 1, 1, 1, 1, 261120⟩, ?_, rfl⟩
    · unfold ReadPath.Addresses
      decide +kernel
    · decide +kernel

/-- The content of the archive entry is not sent by `getDocContent`. -/
theorem safe_iff_content : (ReadPath.getDocContent firstPair).Safe someSession (serverAfter unpacked) :=
  (safe_iff (serves_serverAfter unpacked) someSession (.getDocContent firstPair)).mpr trivial

end Clb
