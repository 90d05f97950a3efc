/-
# Document.PreparedVersion -- an upload and the version it was prepared for

`writeChunkData` and `finishUpload` ask for the last version of the document every time, but the chunk
status and the completion are those of version 1. As long as the last version is the first one, both
keep to the storage key that `prepareUpload` chose, whatever updates and removals of versions came in
between (`upload_keeps_to_version`); after an update they do not (`upload_leaves_version`). -/
import Clb.Document.Sending
import Clb.Document.QueryExact

set_option autoImplicit false

namespace Clb

open Clb.Lib Clb.Dao Clb.Lib.Action DocumentFacade Handlers MongoStorageService

variable {resource : Resource} {s' : Store}

variable {config : Config} {session : Session} {s : Store} {appid docid : Int} {key : ObjectId}
  {base : Nat}

/-- What a run on one document keeps: version 1 has the key of `prepareUpload`, and later versions,
and the files of their keys, have identifiers that were handed out since. -/
structure OwnVersion (appid docid : Int) (key : ObjectId) (base : Nat) (s : Store) : Prop where
  nonzero : docid ≠ 0
  older : key.serial < base
  issued : base ≤ s.mongo.issued
  first : ∀ v ∈ s.versions.rows, v.appid = appid → v.docid = docid → v.version = 1 →
    v.storageKey = some key
  later : ∀ v ∈ s.versions.rows, v.appid = appid → v.docid = docid → v.version ≠ 1 →
    ∀ k, v.storageKey = some k → base ≤ k.serial
  versioned : (∃ d ∈ s.docs.rows, d.appid = appid ∧ d.docid = docid) →
    ∃ v ∈ s.versions.rows, v.appid = appid ∧ v.docid = docid
  files : ∀ f ∈ s.mongo.files, base ≤ f.storageKey.serial → f.id ≠ key
  mapTrue : (∃ v ∈ s.versions.rows, v.appid = appid ∧ v.docid = docid ∧ v.version = 1) →
    ∀ dcs ∈ s.chunkStatus.rows, dcs.appid = appid → dcs.docid = docid →
      ∀ i ∈ dcs.loadChunkMap, s.mongo.hasChunk key i = true

/-- Calls on one document. Writes and requests to finish come while it has its first version only, and
writes deliver their data. -/
def onDocument (appid docid : Int) (request : Request) (s : Store) : Prop :=
  request.session.appid = appid ∧
    match request.call with
    | .writeChunkData saves cup ins =>
      cup.docid = docid ∧ OnlyFirst appid docid s ∧ SoundWrite request.session saves cup ins s
    | .finishUpload d => d = docid ∧ OnlyFirst appid docid s
    | .updateDoc d _ => d = docid
    | .removeVersion dp => dp.docid = docid
    | _ => False

namespace OwnVersion

/-- A change of the collections that keeps the chunks of the key. -/
theorem withMongo (own : OwnVersion appid docid key base s) {m : Mongo}
    (issued : s.mongo.issued ≤ m.issued)
    (files : ∀ f ∈ m.files, f ∈ s.mongo.files ∨ f.storageKey = key ∨ f.id.serial = s.mongo.issued)
    (kept : ∀ i, s.mongo.hasChunk key i = true → m.hasChunk key i = true) :
    OwnVersion appid docid key base { s with mongo := m } :=
  { own with
    issued := Nat.le_trans own.issued issued
    files := by
      intro f member recent same
      have older := own.older
      rcases files f member with old | owner | fresh
      · exact own.files f old recent same
      · rw [owner] at recent
        omega
      · have := own.issued
        rw [same] at fresh
        omega
    mapTrue := fun first dcs member sameApp sameDoc i bit =>
      kept i (own.mapTrue first dcs member sameApp sameDoc i bit) }

/-- A later version, with a new key or none. -/
theorem addVersion (own : OwnVersion appid docid key base s) {v : DocVersion}
    (notFirst : v.version ≠ 1) (fresh : ∀ k, v.storageKey = some k → base ≤ k.serial) :
    OwnVersion appid docid key base (s.addVersion v) :=
  { own with
    first := Table.forall_mem_insert own.first fun _ _ one => absurd one notFirst
    later := Table.forall_mem_insert own.later fun _ _ _ => fresh
    versioned := by
      intro doc
      obtain ⟨w, member, owner⟩ := own.versioned doc
      exact ⟨w, List.mem_append_left _ member, owner⟩
    mapTrue := by
      rintro ⟨w, member, sameApp, sameDoc, one⟩
      rcases List.mem_append.mp member with old | new
      · exact own.mapTrue ⟨w, old, sameApp, sameDoc, one⟩
      · rw [List.mem_singleton.mp new] at one
        exact absurd one notFirst }

theorem complete (own : OwnVersion appid docid key base s) (a d version : Int) :
    OwnVersion appid docid key base (s.complete a d version) :=
  { own with
    first := Table.forall_mem_update own.first fun _ _ kept => kept
    later := Table.forall_mem_update own.later fun _ _ kept => kept
    versioned := by
      intro doc
      obtain ⟨w, member, owner⟩ := own.versioned doc
      refine ⟨_, List.mem_map.mpr ⟨w, member, rfl⟩, ?_⟩
      split
      · exact owner
      · exact owner
    mapTrue := by
      rintro ⟨w, member, owner⟩
      rcases Table.mem_update.mp member with ⟨old, inside, -, rfl⟩ | ⟨inside, -⟩
      · exact own.mapTrue ⟨old, inside, owner⟩
      · exact own.mapTrue ⟨w, inside, owner⟩ }

theorem setLastVersion (own : OwnVersion appid docid key base s) (a d version : Int) :
    OwnVersion appid docid key base (s.setLastVersion a d version) :=
  { own with
    versioned := by
      rintro ⟨row, member, owner⟩
      rcases Table.mem_update.mp member with ⟨old, inside, -, rfl⟩ | ⟨inside, -⟩
      · exact own.versioned ⟨old, inside, owner⟩
      · exact own.versioned ⟨row, inside, owner⟩ }

/-! ## Updates -/

theorem versioned_ends (own : OwnVersion session.appid docid key base s) {version size : Int}
    (notFirst : version ≠ 1) {filename : Option Text} {r : Except Fault DocVersion}
    (versioned : Versioned session docid version filename size s r s') :
    OwnVersion session.appid docid key base s' := by
  have issued : OwnVersion session.appid docid key base s.issueKey :=
    own.withMongo (Nat.le_succ _) (fun _ member => .inl member) fun _ present => present
  cases versioned with
  | refused => exact issued
  | bare => exact issued.addVersion notFirst nofun
  | created name named small =>
    refine (issued.addVersion (v := nextVersionRow session docid version name size s.newKey) notFirst
      ?_).setLastVersion _ _ _
    rintro _ ⟨⟩
    exact own.issued

theorem saved_ends (own : OwnVersion appid docid key base s) {name : Text}
    {mf : MFile} {r : Except Fault Unit} (saved : Saved resource name mf s r s') :
    OwnVersion appid docid key base s' := by
  cases saved with
  | skipped => exact own
  | spoiled => exact { own with }
  | driven opened temp wrote =>
    have stored := own.withMongo (wrote.issued ▸ Nat.le_succ _) (fun f member => ?_)
      fun i present => wrote.hasChunk present
    · exact { stored with }
    · exact (wrote.mem_files member).imp_right fun new => .inr (by rw [new]; rfl)

theorem advanced_ends (own : OwnVersion appid docid key base s)
    {dv : DocVersion} {d : Int} {r : Except Fault UpdateInfo}
    (advanced : Advanced session resource dv d (pure ()) s r s') :
    OwnVersion appid docid key base s' := by
  cases advanced with
  | unsaved => exact own
  | broken fault named stored saved => exact own.saved_ends saved
  | done named stored saved => exact (own.saved_ends saved).complete _ _ _

theorem updated_ends (own : OwnVersion session.appid docid key base s) (wf : Wf config s)
    {r : Except Fault UpdateInfo}
    (updated : Updated session docid resource s r s') : OwnVersion session.appid docid key base s' := by
  -- a document that is found has a version, so the next one is not the first
  have notFirst : ∀ {doc}, DocMetaDAO.read session.appid docid s.docs = some doc →
      DocVersionDAO.nextVersion session.appid docid s.versions ≠ 1 := by
    intro doc read one
    obtain ⟨v, member, sameApp, sameDoc⟩ := own.versioned (docMeta_read_doc read own.nonzero)
    have below := (nextVersion_spec fun row inside => (wf.versionsPos row inside).2).2 v member sameApp
      sameDoc
    have positive := (wf.versionsPos v member).2
    omega
  cases updated with
  | refused => exact own
  | unversioned fault read versioned => exact own.versioned_ends (notFirst read) versioned
  | advanced read permitted versioned advanced =>
    exact (own.versioned_ends (notFirst read) versioned).advanced_ends advanced

/-! ## Removals -/

/-- The document loses a version. The chunks of the key may go with version 1 only. -/
theorem deleteVersion (own : OwnVersion appid docid key base s) (appid_ne : appid ≠ 0)
    {version : Int} (version_ne : version ≠ 0) {m : Mongo} (issued : m.issued = s.mongo.issued)
    (files : ∀ f ∈ m.files, f ∈ s.mongo.files)
    (kept : version ≠ 1 → ∀ i, s.mongo.hasChunk key i = true → m.hasChunk key i = true) :
    OwnVersion appid docid key base
      (({ s with mongo := m }.deleteVersions appid docid version).follow appid docid) := by
  obtain ⟨docs, same⟩ := Store.follow_eq appid docid
    ({ s with mongo := m }.deleteVersions appid docid version)
  have versioned : (∃ d ∈ docs.rows, d.appid = appid ∧ d.docid = docid) →
      ∃ v ∈ (s.deleteVersions appid docid version).versions.rows,
        v.appid = appid ∧ v.docid = docid := by
    rintro ⟨d, member, owner⟩
    have followed : (Store.follow appid docid
        ({ s with mongo := m }.deleteVersions appid docid version)).docs = docs :=
      congrArg Store.docs same
    unfold Store.follow at followed
    split at followed
    · rename_i ndv last
      obtain ⟨inside, sameApp, sameDoc⟩ := readLastVersion_some last
      exact ⟨ndv, inside, sameApp appid_ne, sameDoc own.nonzero⟩
    · rw [← followed] at member
      refine absurd ?_ (Table.mem_delete.mp member).2
      exact decide_eq_true ⟨fun _ => owner.1, fun _ => owner.2⟩
  rw [same]
  exact
    { nonzero := own.nonzero
      older := own.older
      issued := issued ▸ own.issued
      first := Table.forall_mem_delete own.first
      later := Table.forall_mem_delete own.later
      versioned := versioned
      files := fun f member => own.files f (files f member)
      mapTrue := by
        rintro ⟨v, member, sameApp, sameDoc, one⟩ dcs inside appC docC i bit
        obtain ⟨old, unselected⟩ := Table.mem_delete.mp member
        refine kept ?_ i (own.mapTrue ⟨v, old, sameApp, sameDoc, one⟩ dcs inside appC docC i bit)
        rintro rfl
        exact unselected (decide_eq_true ⟨fun _ => sameApp, fun _ => sameDoc, fun _ => one⟩) }

theorem removeVersion_ends (own : OwnVersion session.appid docid key base s) (wf : Wf config s)
    {dp : DocPair} (onDoc : dp.docid = docid) :
    Ends (removeVersion session dp) s fun _ s' => OwnVersion session.appid docid key base s' := by
  refine Clb.removeVersion_ends.mono ?_
  rintro _ _ (rfl | ⟨p, dv, converted, read, rfl⟩)
  · exact own
  · obtain ⟨appid, document, positive⟩ := convertToPair_eq_some converted
    obtain ⟨member, sameApp, sameDoc⟩ := docVersion_read_some read
    have appid_ne : session.appid ≠ 0 := Int.ne_of_gt session.appid_pos
    have sameApp : dv.appid = session.appid := (sameApp (by omega)).trans appid
    have sameDoc : dv.docid = docid := (sameDoc (by omega)).trans (document.trans onDoc)
    have version_pos := (wf.versionsPos dv member).2
    rw [removeDocVersion_eq wf]
    split
    · exact own
    · rename_i k stored
      rw [sameApp, sameDoc]
      refine own.deleteVersion appid_ne (Int.ne_of_gt version_pos) rfl
        (fun f => List.mem_of_mem_filter) fun notFirst i present => ?_
      -- the entries of a later version's key are not that of the key
      have recent := own.later dv member sameApp sameDoc notFirst k stored
      obtain ⟨c, inside, owner, number⟩ := Mongo.hasChunk_iff.mp present
      refine Mongo.hasChunk_iff.mpr ⟨c, List.mem_filter.mpr ⟨inside, ?_⟩, owner, number⟩
      have spared : key ∉ (s.mongo.files.filter fun f => f.storageKey == k).map (·.id) := by
        rw [MongoWf.mem_removed_iff]
        rintro ⟨f, memberF, ownerF, id⟩
        exact own.files f memberF (ownerF ▸ recent) id
      simpa [owner] using spared

/-! ## Chunks -/

theorem chunkMapTrue (own : OwnVersion appid docid key base s) (only : OnlyFirst appid docid s) :
    ChunkMapTrue appid docid s := by
  intro dcs memberC appC docC v memberV appV docV k stored i bit
  have one := only.first v memberV appV docV
  obtain rfl : k = key := Option.some.inj (stored.symm.trans (own.first v memberV appV docV one))
  exact own.mapTrue ⟨v, memberV, appV, docV, one⟩ dcs memberC appC docC i bit

/-- The rows that the calls work with are those of `prepareUpload`. -/
theorem uploading (own : OwnVersion session.appid docid key base s)
    (only : OnlyFirst session.appid docid s) {dv : DocVersion} {k : ObjectId} {dcs : DocChunkStatus}
    (rows : Uploading session docid s dv k dcs) : dv.version = 1 ∧ k = key := by
  obtain ⟨⟨member, sameApp, sameDoc⟩, -⟩ := rows.owned own.nonzero
  have one := only.first dv member sameApp sameDoc
  exact ⟨one, Option.some.inj (rows.stored.symm.trans (own.first dv member sameApp sameDoc one))⟩

theorem written_ends (own : OwnVersion session.appid docid key base s) (wf : Wf config s)
    (only : OnlyFirst session.appid docid s) {saves : Saves} {cup : ExecuteChunkUploadParam}
    {ins : InputStream} (onDoc : cup.docid = docid) (sound : SoundWrite session saves cup ins s)
    {r : Except Fault ChunkResponse} (written : Written session saves cup ins s r s') :
    OwnVersion session.appid docid key base s' := by
  have mapTrue := (written.chunkMapTrue wf sound only (own.chunkMapTrue only)).2
  have mongo : ∀ {dv k dcs r m}, Taken session cup s dv k dcs →
      uploadChunk session saves cup ins dv k dcs s.mongo = (r, m) →
      OwnVersion session.appid docid key base { s with mongo := m } := by
    intro dv k dcs r m taken upload
    obtain rfl := (own.uploading only (onDoc ▸ taken.toUploading)).2
    obtain ⟨issued, files, -⟩ := (chunkedUpload_adds taken.fits).apply upload
    refine own.withMongo (Nat.le_of_eq issued.symm) (fun f member => ?_)
      ((chunkedUpload_keeps_chunks taken.fits).apply upload _)
    exact (files f member).imp_right fun new => .inl (by rw [new]; rfl)
  cases written with
  | idle => exact own
  | raised taken upload => exact mongo taken upload
  | @written dv k dcs m taken upload below =>
    refine { mongo taken upload with mapTrue := ?_ }
    rintro ⟨v, member, sameApp, sameDoc, one⟩ c inside appC docC
    exact mapTrue c inside appC docC v member sameApp sameDoc key
      (own.first v member sameApp sameDoc one)

/-- A request to finish merges the numbers stored under the key into the map. -/
theorem finished_ends (own : OwnVersion session.appid docid key base s) (wf : Wf config s)
    (only : OnlyFirst session.appid docid s) {r : Except Fault ChunkResponse}
    (finished : Finished session docid s r s') : OwnVersion session.appid docid key base s' := by
  have merged : ∀ {dv k dcs}, Uploading session docid s dv k dcs →
      OwnVersion session.appid docid key base (s.replaceStatus dcs
        (dcs.updateChunkMap (dcs.loadChunkMap ∪ s.mongo.queryChunkMap k))) := by
    intro dv k dcs rows
    obtain rfl := (own.uploading only rows).2
    obtain ⟨-, memberC, appC, docC⟩ := rows.owned own.nonzero
    refine { own with mapTrue := fun first c inside appid docid i bit => ?_ }
    rcases (wf.statusNumbered.mem_replace memberC).mp inside with rfl | ⟨old, -⟩
    · rw [DocChunkStatus.loadChunkMap_updateChunkMap, Finset.mem_union] at bit
      rcases bit with mapped | stored
      · exact own.mapTrue first dcs memberC appC docC i mapped
      · exact Mongo.mem_queryChunkMap.mp stored
    · exact own.mapTrue first c old appid docid i bit
  cases finished with
  | raised => exact own
  | needMore rows => exact merged rows
  | completed rows => exact { (merged rows).complete session.appid docid 1 with }
  | uncounted fault rows => exact (merged rows).complete session.appid docid 1

end OwnVersion

/-! ## Runs -/

/-- **One call on the document.** -/
theorem exec_ownVersion {request : Request} (admitted : onDocument appid docid request s)
    (wf : Wf config s) (own : OwnVersion appid docid key base s) :
    OwnVersion appid docid key base (exec config request s) := by
  obtain ⟨session, call⟩ := request
  obtain ⟨rfl, admitted⟩ := admitted
  cases call with
  | writeChunkData saves cup ins =>
    obtain ⟨onDoc, only, sound⟩ := admitted
    exact own.written_ends wf only onDoc sound (writeChunkData_ends wf)
  | finishUpload d =>
    obtain ⟨rfl, only⟩ := admitted
    exact own.finished_ends wf only (finishUpload_ends wf)
  | updateDoc d resource =>
    obtain rfl := admitted
    exact own.updated_ends wf (updateDoc_ends wf)
  | removeVersion dp => exact own.removeVersion_ends wf admitted
  | _ => exact absurd admitted id

theorem prepareUpload_ownVersion (reachable : Reachable config s) {param : PrepareChunkUploadParam}
    {res : ChunkResponse} {s₁ : Store}
    (prepared : prepareUpload config session param s = (.ok res, s₁)) {v : DocVersion}
    (member : v ∈ s₁.versions.rows) (sameApp : v.appid = session.appid)
    (sameDoc : v.docid = res.docid) (stored : v.storageKey = some key) :
    OwnVersion session.appid res.docid key s₁.mongo.issued s₁ := by
  obtain ⟨wf, only, mapTrue⟩ := prepareUpload_tracked reachable prepared
  exact
    { nonzero := only.nonzero
      older := wf.versionKeys v member key stored
      issued := Nat.le_refl _
      first := fun w inside appW docW _ =>
        only.unique wf inside member appW docW sameApp sameDoc ▸ stored
      later := fun w inside appW docW other => absurd (only.first w inside appW docW) other
      versioned := fun _ => ⟨v, member, sameApp, sameDoc⟩
      files := fun f inside recent =>
        absurd (wf.mongo.filesIssued f inside).2 (Nat.not_lt.mpr recent)
      mapTrue := fun _ dcs inside appC docC =>
        mapTrue dcs inside appC docC v member sameApp sameDoc key stored }

/-- **An upload keeps to the version it was prepared for.** After a `prepareUpload` that made a version
with storage key `key`, in every state of a run of calls on the document: a write stores chunks under
`key` only, a request to finish changes no version but the first, which has `key`, and if it answers
SUCCESS every chunk of the file is stored under `key`. -/
theorem upload_keeps_to_version (reachable : Reachable config s) {param : PrepareChunkUploadParam}
    {res : ChunkResponse} {s₁ s₂ : Store}
    (prepared : prepareUpload config session param s = (.ok res, s₁)) {v : DocVersion}
    (member : v ∈ s₁.versions.rows) (sameApp : v.appid = session.appid)
    (sameDoc : v.docid = res.docid) (stored : v.storageKey = some key)
    (run : Reaches (exec config) (onDocument session.appid res.docid) s₁ s₂) :
    (∀ writer saves cup ins,
      onDocument session.appid res.docid ⟨writer, .writeChunkData saves cup ins⟩ s₂ →
      ∀ c ∈ (writeChunkData writer saves cup ins s₂).2.mongo.chunks,
        c ∈ s₂.mongo.chunks ∨ c.filesId = key) ∧
    ∀ finisher, onDocument session.appid res.docid ⟨finisher, .finishUpload res.docid⟩ s₂ →
      (∀ w ∈ (finishUpload finisher res.docid s₂).2.versions.rows, w ∈ s₂.versions.rows ∨
        (w.appid = session.appid ∧ w.docid = res.docid ∧ w.version = 1 ∧ w.storageKey = some key)) ∧
      (codeOf (finishUpload finisher res.docid s₂).1 = some .SUCCESS →
        ∀ dcs ∈ s₂.chunkStatus.rows, dcs.appid = session.appid → dcs.docid = res.docid →
          ∀ i : Nat, (i : Int) < dcs.numOfChunk → s₂.mongo.hasChunk key i = true) := by
  have start := prepareUpload_ownVersion reachable prepared member sameApp sameDoc stored
  obtain ⟨wf, own⟩ : Wf config s₂ ∧ OwnVersion session.appid res.docid key s₁.mongo.issued s₂ :=
    @Reaches.invariant _ _ _ _ _ _ (fun s => Wf config s ∧ OwnVersion _ _ _ _ s) run
      ⟨(prepareUpload_tracked reachable prepared).wf, start⟩ fun request s admitted both =>
        ⟨exec_wf request both.1, exec_ownVersion admitted both.1 both.2⟩
  constructor
  · rintro writer saves cup ins ⟨sameSession, onDoc, only, -⟩
    have sameSession : writer.appid = session.appid := sameSession
    rw [← sameSession] at own only
    have chunks : ∀ {dv k dcs r m}, Taken writer cup s₂ dv k dcs →
        uploadChunk writer saves cup ins dv k dcs s₂.mongo = (r, m) →
        ∀ c ∈ m.chunks, c ∈ s₂.mongo.chunks ∨ c.filesId = key := by
      intro dv k dcs r m taken upload
      obtain rfl := (own.uploading only (onDoc ▸ taken.toUploading)).2
      exact ((chunkedUpload_adds taken.fits).apply upload).2.2
    change Ends (writeChunkData writer saves cup ins) s₂ fun _ s' =>
      ∀ c ∈ s'.mongo.chunks, c ∈ s₂.mongo.chunks ∨ c.filesId = key
    refine (writeChunkData_ends wf).mono fun r s' written => ?_
    cases written with
    | idle => exact fun _ => .inl
    | raised taken upload => exact chunks taken upload
    | written taken upload => exact chunks taken upload
  · rintro finisher ⟨sameSession, -, only⟩
    have sameSession : finisher.appid = session.appid := sameSession
    rw [← sameSession] at own only ⊢
    have ends : Finished finisher res.docid s₂ _ _ := finishUpload_ends wf
    rcases out : finishUpload finisher res.docid s₂ with ⟨r, s₃⟩
    rw [out] at ends
    have completes : ∀ w ∈ (s₂.complete finisher.appid res.docid 1).versions.rows,
        w ∈ s₂.versions.rows ∨ (w.appid = finisher.appid ∧ w.docid = res.docid ∧ w.version = 1 ∧
          w.storageKey = some key) := by
      intro w inside
      rcases Table.mem_update.mp inside with ⟨old, before, selected, rfl⟩ | ⟨before, -⟩
      · obtain ⟨appO, docO, one⟩ := of_decide_eq_true selected
        have appO := appO (Int.ne_of_gt finisher.appid_pos)
        have docO := docO own.nonzero
        have one := one Int.one_ne_zero
        exact .inr ⟨appO, docO, one, own.first old before appO docO one⟩
      · exact .inl before
    cases ends with
    | raised => exact ⟨fun _ => .inl, nofun⟩
    | uncounted => exact ⟨completes, nofun⟩
    | needMore => exact ⟨fun _ => .inl, nofun⟩
    | @completed dv k dcs rows below full =>
      obtain rfl := (own.uploading only rows).2
      obtain ⟨⟨memberV, appV, docV⟩, memberC, appC, docC⟩ := rows.owned own.nonzero
      refine ⟨completes, fun _ c insideC appC' docC' i inRange => ?_⟩
      obtain rfl : c = dcs := wf.statusUnique c insideC dcs memberC
        (Prod.ext (appC'.trans appC.symm) (docC'.trans docC.symm))
      have unseen : i ∉ (c.updateChunkMap
          (c.loadChunkMap ∪ s₂.mongo.queryChunkMap k)).findEmptyChunk :=
        full ▸ List.not_mem_nil
      rw [DocChunkStatus.mem_findEmptyChunk, DocChunkStatus.loadChunkMap_updateChunkMap] at unseen
      have recorded := not_not.mp fun missing => unseen ⟨inRange, missing⟩
      have one := only.first dv memberV appV docV
      rcases Finset.mem_union.mp recorded with mapped | there
      · exact own.mapTrue ⟨dv, memberV, appV, docV, one⟩ c memberC appC docC i mapped
      · exact Mongo.mem_queryChunkMap.mp there

/-- An upload of one byte, an update of its document, the removal of the version it added, and the
byte itself. -/
def interruptedUpload : List Call :=
  [.prepareUpload ⟨some "a".toList, some "m".toList, 1, 1⟩,
    .updateDoc 1 { filename := some "b".toList, length := 1, stream := { reads := [[9]] } },
    .removeVersion ⟨1, "2".toList⟩, .writeChunkData {} ⟨1, 0, 1⟩ { reads := [[7]] }]

/-- Since the second version is gone again, the byte is stored under the key of the first one, and
the upload is finished from it. -/
theorem upload_keeps_to_version_interrupted :
    codeOf (finishUpload someSession 1 (storeAfter interruptedUpload)).1 = some .SUCCESS ∧
      ∀ dcs ∈ (storeAfter interruptedUpload).chunkStatus.rows, dcs.appid = 1 → dcs.docid = 1 →
        ∀ i : Nat, (i : Int) < dcs.numOfChunk →
          (storeAfter interruptedUpload).mongo.hasChunk ⟨0⟩ i = true := by
  have prepared : prepareUpload countingConfig someSession
      ⟨some "a".toList, some "m".toList, 1, 1⟩ Store.empty =
      (.ok ⟨.prepare, 1, 0, .SUCCESS, 1, some [0], some []⟩,
        storeAfter (interruptedUpload.take 1)) :=
    Prod.ext (by decide +kernel) rfl
  have version : ∃ v ∈ (storeAfter (interruptedUpload.take 1)).versions.rows, v.appid = 1 ∧
      v.docid = 1 ∧ v.storageKey = some ⟨0⟩ := by
    decide +kernel
  obtain ⟨v, member, sameApp, sameDoc, stored⟩ := version
  have run : Reaches (exec countingConfig) (onDocument 1 1) (storeAfter (interruptedUpload.take 1))
      (storeAfter interruptedUpload) := by
    have admitted : Admits (exec countingConfig) (onDocument 1 1)
        ((interruptedUpload.drop 1).map (Request.mk someSession))
        (storeAfter (interruptedUpload.take 1)) := by
      refine ⟨⟨rfl, rfl⟩, ⟨rfl, rfl⟩, ⟨rfl, rfl, ?_, ⟨by decide, ?_⟩⟩, trivial⟩
      · exact ⟨by decide, by decide +kernel⟩
      · exact fun _ _ _ _ => .inr ⟨by decide, rfl, rfl, rfl⟩
    have reached := Reaches.append .refl admitted
    exact reached
  have success : codeOf (finishUpload someSession 1 (storeAfter interruptedUpload)).1 =
      some .SUCCESS := by
    decide +kernel
  have only : OnlyFirst 1 1 (storeAfter interruptedUpload) := ⟨by decide, by decide +kernel⟩
  exact ⟨success, ((upload_keeps_to_version .refl prepared member sameApp sameDoc stored run).2
    someSession ⟨rfl, rfl, only⟩).2 success⟩

/-- A version is added before the chunk is sent. The chunk is stored under the key of the second
version, and the request to finish then completes the first one, of which nothing is stored. -/
theorem upload_leaves_version :
    let s₁ := storeAfter [.prepareUpload ⟨some "a".toList, some "m".toList, 1, 1⟩,
      .updateDoc 1 { filename := some "b".toList, length := 1, stream := { reads := [[9]] } }]
    let out := writeChunkData someSession {} ⟨1, 0, 1⟩ { reads := [[7]] } s₁
    let out' := finishUpload someSession 1 out.2
    (∃ v ∈ s₁.versions.rows, v.appid = 1 ∧ v.docid = 1 ∧ v.version = 1 ∧ v.storageKey = some ⟨0⟩) ∧
      (∃ v ∈ s₁.versions.rows, v.appid = 1 ∧ v.docid = 1 ∧ v.version = 2 ∧ v.storageKey = some ⟨1⟩) ∧
      codeOf out.1 = some .SUCCESS ∧ ⟨⟨1⟩, 0, [7]⟩ ∈ out.2.mongo.chunks ∧
      codeOf out'.1 = some .SUCCESS ∧
      (∃ v ∈ out'.2.versions.rows, v.appid = 1 ∧ v.docid = 1 ∧ v.version = 1 ∧
        v.uploadStatus = some .complete) ∧
      ∀ c ∈ out'.2.mongo.chunks, c.filesId ≠ ⟨0⟩ := by
  decide +kernel

end Clb
