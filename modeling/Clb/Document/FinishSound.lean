/-
# Document.FinishSound -- what finishUpload may count on

`finishUpload` completes a version once the chunk map and the stored chunks name every chunk; it looks
at no length and at no file entry. `finishUpload_sound` says under which conditions on the calls the
version it completes has a file of the declared size: sizes are positive, an unfinished upload is
resumed with its chunk size, every chunk that is passed on arrives as exactly its piece, and calls name
their document. `finishUpload_unsound` has a run for each condition that is left out. -/
import Clb.Document.ChunkMap
import Clb.Document.Uploads

set_option autoImplicit false

namespace Clb

open Clb.Lib Clb.Dao Clb.Lib.Action DocumentFacade MongoStorageService

variable {s' : Store} {r : Except Fault ChunkResponse}
variable {docid : Int} {key : ObjectId} {c : DocChunkStatus} {dv : DocVersion}
  {dcs : DocChunkStatus} {saves : Saves} {cup : ExecuteChunkUploadParam} {ins : InputStream}

variable {config : Config} {session : Session} {s : Store}

/-! ## prepareUpload -/

/-- The sizes are positive, and an unfinished upload of the content is resumed with its chunk size. -/
def SoundPrepare (param : PrepareChunkUploadParam) (s : Store) : Prop :=
  0 < param.size ∧ 0 < param.chunkSize ∧
    ∀ ref, DocRefDAO.read param.md5 param.size s.refs = some ref → ref.ref = 0 →
      ∀ c ∈ s.chunkStatus.rows, c.md5 = param.md5 → c.fileSize = param.size →
        c.chunkSize = param.chunkSize

/-- Nothing is stored under the next storage key. -/
theorem Wf.newKey_partial (wf : Wf config s) (length chunkSize : Nat) :
    PartialFile s.newKey length chunkSize s.mongo := by
  obtain ⟨noChunk, noFile⟩ := wf.newKey_unused
  refine .unused noChunk fun f member => ⟨fun same => ?_, noFile f member⟩
  have below := (wf.mongo.filesIssued f member).1
  rw [same] at below
  exact Nat.lt_irrefl _ below

theorem UploadsSound.issueKey (sound : UploadsSound s) : UploadsSound s.issueKey := by
  refine sound.withMongo (m := { s.mongo with issued := s.mongo.issued + 1 }) (fun _ member => member)
    ?_ fun _ _ _ _ _ _ present => present
  intro r member k owner chunkSize positive cut part
  exact part.of_agree ⟨fun _ _ => Iff.rfl, fun _ _ => Iff.rfl⟩

theorem digest_of_fits (fits : docChunkStatusDAO.fits c = true) :
    c.md5 ≠ none := by
  simp only [docChunkStatusDAO, Bool.and_eq_true] at fits
  exact Option.isSome_iff_ne_none.mp fits.1.1.2

/-- The rows of an upload that starts or is resumed. -/
theorem UploadsSound.addUpload (sound : UploadsSound s)
    (statusFree : ∀ c ∈ s.chunkStatus.rows, c.appid = session.appid → c.docid ≠ docid)
    (noVersion : ∀ v ∈ s.versions.rows, v.appid = session.appid → v.docid ≠ docid)
    {param : PrepareChunkUploadParam} (size : 0 < param.size)
    (chunkSize : 0 < param.chunkSize) (small : param.chunkSize ≤ MAX_CHUNK_SIZE)
    {ref : DocRef} (member : ref ∈ s.refs.rows) (digest : ref.md5 = param.md5)
    (sized : ref.size = param.size) (owner : ref.storageKey = some key)
    (oneSize : ∀ c ∈ s.chunkStatus.rows, c.md5 = param.md5 → c.fileSize = param.size →
      c.chunkSize = param.chunkSize) (name : Text) (status : UploadStatus)
    (same : uploadOf c = uploadOf (statusRow session docid param))
    (map : ∀ i ∈ c.loadChunkMap, s.mongo.hasChunk key i = true) :
    UploadsSound ((s.addVersion (firstVersion session docid name param.size (some key) status)).addStatus
      c) := by
  obtain ⟨appid, document, md5, fileSize, cut, count⟩ := uploadOf_eq.mp same
  have declared : Declared (statusRow session docid param) := ⟨size, chunkSize, small, rfl⟩
  refine (sound.addVersion statusFree).addStatus (declared.of_uploadOf same.symm) member
    ⟨digest.trans md5.symm, sized.trans fileSize.symm⟩ ?_ ?_
  · rw [md5, fileSize, cut]
    exact oneSize
  · rw [appid, document]
    refine Table.forall_mem_insert (fun v memberV sameApp sameDoc => ?_) fun _ _ => ⟨key, ?_⟩
    · exact absurd sameDoc (noVersion v memberV sameApp)
    · exact
        { content := ⟨digest.trans md5.symm, sized.trans fileSize.symm⟩
          refKey := owner
          key := rfl
          first := rfl
          size := fileSize.symm
          map }

theorem Prepared.uploadsSound {param : PrepareChunkUploadParam}
    (new : NewUpload config session docid s) (guard : SoundPrepare param s) (sound : UploadsSound s)
    (prepared : Prepared session docid param s r s') : UploadsSound s' := by
  obtain ⟨size, chunkSize, resumes⟩ := guard
  have noVersion := new.noVersion new.nonzero
  have counted : ∀ {ref : DocRef}, DocRefDAO.read param.md5 param.size s.refs = some ref →
      0 < ref.ref → UploadsSound (s.countRefs fun r => r.md5 == param.md5 && r.size == param.size) := by
    intro ref read positive
    refine sound.editRefs fun r member chosen => ?_
    obtain rfl := new.wf.counted_eq_read read size member chosen
    exact sound.counted r member positive
  have resumed : ∀ {ref : DocRef} {c : DocChunkStatus} (name : Text) {key : ObjectId},
      DocRefDAO.read param.md5 param.size s.refs = some ref → ref.ref = 0 →
      docChunkStatusDAO.fits c = true → param.chunkSize ≤ MAX_CHUNK_SIZE →
      ref.storageKey = some key → uploadOf c = uploadOf (statusRow session docid param) →
      (∀ i ∈ c.loadChunkMap, s.mongo.hasChunk key i = true) →
      UploadsSound ((s.addVersion
        (firstVersion session docid name param.size (some key) .waiting)).addStatus c) := by
    intro ref c name key read zero fits small owner same map
    obtain ⟨member, digest, sized⟩ := docRef_read_some read
    have sameDigest : c.md5 = param.md5 := (uploadOf_eq.mp same).2.2.1
    have given : param.md5 ≠ none := sameDigest ▸ digest_of_fits fits
    exact sound.addUpload new.statusFree noVersion size chunkSize small member (digest given) (sized (by omega)) owner
      (resumes ref read zero) name .waiting same map
  have blank : ∀ key, ∀ i ∈ (statusRow session docid param).loadChunkMap,
      s.mongo.hasChunk key i = true := fun _ i bit => absurd bit (Finset.notMem_empty i)
  have added : ∀ {ref : DocRef},
      ref = { md5 := param.md5, size := param.size, ref := 0, storageKey := some s.newKey } →
      UploadsSound (s.issueKey.addRef ref) := by
    rintro _ rfl
    exact sound.issueKey.addRef size rfl rfl fun chunkSize =>
      (new.wf.newKey_partial _ chunkSize).of_agree ⟨fun _ _ => Iff.rfl, fun _ _ => Iff.rfl⟩
  cases prepared with
  | exceeded | foundFull | overflowed | resumedFault => exact sound
  | found ref name read positive => exact (counted read positive).addVersion new.statusFree
  | foundFault ref fault read positive => exact counted read positive
  | resumedVersion => exact sound.addVersion new.statusFree
  | resumedStatus ref name fault read zero named fits small =>
    obtain ⟨-, key, owner, -⟩ := sound.stored ref (docRef_read_some read).1
    rw [owner]
    exact resumed name read zero fits small owner rfl (blank key)
  | resumed ref name key read zero named owner fits small =>
    refine resumed name read zero fits small owner rfl fun i bit => ?_
    rw [DocChunkStatus.loadChunkMap_updateChunkMap] at bit
    exact Mongo.mem_queryChunkMap.mp bit
  | newKey => exact sound.issueKey
  | newRef fault ref read row => exact added row
  | new ref name read row fits free named fitsStatus small =>
    refine (added row).addUpload new.statusFree noVersion size chunkSize small
      (List.mem_append_right _ (List.mem_singleton_self _)) (by rw [row]; rfl) (by rw [row]; rfl)
      (by rw [row]; rfl) ?_ name .waiting rfl fun i bit => absurd bit (Finset.notMem_empty i)
    -- an upload of this content would have its reference row
    intro c memberC md5 fileSize
    obtain ⟨-, r, memberR, content⟩ := sound.declared c memberC
    exact absurd (content.2.trans fileSize) (docRef_read_none read memberR (content.1.trans md5))

/-! ## writeChunkData -/

/-- A write that goes to one document and, if it is passed on to the storage, is for a chunk that is
there already or brings exactly its piece, which the server accepts. -/
def SoundPiece (session : Session) (saves : Saves) (cup : ExecuteChunkUploadParam)
    (ins : InputStream) (s : Store) : Prop :=
  cup.docid ≠ 0 ∧ ∀ dv key dcs, Taken session cup s dv key dcs →
    s.mongo.hasChunk key cup.index.toNat = true ∨
      (Delivered saves ins cup.length ∧ saves.header = true ∧
        cup.length = pieceLength dcs.fileSize.toNat dcs.chunkSize.toNat cup.index.toNat)

/-- The number of chunks of an upload whose chunk map can be recorded. -/
theorem Declared.numOfChunk_eq {c : DocChunkStatus} (declared : Declared c)
    (few : pieceCount c.fileSize.toNat c.chunkSize.toNat ≤ mapLimit) :
    c.numOfChunk = pieceCount c.fileSize.toNat c.chunkSize.toNat := by
  obtain ⟨size, positive, small, count⟩ := declared
  have exact := @Dao.numOfChunk_eq c.fileSize.toNat c.chunkSize.toNat (by omega)
    (by unfold MAX_CHUNK_SIZE at small; omega) few
  rwa [Int.toNat_of_nonneg (by omega), Int.toNat_of_nonneg (by omega), ← count] at exact

theorem Declared.few (declared : Declared c) (few : c.numOfChunk ≤ mapLimit) :
    pieceCount c.fileSize.toNat c.chunkSize.toNat ≤ mapLimit := by
  obtain ⟨size, positive, small, count⟩ := declared
  refine pieceCount_le_of_numOfChunk_le (by omega) (by unfold MAX_CHUNK_SIZE at small; omega) ?_
  rwa [Int.toNat_of_nonneg (by omega), Int.toNat_of_nonneg (by omega), ← count]

/-- The versions of an uploaded document have one storage key, that of its content. -/
theorem UploadsSound.tracks (sound : UploadsSound s)
    (rows : Uploading session docid s dv key dcs) (nonzero : docid ≠ 0) :
    ∃ r ∈ s.refs.rows, Tracks dcs dv r key s.mongo := by
  obtain ⟨⟨memberV, appV, docV⟩, memberC, appC, docC⟩ := rows.owned nonzero
  obtain ⟨r, memberR, k, tracks⟩ := sound.tracked dcs memberC dv memberV (appV.trans appC.symm)
    (docV.trans docC.symm)
  obtain rfl : k = key := Option.some.inj (tracks.key.symm.trans rows.stored)
  exact ⟨r, memberR, tracks⟩

theorem UploadsSound.key_eq (sound : UploadsSound s) (wf : Wf config s)
    {v v' : DocVersion} {r : DocRef} {key k : ObjectId} (memberC : c ∈ s.chunkStatus.rows)
    (memberR : r ∈ s.refs.rows) (tracks : Tracks c v r key s.mongo) (memberV' : v' ∈ s.versions.rows)
    (sameApp : v'.appid = c.appid) (sameDoc : v'.docid = c.docid) (owner : v'.storageKey = some k) :
    k = key := by
  obtain ⟨r', memberR', k', tracks'⟩ := sound.tracked c memberC v' memberV' sameApp sameDoc
  obtain rfl := wf.refsUnique r' memberR' r memberR (Prod.ext
    (tracks'.content.1.trans tracks.content.1.symm) (tracks'.content.2.trans tracks.content.2.symm))
  have same : some k = some key :=
    owner.symm.trans (tracks'.key.trans (tracks'.refKey.symm.trans tracks.refKey))
  exact Option.some.inj same

/-- The collections after a chunk that arrived whole. -/
theorem Taken.received (taken : Taken session cup s dv key dcs)
    (delivered : Delivered saves ins cup.length) (header : saves.header = true)
    {r : Except Fault Unit} {m : Mongo}
    (upload : uploadChunk session saves cup ins dv key dcs s.mongo = (r, m)) :
    m = MongoStorageService.received s.mongo
      { filename := dv.filename, storageKey := key, docid := dv.docid, vid := dv.version,
        appid := session.appid, length := dcs.fileSize } cup.index.toNat dcs.numOfChunk dcs.chunkSize
      ins.reads.flatten := by
  obtain ⟨nonempty, whole, exact, accepted⟩ := delivered
  obtain rfl : saves = ⟨true, true⟩ := by
    cases saves
    exact congrArg₂ Saves.mk accepted header
  have stored := @chunkedUpload_received cup.index.toNat dcs.numOfChunk ins cup.length
    { filename := dv.filename, storageKey := key, docid := dv.docid, vid := dv.version,
      appid := session.appid, length := dcs.fileSize } dcs.chunkSize s.mongo nonempty taken.fits
    whole exact
  exact (Prod.mk.inj (upload.symm.trans stored)).2

/-- What is stored under the key of an upload after a sound piece. -/
theorem PartialFile.uploaded
    (part : PartialFile key dcs.fileSize.toNat dcs.chunkSize.toNat s.mongo) (declared : Declared dcs)
    (guard : SoundPiece session saves cup ins s) (taken : Taken session cup s dv key dcs)
    {r : Except Fault Unit} {m : Mongo}
    (upload : uploadChunk session saves cup ins dv key dcs s.mongo = (r, m)) :
    PartialFile key dcs.fileSize.toNat dcs.chunkSize.toNat m := by
  have chunkSize_pos := declared.chunkSize
  have fileSize : dcs.fileSize = (dcs.fileSize.toNat : Int) :=
    (Int.toNat_of_nonneg (Int.le_of_lt declared.size)).symm
  have chunkSize : dcs.chunkSize = (dcs.chunkSize.toNat : Int) :=
    (Int.toNat_of_nonneg (Int.le_of_lt declared.chunkSize)).symm
  rcases guard.2 dv key dcs taken with present | ⟨delivered, header, sized⟩
  · exact (part.present rfl fileSize chunkSize taken.fits present).apply upload
  · have nonempty := delivered.nonempty
    have exact := delivered.exact
    have within : cup.index.toNat < pieceCount dcs.fileSize.toNat dcs.chunkSize.toNat := by
      rw [lt_pieceCount_iff (by omega)]
      unfold pieceLength at sized
      omega
    rw [taken.received delivered header upload]
    exact part.received rfl fileSize chunkSize declared.numOfChunk_eq within (by omega)

/-- **A sound piece, however the call of chunkedUpload ends.** -/
theorem Taken.uploadsSound (wf : Wf config s) (sound : UploadsSound s)
    (guard : SoundPiece session saves cup ins s)
    (taken : Taken session cup s dv key dcs) {r : Except Fault Unit} {m : Mongo}
    (upload : uploadChunk session saves cup ins dv key dcs s.mongo = (r, m)) :
    UploadsSound { s with mongo := m } ∧ m.hasChunk key cup.index.toNat = true := by
  obtain ⟨-, memberC, -⟩ := taken.owned guard.1
  obtain ⟨ref, memberR, tracks⟩ := sound.tracks taken.toUploading guard.1
  have declared := (sound.declared dcs memberC).1
  have keeps := (chunkedUpload_keeps_chunks taken.fits).apply upload
  refine ⟨sound.withMongo (fun _ member => member) ?_ fun _ _ k _ _ => keeps k, ?_⟩
  · intro r' memberR' k owner chunkSize positive cut part
    by_cases other : key = k
    · subst other
      obtain rfl := wf.refKeysUnique r' memberR' ref memberR (owner.trans tracks.refKey.symm)
      obtain rfl := cut dcs memberC tracks.content
      rw [tracks.content.2] at part ⊢
      exact part.uploaded declared guard taken upload
    · exact part.of_agree ((part.agree_chunkedUpload other taken.fits).apply upload)
  · rcases guard.2 dv key dcs taken with present | ⟨delivered, -⟩
    · exact keeps _ _ present
    · exact (delivered.hasChunk taken.fits).apply upload

theorem Written.uploadsSound (wf : Wf config s) (sound : UploadsSound s)
    (guard : SoundPiece session saves cup ins s) (written : Written session saves cup ins s r s') :
    UploadsSound s' := by
  cases written with
  | idle => exact sound
  | raised taken upload => exact (taken.uploadsSound wf sound guard upload).1
  | @written dv key dcs m taken upload below =>
    obtain ⟨sound', present⟩ := taken.uploadsSound wf sound guard upload
    obtain ⟨mongoWf, issued⟩ := taken.mongoWf wf upload
    have wf' := wf.withMongo mongoWf (Nat.le_of_eq issued.symm)
    obtain ⟨-, memberC, -⟩ := taken.owned guard.1
    obtain ⟨ref, memberR, tracks⟩ :=
      sound'.tracks (s := { s with mongo := m }) ⟨taken.last, taken.stored, taken.read⟩ guard.1
    refine sound'.replaceStatus wf' memberC rfl fun v memberV sameApp sameDoc k owner i bit => ?_
    obtain rfl := sound'.key_eq wf' memberC memberR tracks memberV sameApp sameDoc owner
    rw [loadChunkMap_recorded] at bit
    rcases Finset.mem_insert.mp bit with rfl | old
    · exact present
    · exact tracks.map i old

/-! ## finishUpload -/

/-- Nothing is missing from a map that is recorded: the chunks are few and each of them is in it. -/
theorem Declared.of_full {bits : Finset Nat} (declared : Declared c)
    (below : ∀ i ∈ bits, i < mapLimit) (full : (c.updateChunkMap bits).findEmptyChunk = []) :
    pieceCount c.fileSize.toNat c.chunkSize.toNat ≤ mapLimit ∧
      ∀ n < pieceCount c.fileSize.toNat c.chunkSize.toNat, n ∈ bits := by
  have all : ∀ n : Nat, (n : Int) < c.numOfChunk → n ∈ bits := by
    intro n within
    by_contra missing
    have empty : n ∈ (c.updateChunkMap bits).findEmptyChunk :=
      DocChunkStatus.mem_findEmptyChunk.mpr
        ⟨within, by rwa [DocChunkStatus.loadChunkMap_updateChunkMap]⟩
    rw [full] at empty
    exact List.not_mem_nil empty
  have few : c.numOfChunk ≤ mapLimit := by
    by_contra many
    exact Nat.lt_irrefl _ (below mapLimit (all mapLimit (Int.not_le.mp many)))
  have counted := declared.numOfChunk_eq (declared.few few)
  exact ⟨declared.few few, fun n within => all n (by omega)⟩

/-- What a request to finish that misses nothing says about the content. -/
theorem UploadsSound.whole (sound : UploadsSound s)
    (rows : Uploading session docid s dv key dcs) (nonzero : docid ≠ 0)
    (below : ∀ i ∈ dcs.loadChunkMap ∪ s.mongo.queryChunkMap key, i < mapLimit)
    (full : (dcs.updateChunkMap (dcs.loadChunkMap ∪ s.mongo.queryChunkMap key)).findEmptyChunk = [])
    {ref : DocRef} (tracks : Tracks dcs dv ref key s.mongo) : StoredWhole dcs ref s.mongo := by
  obtain ⟨-, memberC, -⟩ := rows.owned nonzero
  obtain ⟨few, all⟩ := (sound.declared dcs memberC).1.of_full below full
  unfold StoredWhole
  rw [tracks.content.2]
  refine ⟨tracks.content, few, fun k owner n within => ?_⟩
  obtain rfl : k = key := Option.some.inj (owner.symm.trans tracks.refKey)
  rcases Finset.mem_union.mp (all n within) with old | stored
  · exact tracks.map n old
  · exact Mongo.mem_queryChunkMap.mp stored

theorem Finished.uploadsSound (wf : Wf config s) (sound : UploadsSound s) (nonzero : docid ≠ 0)
    (finished : Finished session docid s r s') : UploadsSound s' := by
  have merged : ∀ {dv key dcs}, Uploading session docid s dv key dcs →
      UploadsSound (s.replaceStatus dcs
        (dcs.updateChunkMap (dcs.loadChunkMap ∪ s.mongo.queryChunkMap key))) := by
    intro dv key dcs rows
    obtain ⟨-, memberC, -⟩ := rows.owned nonzero
    obtain ⟨ref, memberR, tracks⟩ := sound.tracks rows nonzero
    refine sound.replaceStatus wf memberC rfl fun v memberV sameApp sameDoc k owner i bit => ?_
    obtain rfl := sound.key_eq wf memberC memberR tracks memberV sameApp sameDoc owner
    rw [DocChunkStatus.loadChunkMap_updateChunkMap] at bit
    rcases Finset.mem_union.mp bit with old | stored
    · exact tracks.map i old
    · exact Mongo.mem_queryChunkMap.mp stored
  cases finished with
  | raised => exact sound
  | needMore rows => exact merged rows
  | @completed dv key dcs rows below full =>
    obtain ⟨-, memberC, -⟩ := rows.owned nonzero
    obtain ⟨ref, memberR, tracks⟩ := sound.tracks rows nonzero
    refine ((merged rows).complete session.appid docid 1).editRefs ?_
    intro r memberR' chosen
    simp only [Bool.and_eq_true, beq_iff_eq] at chosen
    obtain ⟨digest, sized⟩ := chosen
    obtain rfl : r = ref := wf.refsUnique r memberR' ref memberR (Prod.ext
      (digest.trans tracks.content.1.symm) (sized.trans tracks.content.2.symm))
    exact ⟨_, (wf.statusNumbered.mem_replace memberC).mpr (.inl rfl),
      sound.whole rows nonzero below full tracks⟩
  | uncounted fault rows => exact (merged rows).complete session.appid docid 1

/-! ## Runs -/

/-- Runs of the three calls of an upload that keep to the conditions. -/
def soundUploads (request : Request) (s : Store) : Prop :=
  match request.call with
  | .prepareUpload param => SoundPrepare param s
  | .writeChunkData saves cup ins => SoundPiece request.session saves cup ins s
  | .finishUpload docid => docid ≠ 0
  | _ => False

/-- **One call of a sound upload keeps the uploads sound.** -/
theorem exec_uploadsSound {request : Request} (guard : soundUploads request s) (wf : Wf config s)
    (sound : UploadsSound s) : UploadsSound (exec config request s) := by
  obtain ⟨session, call⟩ := request
  cases call with
  | prepareUpload param =>
    change Ends (prepareUpload config session param) s fun _ s' => UploadsSound s'
    refine (prepareUpload_ends wf).mono ?_
    rintro _ _ (⟨fault, -, rfl⟩ | ⟨noDoc, prepared⟩)
    · exact sound
    · exact prepared.uploadsSound (wf.withNewDoc 0 noDoc) guard sound
  | writeChunkData saves cup ins => exact Written.uploadsSound wf sound guard (writeChunkData_ends wf)
  | finishUpload docid => exact Finished.uploadsSound wf sound guard (finishUpload_ends wf)
  | _ => cases guard

/-- The version that a call of `finishUpload` completed has a file of its size. -/
theorem Finished.holdsFile (wf : Wf config s) (sound : UploadsSound s)
    (nonzero : docid ≠ 0) {res : ChunkResponse}
    (finished : Finished session docid s (.ok res) s') (success : res.statusCode = .SUCCESS) :
    ∃ v ∈ s'.versions.rows, v.appid = session.appid ∧ v.docid = docid ∧ v.version = 1 ∧
      v.uploadStatus = some .complete ∧
      ∃ k, v.storageKey = some k ∧ s'.mongo.HoldsFile k v.size := by
  cases finished with
  | needMore => cases success
  | @completed dv key dcs rows below full =>
    obtain ⟨⟨memberV, appV, docV⟩, memberC, -⟩ := rows.owned nonzero
    obtain ⟨ref, memberR, tracks⟩ := sound.tracks rows nonzero
    refine ⟨{ dv with uploadStatus := some .complete }, ?_, appV, docV, tracks.first, rfl, key,
      rows.stored, ?_⟩
    · refine Table.mem_update.mpr (.inl ⟨dv, memberV, decide_eq_true ?_, rfl⟩)
      exact ⟨fun _ => appV, fun _ => docV, fun _ => tracks.first⟩
    · obtain ⟨k, owner, holds⟩ := sound.holdsFile wf memberR
        ⟨dcs, memberC, sound.whole rows nonzero below full tracks⟩
      obtain rfl : k = key := Option.some.inj (owner.symm.trans tracks.refKey)
      rw [tracks.size, ← tracks.content.2]
      exact holds

/-- **Finish soundness.** In every run of prepareUpload, writeChunkData and finishUpload whose calls
keep to the conditions, by any sessions in any order, a finishUpload that answers SUCCESS has completed
the first version of the document, and its storage key resolves to a file of exactly the declared
size. -/
theorem finishUpload_sound (run : ReachableUnder config soundUploads s) {docid : Int}
    (nonzero : docid ≠ 0) {res : ChunkResponse} {s' : Store}
    (finished : finishUpload session docid s = (.ok res, s')) (success : res.statusCode = .SUCCESS) :
    ∃ v ∈ s'.versions.rows, v.appid = session.appid ∧ v.docid = docid ∧ v.version = 1 ∧
      v.uploadStatus = some .complete ∧
      ∃ k, v.storageKey = some k ∧ s'.mongo.HoldsFile k v.size := by
  have wf := run.wf
  have sound : UploadsSound s := run.invariant .empty fun _ _ => exec_uploadsSound
  exact ((finishUpload_ends wf).apply finished).holdsFile wf sound nonzero success

/-- An upload of one byte. -/
def oneByte : PrepareChunkUploadParam := ⟨some "a".toList, some "m".toList, 1, 1⟩

/-- It is prepared, its only chunk arrives, and it is finished. -/
def finishedUpload : List Call := [.prepareUpload oneByte, wholeChunk, .finishUpload 1]

theorem sized_oneByte : ∀ c ∈ (storeAfter [.prepareUpload oneByte]).chunkStatus.rows,
    c.fileSize = 1 ∧ c.chunkSize = 1 := by
  decide +kernel

theorem soundUploads_wholeChunk :
    soundUploads ⟨someSession, wholeChunk⟩ (storeAfter [.prepareUpload oneByte]) := by
  refine ⟨by decide, fun dv key dcs taken => .inr ⟨⟨by decide, rfl, rfl, rfl⟩, rfl, ?_⟩⟩
  obtain ⟨fileSize, chunkSize⟩ := sized_oneByte dcs (docChunkStatus_read_some taken.read).1
  rw [fileSize, chunkSize]
  decide

theorem reachable_oneByte :
    ReachableUnder countingConfig soundUploads (storeAfter [.prepareUpload oneByte, wholeChunk]) := by
  refine Reaches.tail (Request.mk someSession wholeChunk)
    (Reaches.tail (Request.mk someSession (.prepareUpload oneByte)) .refl ?_) soundUploads_wholeChunk
  exact ⟨by decide, by decide, nofun⟩

theorem finishUpload_sound_oneByte :
    ∃ v ∈ (storeAfter finishedUpload).versions.rows,
      v.appid = 1 ∧ v.docid = 1 ∧ v.version = 1 ∧ v.uploadStatus = some .complete ∧
        ∃ k, v.storageKey = some k ∧ (storeAfter finishedUpload).mongo.HoldsFile k v.size := by
  have finished : finishUpload someSession 1 (storeAfter [.prepareUpload oneByte, wholeChunk]) =
      (.ok ⟨.finish, 1, 0, .SUCCESS, 1, some [], none⟩, _) := Prod.ext (by decide +kernel) rfl
  exact finishUpload_sound reachable_oneByte (by decide) finished rfl

/-- Calls and the document to finish after them: an empty file; a negative chunk size; a chunk shorter
than its piece; an upload resumed with another chunk size. -/
def unsoundUploads : List (List Call × Int) :=
  [([.prepareUpload ⟨some "a".toList, some "m".toList, 0, 1⟩], 1),
    ([.prepareUpload ⟨some "a".toList, some "m".toList, 1, -1⟩], 1),
    ([.prepareUpload ⟨some "a".toList, some "m".toList, 2, 2⟩, wholeChunk], 1),
    ([.prepareUpload ⟨some "a".toList, some "m".toList, 3, 1⟩, wholeChunk,
      .prepareUpload ⟨some "a".toList, some "m".toList, 3, 2⟩,
      .writeChunkData {} ⟨2, 1, 1⟩ { reads := [[9]] }], 2)]

/-- Each of them is finished with SUCCESS, and the completed version has no file of its size. -/
theorem finishUpload_unsound :
    (∀ u ∈ unsoundUploads, Reachable countingConfig (storeAfter u.1)) ∧
      ∀ u ∈ unsoundUploads,
        (finishUpload someSession u.2 (storeAfter u.1)).1.toOption.map (·.statusCode) = some .SUCCESS ∧
          ∃ v ∈ (storeAfter (u.1 ++ [.finishUpload u.2])).versions.rows,
            v.docid = u.2 ∧ v.version = 1 ∧ v.uploadStatus = some .complete ∧
              ∃ k ∈ v.storageKey,
                ¬(storeAfter (u.1 ++ [.finishUpload u.2])).mongo.HoldsFile k v.size := by
  refine ⟨fun u _ => reachable_storeAfter u.1, ?_⟩
  decide +kernel

end Clb
