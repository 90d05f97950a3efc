/-
# Document.ChunkMap -- does the chunk map tell the truth

`writeChunkData` records a chunk in the map after a storage call that reports nothing back: an early
return, a swallowed exception and an empty payload all look like success. `chunkMap_true` says that
the map of an upload names stored chunks only, in every run of writes each of which delivers its data
or repeats a stored chunk; the theorems after it show each way to break that. -/
import Clb.Document.System

set_option autoImplicit false

namespace Clb

open Clb.Lib Clb.Dao Clb.Lib.Action DocumentFacade MongoStorageService

variable {config : Config} {session : Session} {s : Store} {appid docid : Int}

/-- Every bit of the chunk map of a document is a stored chunk of its version. -/
def ChunkMapTrue (appid docid : Int) (s : Store) : Prop :=
  ∀ dcs ∈ s.chunkStatus.rows, dcs.appid = appid → dcs.docid = docid →
    ∀ v ∈ s.versions.rows, v.appid = appid → v.docid = docid →
      ∀ k, v.storageKey = some k → ∀ i ∈ dcs.loadChunkMap, s.mongo.hasChunk k i = true

/-- A write that goes to one document and, if it is passed on to the storage, is for a chunk that is
there already or delivers it. -/
def SoundWrite (session : Session) (saves : Saves) (cup : ExecuteChunkUploadParam)
    (ins : InputStream) (s : Store) : Prop :=
  cup.docid ≠ 0 ∧ ∀ dv key dcs, Taken session cup s dv key dcs →
    s.mongo.hasChunk key cup.index.toNat = true ∨ Delivered saves ins cup.length

/-- Runs of sound writes. -/
def soundWrites (request : Request) (s : Store) : Prop :=
  match request.call with
  | .writeChunkData saves cup ins => SoundWrite request.session saves cup ins s
  | _ => False

/-- What the writes rely on: the document has its first version only. -/
structure OnlyFirst (appid docid : Int) (s : Store) : Prop where
  nonzero : docid ≠ 0
  first : ∀ v ∈ s.versions.rows, v.appid = appid → v.docid = docid → v.version = 1

/-- The first version of a document is one row. -/
theorem OnlyFirst.unique (wf : Wf config s) (only : OnlyFirst appid docid s) {v v' : DocVersion}
    (member : v ∈ s.versions.rows) (member' : v' ∈ s.versions.rows) (sameApp : v.appid = appid)
    (sameDoc : v.docid = docid) (sameApp' : v'.appid = appid) (sameDoc' : v'.docid = docid) :
    v = v' := by
  refine wf.versionsUnique v member v' member' ?_
  simp only [versionKey, sameApp, sameDoc, sameApp', sameDoc', only.nonzero, if_false,
    only.first v member sameApp sameDoc, only.first v' member' sameApp' sameDoc']

/-- The rows that the calls read for a document with its first version only. -/
theorem OnlyFirst.uploading (wf : Wf config s) (only : OnlyFirst session.appid docid s)
    {dv : DocVersion} {key : ObjectId} {dcs : DocChunkStatus} (memberV : dv ∈ s.versions.rows)
    (appV : dv.appid = session.appid) (docV : dv.docid = docid) (stored : dv.storageKey = some key)
    (memberC : dcs ∈ s.chunkStatus.rows) (appC : dcs.appid = session.appid)
    (docC : dcs.docid = docid) : Uploading session docid s dv key dcs := by
  have appid_ne : session.appid ≠ 0 := Int.ne_of_gt session.appid_pos
  refine ⟨?_, stored, ?_⟩
  · refine readLastVersion_of_unique memberV (fun _ => appV) (fun _ => docV) ?_
    intro v member sameApp sameDoc
    exact only.unique wf member memberV (sameApp appid_ne) (sameDoc only.nonzero) appV docV
  · refine BaseDAO.findAndReturnOnly_of_unique memberC
      (docChunkStatus_clause.mpr ⟨fun _ => appC, fun _ => docC, (wf.statusIssued dcs memberC).1⟩) ?_
    intro c member chosen
    obtain ⟨sameApp, sameDoc, -⟩ := docChunkStatus_clause.mp chosen
    refine wf.statusUnique c member dcs memberC ?_
    simp only [sameApp appid_ne, sameDoc only.nonzero, appC, docC]

/-! ## After prepareUpload -/

/-- `prepareUpload` starts with a true map: an empty one, or that of the chunks already stored. -/
theorem Prepared.chunkMapTrue {param : PrepareChunkUploadParam} {r : Except Fault ChunkResponse}
    {s' : Store} (new : NewUpload config session docid s)
    (prepared : Prepared session docid param s r s') :
    OnlyFirst session.appid docid s' ∧ ChunkMapTrue session.appid docid s' := by
  have noVersion : ∀ v ∈ s.versions.rows, v.appid = session.appid → v.docid = docid →
      v.version = 1 :=
    fun v member sameApp sameDoc => absurd sameDoc (new.noVersion new.nonzero v member sameApp)
  have oneVersion : ∀ name key status, ∀ v ∈ (s.versions.insert docVersionDAO.setId
      (firstVersion session docid name param.size key status)).rows,
      v.appid = session.appid → v.docid = docid → v.version = 1 :=
    fun _ _ _ => Table.forall_mem_insert noVersion fun _ _ => rfl
  -- without a chunk status row there is no bit
  have noStatus : ∀ {s' : Store}, s'.chunkStatus = s.chunkStatus →
      ChunkMapTrue session.appid docid s' := by
    intro s' same c member sameApp sameDoc
    rw [same] at member
    exact absurd sameDoc (new.statusFree c member sameApp)
  -- a new chunk status row has the bits that it is given
  have oneStatus : ∀ {c : DocChunkStatus} {s' : Store},
      s'.chunkStatus = s.chunkStatus.insert docChunkStatusDAO.setId c →
      (∀ v ∈ s'.versions.rows, v.appid = session.appid → v.docid = docid →
        ∀ k, v.storageKey = some k → ∀ i ∈ c.loadChunkMap, s'.mongo.hasChunk k i = true) →
      ChunkMapTrue session.appid docid s' := by
    intro c s' same bits c' member sameApp sameDoc
    rw [same] at member
    rcases List.mem_append.mp member with old | last
    · exact absurd sameDoc (new.statusFree c' old sameApp)
    · rw [List.mem_singleton.mp last]
      exact bits
  have blank : ∀ i, i ∉ (statusRow session docid param).loadChunkMap := fun _ => Finset.notMem_empty _
  cases prepared with
  | exceeded | foundFull | overflowed | foundFault | resumedFault | newKey | newRef =>
    exact ⟨⟨new.nonzero, noVersion⟩, noStatus rfl⟩
  | found | resumedVersion => exact ⟨⟨new.nonzero, oneVersion _ _ _⟩, noStatus rfl⟩
  | resumedStatus | new =>
    exact ⟨⟨new.nonzero, oneVersion _ _ _⟩,
      oneStatus rfl fun _ _ _ _ _ _ i bit => absurd bit (blank i)⟩
  | resumed ref name key read zero named stored fits small =>
    refine ⟨⟨new.nonzero, oneVersion _ _ _⟩, oneStatus rfl ?_⟩
    intro v member sameApp sameDoc k owner i bit
    rcases List.mem_append.mp member with old | last
    · exact absurd sameDoc (new.noVersion new.nonzero v old sameApp)
    · rw [List.mem_singleton.mp last] at owner
      obtain rfl := Option.some.inj owner
      rw [DocChunkStatus.loadChunkMap_updateChunkMap] at bit
      exact Mongo.mem_queryChunkMap.mp bit

/-! ## A write -/

theorem loadChunkMap_recorded (chunkIndex : Nat) (dcs : DocChunkStatus) :
    (DocChunkStatusDAO.recorded chunkIndex dcs).loadChunkMap =
      insert chunkIndex dcs.loadChunkMap :=
  DocChunkStatus.loadChunkMap_updateChunkMap _ _

/-- **One sound write keeps the map true.** -/
theorem Written.chunkMapTrue (wf : Wf config s) {saves : Saves} {cup : ExecuteChunkUploadParam}
    {ins : InputStream} {r : Except Fault ChunkResponse} {s' : Store}
    (sound : SoundWrite session saves cup ins s) (written : Written session saves cup ins s r s')
    (only : OnlyFirst appid docid s) (mapTrue : ChunkMapTrue appid docid s) :
    OnlyFirst appid docid s' ∧ ChunkMapTrue appid docid s' := by
  cases written with
  | idle => exact ⟨only, mapTrue⟩
  | raised taken upload =>
    refine ⟨⟨only.nonzero, only.first⟩, ?_⟩
    have kept := (chunkedUpload_keeps_chunks taken.fits).apply upload
    exact fun c memberC appC docC v memberV appV docV k owner i bit =>
      kept k i (mapTrue c memberC appC docC v memberV appV docV k owner i bit)
  | @written dv key dcs m taken upload below =>
    refine ⟨⟨only.nonzero, only.first⟩, ?_⟩
    have kept := (chunkedUpload_keeps_chunks taken.fits).apply upload
    obtain ⟨⟨memberDv, appDv, docDv⟩, memberDcs, appDcs, docDcs⟩ := taken.owned sound.1
    intro c memberC appC docC v memberV appV docV k owner i bit
    rcases (wf.statusNumbered.mem_replace memberDcs).mp memberC with rfl | ⟨old, -⟩
    · -- the recorded row is that of the document, so its version is the one uploaded to
      have appC : dcs.appid = appid := appC
      have docC : dcs.docid = docid := docC
      obtain rfl : v = dv := only.unique wf memberV memberDv appV docV
        (appDv.trans (appDcs.symm.trans appC)) (docDv.trans (docDcs.symm.trans docC))
      obtain rfl : k = key := Option.some.inj (owner.symm.trans taken.stored)
      rw [loadChunkMap_recorded, Finset.mem_insert] at bit
      rcases bit with rfl | bit
      · rcases sound.2 v k dcs taken with present | delivered
        · exact kept k _ present
        · exact (delivered.hasChunk taken.fits).apply upload
      · exact kept k i (mapTrue dcs memberDcs appC docC v memberV appV docV k owner i bit)
    · exact kept k i (mapTrue c old appC docC v memberV appV docV k owner i bit)

/-! ## Runs of writes -/

/-- The invariant of a run of sound writes after `prepareUpload`. -/
structure Tracked (config : Config) (appid docid : Int) (s : Store) : Prop where
  wf : Wf config s
  only : OnlyFirst appid docid s
  mapTrue : ChunkMapTrue appid docid s

theorem exec_tracked {request : Request} (sound : soundWrites request s)
    (tracked : Tracked config appid docid s) :
    Tracked config appid docid (exec config request s) := by
  obtain ⟨session, call⟩ := request
  cases call with
  | writeChunkData saves cup ins =>
    have written := @writeChunkData_ends _ session s saves cup ins tracked.wf
    obtain ⟨only, mapTrue⟩ := written.chunkMapTrue tracked.wf sound tracked.only tracked.mapTrue
    exact ⟨exec_wf _ tracked.wf, only, mapTrue⟩
  | _ => exact absurd sound id

theorem prepareUpload_tracked (reachable : Reachable config s) {param : PrepareChunkUploadParam}
    {res : ChunkResponse} {s₁ : Store}
    (prepared : prepareUpload config session param s = (.ok res, s₁)) :
    Tracked config session.appid res.docid s₁ := by
  have wf := reachable.wf
  rcases (prepareUpload_ends wf).apply prepared with ⟨fault, impossible, -⟩ | ⟨noDoc, ends⟩
  · cases impossible
  · have new := wf.withNewDoc 0 noDoc
    have docid : res.docid = freshDocid config session s := by cases ends <;> rfl
    obtain ⟨only, mapTrue⟩ := ends.chunkMapTrue new
    exact ⟨ends.wf new, docid ▸ only, docid ▸ mapTrue⟩

/-- **The chunk map tells the truth where the writes are sound.** After a `prepareUpload` in any
reachable state, in every state that a run of sound writes leads to, every bit of the map of the
document is a stored chunk of its version; and a further sound write to the document that answers
SUCCESS has its chunk stored. -/
theorem chunkMap_true (reachable : Reachable config s) {param : PrepareChunkUploadParam}
    {res : ChunkResponse} {s₁ s₂ : Store}
    (prepared : prepareUpload config session param s = (.ok res, s₁))
    (run : Reaches (exec config) soundWrites s₁ s₂) :
    ChunkMapTrue session.appid res.docid s₂ ∧
      ∀ saves cup ins answer s₃, cup.docid = res.docid → SoundWrite session saves cup ins s₂ →
        writeChunkData session saves cup ins s₂ = (.ok answer, s₃) → answer.statusCode = .SUCCESS →
        ∃ v ∈ s₃.versions.rows, v.appid = session.appid ∧ v.docid = res.docid ∧
          ∃ k, v.storageKey = some k ∧ s₃.mongo.hasChunk k cup.index.toNat = true := by
  have tracked : Tracked config session.appid res.docid s₂ :=
    run.invariant (prepareUpload_tracked reachable prepared) fun _ _ => exec_tracked
  refine ⟨tracked.mapTrue, ?_⟩
  intro saves cup ins answer s₃ sameDoc sound wrote success
  have written := (writeChunkData_ends tracked.wf).apply wrote
  cases written with
  | idle code => exact absurd success (code _ rfl)
  | @written dv key dcs m taken upload below =>
    obtain ⟨⟨member, sameApp, owner⟩, -⟩ := taken.owned sound.1
    refine ⟨dv, member, sameApp, owner.trans sameDoc, key, taken.stored, ?_⟩
    rcases sound.2 dv key dcs taken with present | delivered
    · exact (chunkedUpload_keeps_chunks taken.fits).apply upload _ _ present
    · exact (delivered.hasChunk taken.fits).apply upload

/-- An upload of two bytes in chunks of one. -/
def twoBytes : PrepareChunkUploadParam := ⟨some "a".toList, some "m".toList, 2, 1⟩

/-- A chunk that arrives whole. -/
def wholeChunk : Call := .writeChunkData {} ⟨1, 0, 1⟩ { reads := [[7]] }

theorem soundWrites_wholeChunk (session : Session) (s : Store) :
    soundWrites ⟨session, wholeChunk⟩ s :=
  ⟨by decide, fun _ _ _ _ => .inr ⟨by decide, rfl, rfl, rfl⟩⟩

/-- After a chunk that arrived whole, the map of the upload names it and it is stored. -/
theorem chunkMap_true_wholeChunk :
    ChunkMapTrue 1 1 (storeAfter [.prepareUpload twoBytes, wholeChunk]) ∧
      (storeAfter [.prepareUpload twoBytes, wholeChunk]).mongo.hasChunk ⟨0⟩ 0 = true := by
  have prepared : prepareUpload countingConfig someSession twoBytes Store.empty =
      (.ok ⟨.prepare, 1, 0, .SUCCESS, 1, some [0, 1], some []⟩,
        storeAfter [.prepareUpload twoBytes]) :=
    Prod.ext (by decide +kernel) rfl
  have run : Reaches (exec countingConfig) soundWrites (storeAfter [.prepareUpload twoBytes])
      (storeAfter [.prepareUpload twoBytes, wholeChunk]) :=
    Reaches.tail (Request.mk someSession wholeChunk) .refl (soundWrites_wholeChunk _ _)
  exact ⟨(chunkMap_true .refl prepared run).1, by decide +kernel⟩

/-- The save outcomes, lengths and streams of writes that store nothing: a stream that ends early, an
empty chunk, a stream that fails, and a server that refuses the chunk. -/
def lostWrites : List (Saves × Int × InputStream) :=
  [({}, 1, { reads := [] }), ({}, 0, { reads := [] }), ({}, 1, { reads := [], fails := true }),
    ({ chunk := false }, 1, { reads := [[7]] })]

/-- After a prepared upload each of them, as chunk 0, is answered by SUCCESS, and the map then names a
chunk that is not there. -/
theorem chunkMap_not_true :
    (prepareUpload countingConfig someSession twoBytes Store.empty).1.toOption.map (·.docid) = some 1 ∧
      ∀ lost ∈ lostWrites,
        let s₁ := storeAfter [.prepareUpload twoBytes]
        let s₂ := storeAfter
          [.prepareUpload twoBytes, .writeChunkData lost.1 ⟨1, 0, lost.2.1⟩ lost.2.2]
        (writeChunkData someSession lost.1 ⟨1, 0, lost.2.1⟩ lost.2.2 s₁).1.toOption.map
            (·.statusCode) = some .SUCCESS ∧
          ¬ChunkMapTrue 1 1 s₂ := by
  refine ⟨by decide +kernel, ?_⟩
  intro lost member s₁ s₂
  have success : ∀ lost ∈ lostWrites, (writeChunkData someSession lost.1 ⟨1, 0, lost.2.1⟩ lost.2.2
      (storeAfter [.prepareUpload twoBytes])).1.toOption.map (·.statusCode) = some .SUCCESS := by
    decide +kernel
  have named : ∀ lost ∈ lostWrites,
      let s₂ := storeAfter [.prepareUpload twoBytes,
        .writeChunkData lost.1 ⟨1, 0, lost.2.1⟩ lost.2.2]
      ∃ dcs ∈ s₂.chunkStatus.rows, dcs.appid = 1 ∧ dcs.docid = 1 ∧ 0 ∈ dcs.loadChunkMap ∧
        ∃ v ∈ s₂.versions.rows, v.appid = 1 ∧ v.docid = 1 ∧ v.storageKey = some ⟨0⟩ ∧
          s₂.mongo.hasChunk ⟨0⟩ 0 = false := by
    decide +kernel
  refine ⟨success lost member, fun mapTrue => ?_⟩
  obtain ⟨dcs, memberC, appC, docC, bit, v, memberV, appV, docV, stored, gone⟩ := named lost member
  have present := mapTrue dcs memberC appC docC v memberV appV docV _ stored 0 bit
  rw [gone] at present
  cases present

end Clb
