/-
# Document.Uploads -- the rows of the uploads and what is stored for them

Uploads of one content share the storage key of its clb_doc_ref row. `UploadsSound` relates the chunk
status rows, the version rows and the reference rows to the collections: what is stored under the key
of a reference row is a part of one file, cut as every upload of the content cuts it, the chunk maps
name stored chunks only, and a content that was counted is stored whole (`UploadsSound.holdsFile`).
It takes care on the side of the clients to keep it: the lemmas here name what each change needs. -/
import Clb.Document.System
import Clb.Storage.Partial

set_option autoImplicit false

namespace Clb

open Clb.Lib Clb.Dao Clb.Lib.Action DocumentFacade MongoStorageService

variable {r : DocRef} {c c' : DocChunkStatus}

/-- The reference row is that of the content of the upload. -/
def SameContent (c : DocChunkStatus) (r : DocRef) : Prop := r.md5 = c.md5 ∧ r.size = c.fileSize

/-- The sizes of an upload. -/
structure Declared (c : DocChunkStatus) : Prop where
  size : 0 < c.fileSize
  chunkSize : 0 < c.chunkSize
  small : c.chunkSize ≤ MAX_CHUNK_SIZE
  count : c.numOfChunk = numOfChunk c.fileSize c.chunkSize

/-- What identifies an upload: everything but the progress. -/
def uploadOf (c : DocChunkStatus) : Int × Int × Option Text × Int × Int × Int :=
  (c.appid, c.docid, c.md5, c.fileSize, c.chunkSize, c.numOfChunk)

theorem uploadOf_eq :
    uploadOf c = uploadOf c' ↔ c.appid = c'.appid ∧ c.docid = c'.docid ∧ c.md5 = c'.md5 ∧
      c.fileSize = c'.fileSize ∧ c.chunkSize = c'.chunkSize ∧ c.numOfChunk = c'.numOfChunk := by
  simp only [uploadOf, Prod.mk.injEq]

theorem Declared.of_uploadOf (declared : Declared c)
    (same : uploadOf c = uploadOf c') : Declared c' := by
  obtain ⟨-, -, -, fileSize, chunkSize, numOfChunk⟩ := uploadOf_eq.mp same
  obtain ⟨size, positive, small, count⟩ := declared
  rw [fileSize, chunkSize, numOfChunk] at *
  exact ⟨size, positive, small, count⟩

theorem SameContent.of_uploadOf (content : SameContent c r)
    (same : uploadOf c = uploadOf c') : SameContent c' r := by
  obtain ⟨-, -, md5, fileSize, -⟩ := uploadOf_eq.mp same
  exact ⟨content.1.trans md5, content.2.trans fileSize⟩

/-- The version of an upload has the key of its content, under which the chunks of its map are. -/
structure Tracks (c : DocChunkStatus) (v : DocVersion) (r : DocRef) (k : ObjectId) (m : Mongo) :
    Prop where
  content : SameContent c r
  refKey : r.storageKey = some k
  key : v.storageKey = some k
  first : v.version = 1
  size : v.size = c.fileSize
  map : ∀ i ∈ c.loadChunkMap, m.hasChunk k i = true

/-- Every chunk that an upload of the content has is stored, and its chunk map can name them. -/
def StoredWhole (c : DocChunkStatus) (r : DocRef) (m : Mongo) : Prop :=
  SameContent c r ∧ pieceCount r.size.toNat c.chunkSize.toNat ≤ mapLimit ∧
    ∀ k, r.storageKey = some k → ∀ n < pieceCount r.size.toNat c.chunkSize.toNat,
      m.hasChunk k n = true

structure UploadsSoundIn (versions : Table DocVersion) (refs : Table DocRef)
    (chunkStatus : Table DocChunkStatus) (m : Mongo) : Prop where
  declared : ∀ c ∈ chunkStatus.rows, Declared c ∧ ∃ r ∈ refs.rows, SameContent c r
  oneSize : ∀ c ∈ chunkStatus.rows, ∀ c' ∈ chunkStatus.rows, c'.md5 = c.md5 →
    c'.fileSize = c.fileSize → c'.chunkSize = c.chunkSize
  tracked : ∀ c ∈ chunkStatus.rows, ∀ v ∈ versions.rows, v.appid = c.appid → v.docid = c.docid →
    ∃ r ∈ refs.rows, ∃ k, Tracks c v r k m
  stored : ∀ r ∈ refs.rows, 0 < r.size ∧ ∃ k, r.storageKey = some k ∧
    ∀ chunkSize : Int, 0 < chunkSize →
      (∀ c ∈ chunkStatus.rows, SameContent c r → c.chunkSize = chunkSize) →
      PartialFile k r.size.toNat chunkSize.toNat m
  counted : ∀ r ∈ refs.rows, 0 < r.ref → ∃ c ∈ chunkStatus.rows, StoredWhole c r m

/-- What the uploads of a store rely on. -/
def UploadsSound (s : Store) : Prop := UploadsSoundIn s.versions s.refs s.chunkStatus s.mongo

namespace UploadsSound

variable {config : Config} {session : Session} {s : Store}

theorem empty : UploadsSound Store.empty where
  declared := fun _ => Wf.absent
  oneSize := fun _ => Wf.absent
  tracked := fun _ => Wf.absent
  stored := fun _ => Wf.absent
  counted := fun _ => Wf.absent

/-- The content of a reference row is cut in one way. -/
theorem cut (sound : UploadsSound s) (r : DocRef) :
    ∃ chunkSize : Int, 0 < chunkSize ∧
      ∀ c ∈ s.chunkStatus.rows, SameContent c r → c.chunkSize = chunkSize := by
  by_cases upload : ∃ c ∈ s.chunkStatus.rows, SameContent c r
  · obtain ⟨c, memberC, same⟩ := upload
    refine ⟨c.chunkSize, (sound.declared c memberC).1.chunkSize, fun c' memberC' same' => ?_⟩
    exact sound.oneSize c memberC c' memberC' (same'.1.symm.trans same.1) (same'.2.symm.trans same.2)
  · exact ⟨1, by decide, fun c memberC same => absurd ⟨c, memberC, same⟩ upload⟩

/-- **A content that is stored whole is a file.** -/
theorem holdsFile (sound : UploadsSound s) (wf : Wf config s) (member : r ∈ s.refs.rows)
    (whole : ∃ c ∈ s.chunkStatus.rows, StoredWhole c r s.mongo) :
    ∃ k, r.storageKey = some k ∧ s.mongo.HoldsFile k r.size := by
  obtain ⟨c, memberC, same, few, all⟩ := whole
  obtain ⟨size_pos, k, owner, part⟩ := sound.stored r member
  have chunkSize_pos := (sound.declared c memberC).1.chunkSize
  have one := part c.chunkSize chunkSize_pos fun c' memberC' same' =>
    sound.oneSize c memberC c' memberC' (same'.1.symm.trans same.1) (same'.2.symm.trans same.2)
  have holds := one.holdsFile wf.mongo (by omega) (by omega) few (all k owner)
  rw [Int.toNat_of_nonneg (by omega)] at holds
  exact ⟨k, owner, holds⟩

/-! ## Changes of the tables -/

theorem addVersion (sound : UploadsSound s) {v : DocVersion}
    (free : ∀ c ∈ s.chunkStatus.rows, c.appid = v.appid → c.docid ≠ v.docid) :
    UploadsSound (s.addVersion v) :=
  { sound with
    tracked := by
      intro c memberC v' member sameApp sameDoc
      rcases List.mem_append.mp member with old | new
      · exact sound.tracked c memberC v' old sameApp sameDoc
      · obtain rfl := List.mem_singleton.mp new
        exact absurd sameDoc.symm (free c memberC sameApp.symm) }

theorem complete (sound : UploadsSound s) (appid docid version : Int) :
    UploadsSound (s.complete appid docid version) :=
  { sound with
    tracked := by
      intro c memberC v member
      obtain ⟨old, memberOld, rfl⟩ := List.mem_map.mp member
      have tracked := sound.tracked c memberC old memberOld
      split
      · intro sameApp sameDoc
        obtain ⟨r, memberR, k, tracks⟩ := tracked sameApp sameDoc
        exact ⟨r, memberR, k, { tracks with }⟩
      · exact tracked }

theorem addStatus (sound : UploadsSound s) {c : DocChunkStatus} (declared : Declared c)
    (member : r ∈ s.refs.rows) (content : SameContent c r)
    (oneSize : ∀ c' ∈ s.chunkStatus.rows, c'.md5 = c.md5 → c'.fileSize = c.fileSize →
      c'.chunkSize = c.chunkSize)
    (tracked : ∀ v ∈ s.versions.rows, v.appid = c.appid → v.docid = c.docid →
      ∃ k, Tracks c v r k s.mongo) :
    UploadsSound (s.addStatus c) where
  declared := Table.forall_mem_insert sound.declared ⟨{ declared with }, r, member, content⟩
  oneSize := by
    refine Table.forall_mem_insert (fun c₁ member₁ => ?_) ?_
    · refine Table.forall_mem_insert (sound.oneSize c₁ member₁) fun md5 size => ?_
      exact (oneSize c₁ member₁ md5.symm size.symm).symm
    · exact Table.forall_mem_insert oneSize fun _ _ => rfl
  tracked := by
    refine Table.forall_mem_insert sound.tracked fun v memberV sameApp sameDoc => ?_
    obtain ⟨k, tracks⟩ := tracked v memberV sameApp sameDoc
    exact ⟨r, member, k, { tracks with }⟩
  stored := by
    intro r' member'
    obtain ⟨positive, k, owner, part⟩ := sound.stored r' member'
    refine ⟨positive, k, owner, fun chunkSize chunkSize_pos cut => part chunkSize chunkSize_pos ?_⟩
    exact fun c' memberC' => cut c' (List.mem_append_left _ memberC')
  counted := by
    intro r' member' positive
    obtain ⟨c', memberC', whole⟩ := sound.counted r' member' positive
    exact ⟨c', List.mem_append_left _ memberC', whole⟩

/-- A status row may change in its chunk map, as long as that names stored chunks. -/
theorem replaceStatus (sound : UploadsSound s) (wf : Wf config s) {old new : DocChunkStatus}
    (member : old ∈ s.chunkStatus.rows) (same : uploadOf new = uploadOf old)
    (map : ∀ v ∈ s.versions.rows, v.appid = old.appid → v.docid = old.docid →
      ∀ k, v.storageKey = some k → ∀ i ∈ new.loadChunkMap, s.mongo.hasChunk k i = true) :
    UploadsSound (s.replaceStatus old new) := by
  have mem_iff : ∀ {c}, c ∈ (s.replaceStatus old new).chunkStatus.rows ↔
      c = new ∨ (c ∈ s.chunkStatus.rows ∧ c ≠ old) := wf.statusNumbered.mem_replace member
  -- the rows before and after are uploads of the same contents with the same sizes
  have before : ∀ c ∈ (s.replaceStatus old new).chunkStatus.rows,
      ∃ c' ∈ s.chunkStatus.rows, uploadOf c' = uploadOf c := by
    intro c memberC
    rcases mem_iff.mp memberC with rfl | ⟨memberC, -⟩
    · exact ⟨old, member, same.symm⟩
    · exact ⟨c, memberC, rfl⟩
  have after : ∀ c ∈ s.chunkStatus.rows,
      ∃ c' ∈ (s.replaceStatus old new).chunkStatus.rows, uploadOf c' = uploadOf c := by
    intro c memberC
    by_cases equal : c = old
    · exact ⟨new, mem_iff.mpr (.inl rfl), equal ▸ same⟩
    · exact ⟨c, mem_iff.mpr (.inr ⟨memberC, equal⟩), rfl⟩
  constructor
  · intro c memberC
    obtain ⟨c', memberC', equal⟩ := before c memberC
    obtain ⟨declared, r, memberR, content⟩ := sound.declared c' memberC'
    exact ⟨declared.of_uploadOf equal, r, memberR, content.of_uploadOf equal⟩
  · intro c₁ member₁ c₂ member₂ md5 size
    obtain ⟨c₁', member₁', equal₁⟩ := before c₁ member₁
    obtain ⟨c₂', member₂', equal₂⟩ := before c₂ member₂
    obtain ⟨-, -, md5₁, size₁, chunkSize₁, -⟩ := uploadOf_eq.mp equal₁
    obtain ⟨-, -, md5₂, size₂, chunkSize₂, -⟩ := uploadOf_eq.mp equal₂
    rw [← chunkSize₁, ← chunkSize₂]
    refine sound.oneSize c₁' member₁' c₂' member₂' ?_ ?_
    · rw [md5₁, md5₂, md5]
    · rw [size₁, size₂, size]
  · intro c memberC v memberV sameApp sameDoc
    rcases mem_iff.mp memberC with rfl | ⟨memberC, -⟩
    · obtain ⟨appid, docid, -, fileSize, -, -⟩ := uploadOf_eq.mp same
      obtain ⟨r, memberR, k, tracks⟩ := sound.tracked old member v memberV (sameApp.trans appid)
        (sameDoc.trans docid)
      refine ⟨r, memberR, k, { tracks with
        content := tracks.content.of_uploadOf same.symm
        size := tracks.size.trans fileSize.symm
        map := ?_ }⟩
      exact map v memberV (sameApp.trans appid) (sameDoc.trans docid) k tracks.key
    · exact sound.tracked c memberC v memberV sameApp sameDoc
  · intro r memberR
    obtain ⟨positive, k, owner, part⟩ := sound.stored r memberR
    refine ⟨positive, k, owner, fun chunkSize chunkSize_pos cut => part chunkSize chunkSize_pos ?_⟩
    intro c memberC content
    obtain ⟨c', memberC', equal⟩ := after c memberC
    rw [← (uploadOf_eq.mp equal).2.2.2.2.1]
    exact cut c' memberC' (content.of_uploadOf equal.symm)
  · intro r memberR positive
    obtain ⟨c, memberC, content, whole⟩ := sound.counted r memberR positive
    obtain ⟨c', memberC', equal⟩ := after c memberC
    exact ⟨c', memberC', content.of_uploadOf equal.symm, (uploadOf_eq.mp equal).2.2.2.2.1 ▸ whole⟩

/-- Counting needs a content that is stored whole. -/
theorem editRefs (sound : UploadsSound s) {selected : DocRef → Bool} {edit : Int → Int}
    (whole : ∀ r ∈ s.refs.rows, selected r = true → ∃ c ∈ s.chunkStatus.rows,
      StoredWhole c r s.mongo) :
    UploadsSound (s.editRefs selected edit) := by
  have after : ∀ r ∈ s.refs.rows, ∃ r' ∈ (s.editRefs selected edit).refs.rows,
      r'.md5 = r.md5 ∧ r'.size = r.size ∧ r'.storageKey = r.storageKey := by
    intro r member
    refine ⟨_, List.mem_map.mpr ⟨r, member, rfl⟩, ?_⟩
    split <;> exact ⟨rfl, rfl, rfl⟩
  constructor
  · intro c memberC
    obtain ⟨declared, r, memberR, content⟩ := sound.declared c memberC
    obtain ⟨r', memberR', md5, size, -⟩ := after r memberR
    exact ⟨declared, r', memberR', md5.trans content.1, size.trans content.2⟩
  · exact sound.oneSize
  · intro c memberC v memberV sameApp sameDoc
    obtain ⟨r, memberR, k, tracks⟩ := sound.tracked c memberC v memberV sameApp sameDoc
    obtain ⟨r', memberR', md5, size, key⟩ := after r memberR
    exact ⟨r', memberR', k, { tracks with
      content := ⟨md5.trans tracks.content.1, size.trans tracks.content.2⟩
      refKey := key.trans tracks.refKey }⟩
  · exact Table.forall_mem_update sound.stored fun _ _ stored => stored
  · intro r' memberR' positive
    rcases Table.mem_update.mp memberR' with ⟨r, memberR, chosen, rfl⟩ | ⟨memberR, -⟩
    · exact whole r memberR chosen
    · exact sound.counted r' memberR positive

/-- A new content under a key that nothing is stored under. -/
theorem addRef (sound : UploadsSound s) {k : ObjectId} (positive : 0 < r.size)
    (zero : r.ref = 0) (owner : r.storageKey = some k)
    (unused : ∀ chunkSize : Nat, PartialFile k r.size.toNat chunkSize s.mongo) :
    UploadsSound (s.addRef r) := by
  constructor
  · intro c memberC
    obtain ⟨declared, r', memberR', content⟩ := sound.declared c memberC
    exact ⟨declared, r', List.mem_append_left _ memberR', content⟩
  · exact sound.oneSize
  · intro c memberC v memberV sameApp sameDoc
    obtain ⟨r', memberR', tracked⟩ := sound.tracked c memberC v memberV sameApp sameDoc
    exact ⟨r', List.mem_append_left _ memberR', tracked⟩
  · exact Table.forall_mem_insert sound.stored ⟨positive, k, owner, fun _ _ _ => unused _⟩
  · refine Table.forall_mem_insert sound.counted fun counted => ?_
    change 0 < r.ref at counted
    omega

/-! ## Changes of the collections -/

/-- The content of the reference rows may grow, or be deleted where neither a version row that is
left nor a counted reference needs it. -/
theorem withMongo (sound : UploadsSound s) {versions : Table DocVersion} {m : Mongo}
    (rows : ∀ v ∈ versions.rows, v ∈ s.versions.rows)
    (parts : ∀ r ∈ s.refs.rows, ∀ k, r.storageKey = some k → ∀ chunkSize : Int, 0 < chunkSize →
      (∀ c ∈ s.chunkStatus.rows, SameContent c r → c.chunkSize = chunkSize) →
      PartialFile k r.size.toNat chunkSize.toNat s.mongo →
      PartialFile k r.size.toNat chunkSize.toNat m)
    (kept : ∀ r ∈ s.refs.rows, ∀ k, r.storageKey = some k →
      (∃ v ∈ versions.rows, v.storageKey = some k) ∨ 0 < r.ref →
      ∀ n, s.mongo.hasChunk k n = true → m.hasChunk k n = true) :
    UploadsSound { s with versions := versions, mongo := m } := by
  constructor
  · exact sound.declared
  · exact sound.oneSize
  · intro c memberC v memberV sameApp sameDoc
    obtain ⟨r, memberR, k, tracks⟩ := sound.tracked c memberC v (rows v memberV) sameApp sameDoc
    exact ⟨r, memberR, k, { tracks with
      map := fun i bit =>
        kept r memberR k tracks.refKey (.inl ⟨v, memberV, tracks.key⟩) i (tracks.map i bit) }⟩
  · intro r memberR
    obtain ⟨positive, k, owner, part⟩ := sound.stored r memberR
    exact ⟨positive, k, owner, fun chunkSize chunkSize_pos cut =>
      parts r memberR k owner chunkSize chunkSize_pos cut (part chunkSize chunkSize_pos cut)⟩
  · intro r memberR positive
    obtain ⟨c, memberC, content, few, all⟩ := sound.counted r memberR positive
    exact ⟨c, memberC, content, few, fun k owner n within =>
      kept r memberR k owner (.inr positive) n (all k owner n within)⟩

end UploadsSound

end Clb
