/-
# Storage.Partial -- a file that is uploaded piece by piece

`PartialFile key length chunkSize` says that what the collections hold under a storage key is a part
of one file of `length` bytes in chunks of `chunkSize`: every chunk has the length of its piece, every
entry is that of the file, and the entry is there once the last chunk is, unless there are more chunks
than a chunk map can record. A received piece keeps it
(`PartialFile.received`), so does a repeated one (`PartialFile.present`) and every removal
(`PartialFile.delete`); with all chunks there it is a file of `length` bytes
(`PartialFile.holdsFile`). What happens under other keys does not matter (`Mongo.Agree`).
`PiecesOf content chunkSize` is the same for a known content; there the whole file reads as it
(`PiecesOf.storedBytes`). -/
import Clb.Dao.ChunkStatus
import Clb.Storage.WellFormed

set_option autoImplicit false

namespace Clb

open Clb.Lib Clb.Dao MongoStorageService

/-- The key resolves to a stored file of `size` bytes. -/
def Mongo.HoldsFile (key : ObjectId) (size : Int) (m : Mongo) : Prop :=
  ∃ f ∈ m.readFile key, f.length = size ∧ ∃ bytes ∈ m.content f, (bytes.length : Int) = size

instance (key : ObjectId) (size : Int) (m : Mongo) : Decidable (m.HoldsFile key size) :=
  inferInstanceAs (Decidable (∃ f ∈ m.readFile key, _))

/-- Two states hold the same under a key. -/
structure Mongo.Agree (key : ObjectId) (m m' : Mongo) : Prop where
  chunks : ∀ c : GridFSChunk, c.filesId = key → (c ∈ m'.chunks ↔ c ∈ m.chunks)
  files : ∀ f : GridFSFile, f.id = key ∨ f.storageKey = key → (f ∈ m'.files ↔ f ∈ m.files)

structure PartialFile (key : ObjectId) (length chunkSize : Nat) (m : Mongo) : Prop where
  pieces : ∀ c ∈ m.chunks, c.filesId = key → c.data.length = pieceLength length chunkSize c.n
  files : ∀ f ∈ m.files, f.id = key ∨ f.storageKey = key →
    f.id = key ∧ f.storageKey = key ∧ f.length = length ∧ f.chunkSize = chunkSize
  header : pieceCount length chunkSize ≤ mapLimit →
    m.hasChunk key (pieceCount length chunkSize - 1) = true → ∃ f ∈ m.files, f.storageKey = key

namespace Mongo.Agree

variable {key : ObjectId} {m m' : Mongo}

theorem refl (key : ObjectId) (m : Mongo) : Agree key m m :=
  ⟨fun _ _ => Iff.rfl, fun _ _ => Iff.rfl⟩

theorem trans {m'' : Mongo} (agree : Agree key m m') (agree' : Agree key m' m'') :
    Agree key m m'' :=
  ⟨fun c owner => (agree'.chunks c owner).trans (agree.chunks c owner),
    fun f owner => (agree'.files f owner).trans (agree.files f owner)⟩

theorem hasChunk (agree : Agree key m m') {n : Nat} :
    m'.hasChunk key n = true ↔ m.hasChunk key n = true := by
  rw [hasChunk_iff, hasChunk_iff]
  refine exists_congr fun c => ⟨?_, ?_⟩
  · rintro ⟨member, owner, number⟩
    exact ⟨(agree.chunks c owner).mp member, owner, number⟩
  · rintro ⟨member, owner, number⟩
    exact ⟨(agree.chunks c owner).mpr member, owner, number⟩

theorem addChunk {c : GridFSChunk} (other : c.filesId ≠ key) : Agree key m (m.addChunk c) where
  files := fun _ _ => Iff.rfl
  chunks := by
    intro c' owner
    simp only [Mongo.addChunk, List.mem_append, List.mem_singleton, or_iff_left_iff_imp]
    rintro rfl
    exact absurd owner other

theorem putFile {f : GridFSFile} (otherId : f.id ≠ key) (otherKey : f.storageKey ≠ key)
    (apart : ∀ g ∈ m.files, g.id = f.id → g.storageKey ≠ key) : Agree key m (m.putFile f) where
  chunks := fun _ _ => Iff.rfl
  files := by
    intro g owner
    constructor
    · intro member
      rcases mem_putFile member with rfl | ⟨old, -⟩
      · rcases owner with id | storageKey
        · exact absurd id otherId
        · exact absurd storageKey otherKey
      · exact old
    · intro member
      refine mem_putFile_of_ne member fun same => ?_
      rcases owner with id | storageKey
      · exact otherId (same.symm.trans id)
      · exact apart g member same storageKey

/-- The driver writes under an id of its own, and an entry of the key it is given. -/
theorem driven {mf : MFile} {bytes : Bytes} {r : Except Fault Unit} (issued : key.serial < m.issued)
    (other : mf.storageKey ≠ key) (wrote : Driven mf bytes m r m') : Agree key m m' := by
  have fresh : (⟨m.issued⟩ : ObjectId) ≠ key := by
    rintro rfl
    exact Nat.lt_irrefl _ issued
  have chunks : ∀ count, ∀ c : GridFSChunk, c.filesId = key →
      (c ∈ m.chunks ++ driverChunks ⟨m.issued⟩ bytes count ↔ c ∈ m.chunks) := by
    intro count c owner
    rw [List.mem_append, or_iff_left_iff_imp]
    intro new
    obtain ⟨n, -, rfl⟩ := MongoWf.mem_driverChunks.mp new
    exact absurd owner fresh
  cases wrote with
  | broken fault uncaught count => exact ⟨chunks count, fun _ _ => Iff.rfl⟩
  | whole =>
    refine ⟨chunks _, fun f owner => ?_⟩
    rw [List.mem_append, or_iff_left_iff_imp, List.mem_singleton]
    rintro rfl
    rcases owner with id | storageKey
    · exact absurd id fresh
    · exact absurd storageKey other

end Mongo.Agree

namespace PartialFile

variable {key : ObjectId} {length chunkSize : Nat} {m m' : Mongo}

/-- Nothing at all is a part of any file. -/
theorem unused (noChunk : ∀ c ∈ m.chunks, c.filesId ≠ key)
    (noFile : ∀ f ∈ m.files, f.id ≠ key ∧ f.storageKey ≠ key) :
    PartialFile key length chunkSize m where
  pieces := fun c member owner => absurd owner (noChunk c member)
  files := by
    rintro f member (id | storageKey)
    · exact absurd id (noFile f member).1
    · exact absurd storageKey (noFile f member).2
  header := by
    intro _ last
    obtain ⟨c, member, owner, -⟩ := Mongo.hasChunk_iff.mp last
    exact absurd owner (noChunk c member)

theorem of_agree (part : PartialFile key length chunkSize m) (agree : Mongo.Agree key m m') :
    PartialFile key length chunkSize m' where
  pieces := fun c member owner => part.pieces c ((agree.chunks c owner).mp member) owner
  files := fun f member owner => part.files f ((agree.files f owner).mp member) owner
  header := by
    intro few last
    obtain ⟨f, member, owner⟩ := part.header few (agree.hasChunk.mp last)
    exact ⟨f, (agree.files f (.inr owner)).mpr member, owner⟩

/-- What a file whose chunks are all there reads as. -/
theorem content_eq (part : PartialFile key length chunkSize m) (wf : MongoWf m)
    (positive : 0 < chunkSize) (nonempty : 0 < length) (few : pieceCount length chunkSize ≤ mapLimit)
    {data : Nat → Bytes}
    (all : ∀ n < pieceCount length chunkSize, ∃ c ∈ m.chunks, c.filesId = key ∧ c.n = n ∧ c.data = data n) :
    ∃ f, m.readFile key = some f ∧ f.length = length ∧
      m.content f = some ((List.range (pieceCount length chunkSize)).map data).flatten := by
  have counted := pieceCount_pos positive nonempty
  have last : m.hasChunk key (pieceCount length chunkSize - 1) = true := by
    obtain ⟨c, member, owner, number, -⟩ := all (pieceCount length chunkSize - 1) (by omega)
    exact Mongo.hasChunk_iff.mpr ⟨c, member, owner, number⟩
  obtain ⟨f, found⟩ := Option.isSome_iff_exists.mp
    (Mongo.readFile_isSome_iff.mpr (part.header few last))
  obtain ⟨member, owner⟩ := Mongo.readFile_eq_some found
  obtain ⟨id, -, sameLength, sameSize⟩ := part.files f member (.inr owner)
  have count : pieceCount f.length.toNat f.chunkSize.toNat = pieceCount length chunkSize := by
    rw [sameLength, sameSize, Int.toNat_natCast, Int.toNat_natCast]
  refine ⟨f, found, sameLength, ?_⟩
  rw [← count]
  refine Mongo.content_of_chunks (by omega) fun n within => ?_
  obtain ⟨c, memberC, ownerC, number, bytes⟩ := all n (count ▸ within)
  exact ⟨c, (Mongo.findChunk_eq_some_iff wf).mpr ⟨memberC, ownerC.trans id.symm, number⟩, bytes⟩

/-- **A file whose chunks are all there is stored whole.** -/
theorem holdsFile (part : PartialFile key length chunkSize m) (wf : MongoWf m)
    (positive : 0 < chunkSize) (nonempty : 0 < length) (few : pieceCount length chunkSize ≤ mapLimit)
    (all : ∀ n < pieceCount length chunkSize, m.hasChunk key n = true) : m.HoldsFile key length := by
  let data : Nat → Bytes := fun n => ((m.findChunk key n).map (·.data)).getD []
  have chunk : ∀ n < pieceCount length chunkSize, ∃ c ∈ m.chunks, c.filesId = key ∧ c.n = n ∧
      c.data = data n := by
    intro n within
    obtain ⟨c, memberC, ownerC, number⟩ := Mongo.hasChunk_iff.mp (all n within)
    have foundC := (Mongo.findChunk_eq_some_iff wf).mpr ⟨memberC, ownerC, number⟩
    exact ⟨c, memberC, ownerC, number, by simp only [data, foundC, Option.map_some, Option.getD_some]⟩
  obtain ⟨f, found, sameLength, content⟩ := part.content_eq wf positive nonempty few chunk
  refine ⟨f, found, sameLength, _, content, ?_⟩
  have lengths : ((List.range (pieceCount length chunkSize)).map data).map List.length =
      (List.range (pieceCount length chunkSize)).map fun n => pieceLength length chunkSize n := by
    rw [List.map_map]
    refine List.map_congr_left fun n member => ?_
    obtain ⟨c, memberC, ownerC, rfl, bytes⟩ := chunk n (List.mem_range.mp member)
    rw [Function.comp_apply, ← bytes, part.pieces c memberC ownerC]
  rw [List.length_flatten, lengths, sum_pieceLength length positive]

/-! ## Uploads -/

section Upload

variable {mf : MFile} {chunkIndex : Nat} {chunkCount size : Int} {bytes : Bytes}

/-- The entry written with the last chunk is that of the file. -/
theorem putHeader (part : PartialFile key length chunkSize m) (owner : mf.storageKey = key)
    (declared : mf.length = length) (cut : size = chunkSize) :
    PartialFile key length chunkSize (m.putFile (MongoStorageService.header mf size)) where
  pieces := part.pieces
  files := by
    intro f member own
    rcases Mongo.mem_putFile member with rfl | ⟨old, -⟩
    · exact ⟨owner, owner, declared, cut⟩
    · exact part.files f old own
  header := fun _ _ => ⟨_, Mongo.mem_putFile_self, owner⟩

/-- A piece that arrives whole; the last one brings the entry. -/
theorem received (part : PartialFile key length chunkSize m) (owner : mf.storageKey = key)
    (declared : mf.length = length) (cut : size = chunkSize)
    (counted : pieceCount length chunkSize ≤ mapLimit → chunkCount = pieceCount length chunkSize)
    (within : chunkIndex < pieceCount length chunkSize)
    (sized : bytes.length = pieceLength length chunkSize chunkIndex) :
    PartialFile key length chunkSize
      (MongoStorageService.received m mf chunkIndex chunkCount size bytes) where
  pieces := by
    intro c member own
    rcases mem_chunks_received member with old | ⟨-, rfl⟩
    · exact part.pieces c old own
    · exact sized
  files := by
    intro f member own
    rcases mem_files_received member with old | rfl
    · exact part.files f old own
    · exact ⟨owner, owner, declared, cut⟩
  header := by
    intro few
    have := counted few
    exact owner ▸ header_received (by omega) (owner ▸ part.header few)

/-- A piece that is there already; the last one brings the entry again. -/
theorem present (part : PartialFile key length chunkSize m) (owner : mf.storageKey = key)
    (declared : mf.length = length) (cut : size = chunkSize) {saves : Saves} {data : InputStream}
    {dataLength : Int} (fits : dataLength ≤ size) (there : m.hasChunk key chunkIndex = true) :
    Action.Ends (chunkedUpload saves chunkIndex chunkCount data dataLength mf size) m
      fun _ m' => PartialFile key length chunkSize m' := by
  have same : ∀ m₁, Adds mf.storageKey chunkIndex dataLength m m₁ → m₁ = m := by
    rintro m₁ (rfl | ⟨-, -, -, free, -⟩)
    · rfl
    · rw [owner, there] at free
      cases free
  refine (chunkedUpload_ends fits).mono ?_
  rintro _ m' (added | ⟨-, -, m₁, added, rfl⟩)
  · rw [same m' added]
    exact part
  · rw [same m₁ added]
    exact part.putHeader owner declared cut

/-- An upload under another key. -/
theorem agree_chunkedUpload (part : PartialFile key length chunkSize m) (other : mf.storageKey ≠ key)
    {saves : Saves} {data : InputStream} {dataLength : Int} (fits : dataLength ≤ size) :
    Action.Ends (chunkedUpload saves chunkIndex chunkCount data dataLength mf size) m
      fun _ m' => Mongo.Agree key m m' := by
  have added : ∀ m₁, Adds mf.storageKey chunkIndex dataLength m m₁ → Mongo.Agree key m m₁ := by
    rintro m₁ (rfl | ⟨data, -, -, -, rfl⟩)
    · exact .refl key m₁
    · exact .addChunk other
  refine (chunkedUpload_ends fits).mono ?_
  rintro _ m' (adds | ⟨-, -, m₁, adds, rfl⟩)
  · exact added m' adds
  · refine (added m₁ adds).trans (.putFile other other fun g member id owner => ?_)
    have own := (part.of_agree (added m₁ adds)).files g member (.inr owner)
    exact other (id.symm.trans own.1)

end Upload

/-! ## Removals -/

/-- Deleting another key leaves what is under this one. -/
theorem agree_delete (part : PartialFile key length chunkSize m) {other : ObjectId}
    (ne : key ≠ other) : Mongo.Agree key m (deleteMetaAndContent other m) := by
  have kept : key ∉ (m.files.filter fun f => f.storageKey == other).map (·.id) := by
    rw [MongoWf.mem_removed_iff]
    rintro ⟨f, member, owner, id⟩
    exact ne ((part.files f member (.inl id)).2.1.symm.trans owner)
  refine ⟨fun c owner => ?_, fun f owner => ?_⟩
  · refine List.mem_filter.trans (and_iff_left ?_)
    simpa [owner] using kept
  · refine List.mem_filter.trans ⟨And.left, fun member => ⟨member, ?_⟩⟩
    simpa [(part.files f member owner).1] using kept

/-- Deleting a key takes all of its chunks if it has an entry, and nothing otherwise. -/
theorem delete (part : PartialFile key length chunkSize m) (deleted : ObjectId) :
    PartialFile key length chunkSize (deleteMetaAndContent deleted m) := by
  by_cases own : key = deleted
  · subst own
    refine ⟨fun c member => part.pieces c (List.mem_of_mem_filter member),
      fun f member => part.files f (List.mem_of_mem_filter member), fun few last => ?_⟩
    obtain ⟨c, member, owner, number⟩ := Mongo.hasChunk_iff.mp last
    obtain ⟨memberC, kept⟩ := List.mem_filter.mp member
    obtain ⟨f, memberF, ownerF⟩ := part.header few (Mongo.hasChunk_iff.mpr ⟨c, memberC, owner, number⟩)
    -- the entry is there, so its chunks are deleted
    have removed : key ∈ (m.files.filter fun f => f.storageKey == key).map (·.id) :=
      MongoWf.mem_removed_iff.mpr ⟨f, memberF, ownerF, (part.files f memberF (.inr ownerF)).1⟩
    simp [owner, removed] at kept
  · exact part.of_agree (part.agree_delete own)

end PartialFile

/-! ## The pieces of one content -/

/-- What is stored under a key are pieces of `content`, and the entry is there if the last piece is. -/
structure PiecesOf (content : Bytes) (chunkSize : Nat) (key : ObjectId) (m : Mongo) : Prop where
  data : ∀ c ∈ m.chunks, c.filesId = key →
    c.n < pieceCount content.length chunkSize ∧ c.data = piece chunkSize c.n content
  files : ∀ f ∈ m.files, f.storageKey = key →
    f.id = key ∧ f.length = content.length ∧ f.chunkSize = chunkSize
  header : m.hasChunk key (pieceCount content.length chunkSize - 1) = true →
    ∃ f ∈ m.files, f.storageKey = key

namespace PiecesOf

variable {content : Bytes} {chunkSize : Nat} {key : ObjectId} {m : Mongo}

theorem unused (noChunk : ∀ c ∈ m.chunks, c.filesId ≠ key)
    (noFile : ∀ f ∈ m.files, f.storageKey ≠ key) : PiecesOf content chunkSize key m where
  data := fun c member owner => absurd owner (noChunk c member)
  files := fun f member owner => absurd owner (noFile f member)
  header := by
    intro last
    obtain ⟨c, member, owner, -⟩ := Mongo.hasChunk_iff.mp last
    exact absurd owner (noChunk c member)

theorem congr {m' : Mongo} (pieces : PiecesOf content chunkSize key m)
    (chunks : m'.chunks = m.chunks) (files : m'.files = m.files) :
    PiecesOf content chunkSize key m' where
  data := chunks ▸ pieces.data
  files := files ▸ pieces.files
  header := by
    intro last
    rw [Mongo.hasChunk_iff, chunks, ← Mongo.hasChunk_iff] at last
    exact files ▸ pieces.header last

/-- A piece that arrives, for the first time or again; the last one brings the entry. -/
theorem received (pieces : PiecesOf content chunkSize key m) {mf : MFile} {chunkIndex : Nat}
    {chunkCount size : Int} (owner : mf.storageKey = key) (declared : mf.length = content.length)
    (cut : size = chunkSize) (counted : chunkCount = pieceCount content.length chunkSize)
    (within : chunkIndex < pieceCount content.length chunkSize) :
    PiecesOf content chunkSize key
      (MongoStorageService.received m mf chunkIndex chunkCount size
        (piece chunkSize chunkIndex content)) where
  data := by
    intro c member own
    rcases mem_chunks_received member with old | ⟨-, rfl⟩
    · exact pieces.data c old own
    · exact ⟨within, rfl⟩
  files := by
    intro f member own
    rcases mem_files_received member with old | rfl
    · exact pieces.files f old own
    · exact ⟨owner, declared, cut⟩
  header := owner ▸ header_received (by omega) (owner ▸ pieces.header)

/-- **Once every piece is there the file reads as the content.** -/
theorem storedBytes (pieces : PiecesOf content chunkSize key m) (wf : MongoWf m)
    (positive : 0 < chunkSize) (nonempty : content ≠ [])
    (all : ∀ n < pieceCount content.length chunkSize, m.hasChunk key n = true) :
    ∃ f, m.readFile key = some f ∧ m.content f = some content := by
  have counted := pieceCount_pos positive (List.length_pos_of_ne_nil nonempty)
  obtain ⟨f, found⟩ := Option.isSome_iff_exists.mp
    (Mongo.readFile_isSome_iff.mpr (pieces.header (all _ (by omega))))
  obtain ⟨member, owner⟩ := Mongo.readFile_eq_some found
  obtain ⟨id, length, cut⟩ := pieces.files f member owner
  have count : pieceCount f.length.toNat f.chunkSize.toNat = pieceCount content.length chunkSize := by
    rw [length, cut, Int.toNat_natCast, Int.toNat_natCast]
  refine ⟨f, found, ?_⟩
  have whole := @Mongo.content_of_chunks m f (fun n => piece chunkSize n content) (by omega)
  rw [whole, count]
  · exact congrArg some (flatten_pieces positive content)
  · intro n within
    rw [count] at within
    obtain ⟨c, memberC, ownerC, number⟩ := Mongo.hasChunk_iff.mp (all n within)
    refine ⟨c, (Mongo.findChunk_eq_some_iff wf).mpr ⟨memberC, ownerC.trans id.symm, number⟩, ?_⟩
    rw [(pieces.data c memberC ownerC).2, number]

end PiecesOf

end Clb
