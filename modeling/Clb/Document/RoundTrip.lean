/-
# Document.RoundTrip -- a chunked upload stores what the client sent

A client prepares an upload of new content and sends its pieces in any order, repeats any of them and
asks to finish at any time. `Upload.Answered` is what it may expect: one SUCCESS per piece, a
DUPLICATE_CHUNK that changes nothing for each repeat, the missing indices as long as there are some,
and in the end the bytes it sent. `Receiving` relates a store to the set of pieces received; each call
keeps it, because it keeps `Sending` and nobody else stores under the key, so every sequence of calls
is answered as expected (`Receiving.answered`). The chunk map is
a column of 65535 characters, and `roundTrip_iff` says that this is the only limit. -/
import Clb.Document.Sending

set_option autoImplicit false

namespace Clb

open Clb.Lib Clb.Dao Clb.Lib.Action DocumentFacade MongoStorageService

namespace Upload

variable (u : Upload)

/-- A sequence of calls is answered as expected, from a store that received the pieces `got`. -/
def Answered (session : Session) (docid : Int) (key : ObjectId) :
    List Op → Finset Nat → Store → Prop
  | [], got, s => u.missing got = [] → s.mongo.storedBytes key = some u.content
  | .write i ins :: rest, got, s =>
    let out := writeChunkData session {} ⟨docid, i, (u.chunk i).length⟩ ins s
    codeOf out.1 = some (if i ∈ got then .DUPLICATE_CHUNK else .SUCCESS) ∧
      (i ∈ got → out.2.mongo = s.mongo) ∧ Answered session docid key rest (insert i got) out.2
  | .finish :: rest, got, s =>
    let out := finishUpload session docid s
    codeOf out.1 = some (if u.missing got = [] then .SUCCESS else .NEED_MORE_CHUNK) ∧
      out.1.toOption.map (·.emptyChunkSet) = some (some (u.missing got)) ∧
      Answered session docid key rest got out.2

end Upload

/-- The document is sending, and the pieces `got` are the only ones under its key. -/
structure Receiving (config : Config) (u : Upload) (session : Session) (docid : Int)
    (key : ObjectId) (got : Finset Nat) (s : Store) : Prop extends
    Sending u session docid key got s where
  wf : Wf config s
  own : ∀ i, s.mongo.hasChunk key i = true → i ∈ got

namespace Receiving

variable {config : Config} {u : Upload} {session : Session} {docid : Int} {key : ObjectId}
  {got : Finset Nat} {s : Store}

/-- The answer to a piece that arrives for the first time. -/
theorem write_new (receiving : Receiving config u session docid key got s)
    (few : u.count ≤ mapLimit) {i : Nat} {ins : InputStream}
    (valid : (Upload.Op.write i ins).Valid u) (unseen : i ∉ got) :
    ∃ answer s', writeChunkData session {} ⟨docid, i, (u.chunk i).length⟩ ins s = (.ok answer, s') ∧
      answer.statusCode = .SUCCESS ∧ Receiving config u session docid key (insert i got) s' := by
  obtain ⟨answer, s', wrote, code, sending, -, -, chunks⟩ :=
    receiving.toSending.write_new receiving.wf few valid unseen
  have written := (writeChunkData_ends receiving.wf).apply wrote
  refine ⟨answer, s', wrote, code, sending, written.wf receiving.wf, fun j present => ?_⟩
  rcases (chunks key j).mp present with old | ⟨-, rfl⟩
  · exact Finset.mem_insert_of_mem (receiving.own j old)
  · exact Finset.mem_insert_self _ _

/-- The answer to a request to finish. -/
theorem finish (receiving : Receiving config u session docid key got s) (few : u.count ≤ mapLimit)
    (room : RoomFor session docid 1 s) :
    ∃ answer s', finishUpload session docid s = (.ok answer, s') ∧
      answer.statusCode = (if u.missing got = [] then .SUCCESS else .NEED_MORE_CHUNK) ∧
      answer.emptyChunkSet = some (u.missing got) ∧
      Receiving config u session docid key got s' := by
  have recorded : s.mongo.queryChunkMap key = got := by
    ext i
    exact Mongo.mem_queryChunkMap.trans ⟨receiving.own i, receiving.stored i⟩
  obtain ⟨answer, s', finished, code, empty, sending, -, same, -⟩ :=
    receiving.toSending.finish receiving.wf few room
  rw [recorded] at code empty sending
  have wf := ((finishUpload_ends receiving.wf).apply finished).wf receiving.wf
  refine ⟨answer, s', finished, code, empty, sending, wf, fun i present => ?_⟩
  rw [same] at present
  exact receiving.own i present

/-- Once every piece was received the file reads as the content. -/
theorem storedBytes (receiving : Receiving config u session docid key got s)
    (full : u.missing got = []) : s.mongo.storedBytes key = some u.content := by
  have all : ∀ i < u.count, s.mongo.hasChunk key i = true := fun i within =>
    receiving.stored i (u.missing_eq_nil_iff.mp full i within)
  obtain ⟨f, found, content⟩ :=
    receiving.pieces.storedBytes receiving.wf.mongo u.positive u.nonempty all
  unfold Mongo.storedBytes
  rw [found, Option.bind_some, content]

/-- **Every sequence of calls is answered as expected.** -/
theorem answered (few : u.count ≤ mapLimit) (ops : List Upload.Op) (valid : ∀ op ∈ ops, op.Valid u)
    (room : RoomFor session docid (ops.countP Upload.Op.isFinish) s)
    (receiving : Receiving config u session docid key got s) :
    u.Answered session docid key ops got s := by
  induction ops generalizing got s with
  | nil => exact receiving.storedBytes
  | cons op rest ih =>
    have rest_valid : ∀ op ∈ rest, op.Valid u := fun op member =>
      valid op (List.mem_cons_of_mem _ member)
    cases op with
    | write i ins =>
      have sent := valid _ List.mem_cons_self
      unfold Upload.Answered
      by_cases seen : i ∈ got
      · obtain ⟨answer, wrote, code⟩ := receiving.toSending.write_again receiving.wf seen {} ins
        rw [wrote, if_pos seen, Finset.insert_eq_of_mem seen]
        exact ⟨congrArg some code, fun _ => rfl, ih rest_valid room receiving⟩
      · obtain ⟨answer, s', wrote, code, receiving'⟩ := receiving.write_new few sent seen
        have room' := room.written ((writeChunkData_ends receiving.wf).apply wrote)
        rw [wrote, if_neg seen]
        exact ⟨congrArg some code, fun again => absurd again seen, ih rest_valid room' receiving'⟩
    | finish =>
      rw [List.countP_cons_of_pos rfl] at room
      obtain ⟨answer, s', finished, code, empty, receiving'⟩ :=
        receiving.finish few (room.mono (Nat.le_add_left 1 _))
      have room' := room.finished ((finishUpload_ends receiving.wf).apply finished)
      unfold Upload.Answered
      rw [finished]
      exact ⟨congrArg some code, congrArg some empty, ih rest_valid room' receiving'⟩

end Receiving

/-! ## After prepareUpload -/

section Prepare

variable {config : Config} {u : Upload} {session : Session} {s s₁ : Store} {filename md5 : Option Text}
  {res : ChunkResponse}

/-- A `prepareUpload` of new content that returns has added the rows of a new upload. -/
theorem prepareUpload_new (wf : Wf config s)
    (fresh : DocRefDAO.read md5 u.content.length s.refs = none)
    (prepared : prepareUpload config session (u.param filename md5) s = (.ok res, s₁)) :
    ∃ s₀ name ref, NewUpload config session res.docid s₀ ∧ NameFits filename name ∧
      Wf config s₁ ∧ OnlyFirst session.appid res.docid s₁ ∧ RoomFor session res.docid 2147483647 s₁ ∧
      s₁ = ((s₀.issueKey.addRef ref).addVersion (firstVersion session res.docid name
        u.content.length (some s₀.newKey) .waiting)).addStatus
          (statusRow session res.docid (u.param filename md5)) := by
  have small := u.small
  rcases (prepareUpload_ends wf).apply prepared with ⟨fault, impossible, -⟩ | ⟨noDoc, ends⟩
  · cases impossible
  have new := wf.withNewDoc 0 noDoc
  have wf₁ := ends.wf new
  have only := (ends.chunkMapTrue new).1
  have room := ends.roomFor new (Int.natCast_pos.mpr (List.length_pos_iff.mpr u.nonempty))
  have fresh : DocRefDAO.read (u.param filename md5).md5 (u.param filename md5).size
      (withNewDoc config session 0 s).refs = none := fresh
  cases ends with
  | exceeded large => exact absurd large (Int.not_lt.mpr small)
  | found ref name read => rw [fresh] at read; cases read
  | overflowed ref read => rw [fresh] at read; cases read
  | resumed ref name key read => rw [fresh] at read; cases read
  | new ref name read row fits free named fitsStatus =>
    exact ⟨_, name, ref, new, named, wf₁, only, room, rfl⟩

theorem prepareUpload_receiving (few : u.count ≤ mapLimit) (wf : Wf config s)
    (fresh : DocRefDAO.read md5 u.content.length s.refs = none)
    (prepared : prepareUpload config session (u.param filename md5) s = (.ok res, s₁)) :
    RoomFor session res.docid 2147483647 s₁ ∧ ∃ key, Receiving config u session res.docid key ∅ s₁ := by
  obtain ⟨s₀, name, ref, new, named, wf₁, only, room, rfl⟩ := prepareUpload_new wf fresh prepared
  obtain ⟨noChunk, noFile⟩ := new.wf.newKey_unused
  have counted := u.numOfChunk_eq_count few
  refine ⟨room, s₀.newKey, ?_⟩
  exact
    { wf := wf₁
      only
      version := ⟨_, List.mem_append_right _ (List.mem_singleton_self _), rfl, rfl,
        Option.some_ne_none _, rfl⟩
      status := ⟨_, List.mem_append_right _ (List.mem_singleton_self _), rfl, rfl, counted, rfl, rfl,
        rfl⟩
      stored := fun _ member => absurd member (Finset.notMem_empty _)
      pieces := .unused noChunk noFile
      own := fun i present =>
        let ⟨c, member, owner, _⟩ := Mongo.hasChunk_iff.mp present
        absurd owner (noChunk c member) }

/-- A piece whose index the chunk map cannot hold is stored and then refused. -/
theorem write_unmapped (many : mapLimit < u.count) (wf : Wf config s)
    (fresh : DocRefDAO.read md5 u.content.length s.refs = none)
    (prepared : prepareUpload config session (u.param filename md5) s = (.ok res, s₁)) :
    (writeChunkData session {} ⟨res.docid, mapLimit, (u.chunk mapLimit).length⟩
      { reads := [u.chunk mapLimit] } s₁).1 = .error .dataIntegrity := by
  obtain ⟨s₀, name, ref, new, named, wf₁, only, -, rfl⟩ := prepareUpload_new wf fresh prepared
  have short := u.length_chunk_le mapLimit
  have counted : (mapLimit : Int) < numOfChunk u.content.length u.size := by
    by_contra few
    have := pieceCount_le_of_numOfChunk_le u.positive
      (by have := u.small; unfold MAX_CHUNK_SIZE at this; omega) (Int.not_lt.mp few)
    exact absurd many (Nat.not_lt.mpr this)
  have rows := only.uploading wf₁ (List.mem_append_right _ (List.mem_singleton_self _)) rfl rfl rfl
    (List.mem_append_right _ (List.mem_singleton_self _)) rfl rfl
  have valid : (Upload.Op.write mapLimit { reads := [u.chunk mapLimit] }).Valid u :=
    ⟨many, by simp, rfl⟩
  have wrote := @writeChunkData_eq session _ {}
    ⟨res.docid, mapLimit, (u.chunk mapLimit).length⟩ { reads := [u.chunk mapLimit] } _ _ _ name rows rfl
  have empty : mapLimit ∈ ({ statusRow session res.docid (u.param filename md5) with
      id := s₀.chunkStatus.next } : DocChunkStatus).findEmptyChunk :=
    DocChunkStatus.mem_findEmptyChunk.mpr ⟨counted, Finset.notMem_empty _⟩
  rw [if_neg, if_neg, if_pos, writeEmptyChunk_eq wf₁.constrained rows, Upload.uploadChunk_eq valid rfl] at wrote
  · dsimp only at wrote
    rw [Int.toNat_natCast, if_neg] at wrote
    · rw [wrote]
    · exact fun below => Nat.lt_irrefl _ (below mapLimit (Finset.mem_insert_self _ _))
  · rw [Int.toNat_natCast]
    exact empty
  · exact Int.not_lt.mpr (Int.ofNat_le.mpr short)
  · exact not_or.mpr ⟨Int.not_le.mpr counted, Int.not_lt.mpr (Int.natCast_nonneg _)⟩

end Prepare

/-- **The round trip of a chunked upload.** After a `prepareUpload` of content for which there is no
reference, in any reachable state, every sequence of pieces and requests to finish (no more of these
than the `int` column of the counter can count) is answered as expected and the content is stored in the
end, if and only if there are no more than 393192 pieces, the number that the column of the chunk map
holds. -/
theorem roundTrip_iff {config : Config} {session : Session} {s s₁ : Store} {res : ChunkResponse}
    (u : Upload) (filename md5 : Option Text) (reachable : Reachable config s)
    (fresh : DocRefDAO.read md5 u.content.length s.refs = none)
    (prepared : prepareUpload config session (u.param filename md5) s = (.ok res, s₁)) :
    (∃ key, (∃ v ∈ s₁.versions.rows, v.appid = session.appid ∧ v.docid = res.docid ∧
        v.storageKey = some key) ∧
      ∀ ops : List Upload.Op, (∀ op ∈ ops, op.Valid u) → ops.countP Upload.Op.isFinish ≤ 2147483647 →
        u.Answered session res.docid key ops ∅ s₁) ↔
    u.count ≤ 393192 := by
  constructor
  · rintro ⟨key, -, answered⟩
    by_contra many
    have many : mapLimit < u.count := Nat.not_le.mp many
    have refused := write_unmapped many reachable.wf fresh prepared
    have valid : ∀ op ∈ [Upload.Op.write mapLimit { reads := [u.chunk mapLimit] }], op.Valid u := by
      intro op member
      rw [List.mem_singleton.mp member]
      exact ⟨many, by simp, rfl⟩
    have code := (answered _ valid (Nat.zero_le _)).1
    rw [refused] at code
    cases code
  · intro few
    obtain ⟨room, key, receiving⟩ := prepareUpload_receiving few reachable.wf fresh prepared
    obtain ⟨dv, member, appid, docid, -, stored⟩ := receiving.version
    exact ⟨key, ⟨dv, member, appid, docid, stored⟩, fun ops valid finishes =>
      receiving.answered few ops valid (room.mono finishes)⟩

/-- Three bytes in pieces of two. -/
def threeBytes : Upload := ⟨[1, 2, 3], 2, by decide, by decide, by decide⟩

/-- The pieces may come in the reverse order, with a repeat and an early request to finish. -/
theorem roundTrip_iff_threeBytes :
    let s₁ := storeAfter [.prepareUpload (threeBytes.param (some "a".toList) (some "m".toList))]
    ∃ key, (∃ v ∈ s₁.versions.rows, v.appid = 1 ∧ v.docid = 1 ∧ v.storageKey = some key) ∧
      threeBytes.Answered someSession 1 key
        [.write 1 { reads := [[3]] }, .finish, .write 1 { reads := [[3]] },
          .write 0 { reads := [[1], [2]] }, .finish] ∅ s₁ := by
  have prepared : prepareUpload countingConfig someSession
      (threeBytes.param (some "a".toList) (some "m".toList)) Store.empty =
      (.ok ⟨.prepare, 1, 0, .SUCCESS, 2, some [0, 1], some []⟩,
        storeAfter [.prepareUpload (threeBytes.param (some "a".toList) (some "m".toList))]) :=
    Prod.ext (by decide +kernel) rfl
  obtain ⟨key, version, answered⟩ :=
    (roundTrip_iff threeBytes (some "a".toList) (some "m".toList) .refl rfl prepared).mpr (by decide)
  refine ⟨key, version, answered _ ?_ (by decide)⟩
  simp only [List.forall_mem_cons, Upload.Op.Valid, List.not_mem_nil, false_imp_iff, implies_true,
    and_true, true_and]
  decide

/-- 393193 bytes in pieces of one. -/
def manyPieces : Upload where
  content := List.replicate 393193 0
  size := 1
  nonempty := List.ne_nil_of_length_pos (by rw [List.length_replicate]; decide)
  positive := by decide
  small := by decide

theorem lt_count_manyPieces : mapLimit < manyPieces.count := by
  unfold Upload.count manyPieces
  rw [List.length_replicate]
  decide

/-- The upload is prepared, but its last piece is answered by an exception. -/
theorem roundTrip_fails :
    ∃ res s₁, prepareUpload countingConfig someSession
        (manyPieces.param (some "a".toList) (some "m".toList)) Store.empty = (.ok res, s₁) ∧
      (Upload.Op.write mapLimit { reads := [manyPieces.chunk mapLimit] }).Valid manyPieces ∧
      ∀ key, ¬manyPieces.Answered someSession res.docid key
        [.write mapLimit { reads := [manyPieces.chunk mapLimit] }] ∅ s₁ := by
  have prepared : (prepareUpload countingConfig someSession
      (manyPieces.param (some "a".toList) (some "m".toList)) Store.empty).1 =
      .ok ⟨.prepare, 1, 0, .SUCCESS, 1, some (statusRow someSession 1
        (manyPieces.param (some "a".toList) (some "m".toList))).findEmptyChunk, some []⟩ := rfl
  have returned := Prod.ext prepared (Eq.refl (prepareUpload countingConfig someSession
    (manyPieces.param (some "a".toList) (some "m".toList)) Store.empty).2)
  refine ⟨_, _, returned, ⟨lt_count_manyPieces, by simp, rfl⟩, fun key answered => ?_⟩
  have code := answered.1
  rw [write_unmapped lt_count_manyPieces Wf.empty rfl returned] at code
  cases code

end Clb
