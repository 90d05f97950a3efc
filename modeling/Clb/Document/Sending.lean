/-
# Document.Sending -- one document that is being uploaded

An `Upload` is a content cut into pieces; a client sends the pieces and asks to finish. `Sending`
relates a store to one document under upload: its version row holds the storage key, its chunk status
row the indices recorded so far, and what is stored under the key are pieces of the content, those
recorded among them. Other documents may share the key. A piece extends the recorded indices
(`Sending.write_new`), a repeat changes nothing (`Sending.write_again`), a request to finish merges the
stored indices (`Sending.finish`), and rows of other documents do not matter (`Sending.frame`). -/
import Clb.Document.ChunkMap
import Clb.Storage.Partial

set_option autoImplicit false

namespace Clb

open Clb.Lib Clb.Dao Clb.Lib.Action DocumentFacade MongoStorageService

variable {dcs : DocChunkStatus} {i : Nat}

/-- The status code of an answer. -/
def codeOf (r : Except Fault ChunkResponse) : Option ChunkCode := r.toOption.map (·.statusCode)

/-- Content, and the size of the pieces it is sent in. -/
structure Upload where
  content : Bytes
  size : Nat
  nonempty : content ≠ []
  positive : 0 < size
  small : (size : Int) ≤ MAX_CHUNK_SIZE

namespace Upload

variable (u : Upload)

def count : Nat := pieceCount u.content.length u.size

def chunk (i : Nat) : Bytes := piece u.size i u.content

/-- The indices that were not received yet, in increasing order. -/
def missing (got : Finset Nat) : List Nat := (List.range u.count).filter fun i => i ∉ got

/-- The parameters of its `prepareUpload`. -/
def param (filename md5 : Option Text) : PrepareChunkUploadParam :=
  ⟨filename, md5, u.content.length, u.size⟩

inductive Op where
  | write (i : Nat) (ins : InputStream)
  | finish

/-- A request to finish may count a reference. -/
def Op.isFinish : Op → Bool
  | .write .. => false
  | .finish => true

/-- A piece is sent under its index, in blocks of any size. -/
def Op.Valid (u : Upload) : Op → Prop
  | .write i ins => i < u.count ∧ ins.reads.flatten = u.chunk i ∧ ins.fails = false
  | .finish => True

theorem length_chunk_pos (within : i < u.count) : 0 < (u.chunk i).length := by
  rw [chunk, length_piece]
  exact pieceLength_pos u.positive within

theorem length_chunk_le (i : Nat) : (u.chunk i).length ≤ u.size := by
  rw [chunk, length_piece, pieceLength]
  exact Nat.min_le_left _ _

theorem missing_eq_nil_iff {got : Finset Nat} : u.missing got = [] ↔ ∀ i < u.count, i ∈ got := by
  simp [missing]

/-- A piece that is passed on to the storage is received. -/
theorem uploadChunk_eq {u : Upload} {session : Session} {docid : Int} {key : ObjectId} {m : Mongo}
    {ins : InputStream} (valid : (Op.write i ins).Valid u) {dv : DocVersion}
    (size : dcs.chunkSize = u.size) :
    uploadChunk session {} ⟨docid, i, (u.chunk i).length⟩ ins dv key dcs m =
      (.ok (), received m
        { filename := dv.filename, storageKey := key, docid := dv.docid, vid := dv.version,
          appid := session.appid, length := dcs.fileSize } i dcs.numOfChunk u.size (u.chunk i)) := by
  obtain ⟨within, bytes, whole⟩ := valid
  have filled := u.length_chunk_pos within
  have short := u.length_chunk_le i
  have stored := @chunkedUpload_received i dcs.numOfChunk ins (u.chunk i).length
    { filename := dv.filename, storageKey := key, docid := dv.docid, vid := dv.version,
      appid := session.appid, length := dcs.fileSize } u.size m (by omega) (by omega) whole
    (by rw [bytes])
  unfold uploadChunk
  rw [Int.toNat_natCast, size]
  rw [bytes] at stored
  exact stored

end Upload

/-- A document under upload, with the indices `got` that its chunk map names. -/
structure Sending (u : Upload) (session : Session) (docid : Int) (key : ObjectId) (got : Finset Nat)
    (s : Store) : Prop where
  only : OnlyFirst session.appid docid s
  version : ∃ dv ∈ s.versions.rows, dv.appid = session.appid ∧ dv.docid = docid ∧
    dv.filename ≠ none ∧ dv.storageKey = some key
  status : ∃ dcs ∈ s.chunkStatus.rows, dcs.appid = session.appid ∧ dcs.docid = docid ∧
    dcs.numOfChunk = u.count ∧ dcs.chunkSize = u.size ∧ dcs.fileSize = u.content.length ∧
    dcs.loadChunkMap = got
  stored : ∀ i ∈ got, s.mongo.hasChunk key i = true
  pieces : PiecesOf u.content u.size key s.mongo

/-- What a call on a document may not change, if it stores under `key`: rows of other documents, and
chunks that are there. -/
structure OthersKept (session : Session) (docid : Int) (key : ObjectId) (s s' : Store) : Prop where
  docs : s'.docs = s.docs
  versions : ∀ v : DocVersion, ¬(v.appid = session.appid ∧ v.docid = docid) →
    (v ∈ s'.versions.rows ↔ v ∈ s.versions.rows)
  status : ∀ c ∈ s.chunkStatus.rows, ¬(c.appid = session.appid ∧ c.docid = docid) →
    c ∈ s'.chunkStatus.rows
  chunks : ∀ i, s.mongo.hasChunk key i = true → s'.mongo.hasChunk key i = true

theorem OthersKept.refl {session : Session} {docid : Int} {key : ObjectId} {s : Store} :
    OthersKept session docid key s s :=
  ⟨rfl, fun _ _ => Iff.rfl, fun _ member _ => member, fun _ present => present⟩

/-- The chunk status row of the document is replaced. -/
theorem OthersKept.replaceStatus {session : Session} {docid : Int} {key : ObjectId} {s s' : Store}
    (numbered : Table.Numbered DocChunkStatus.id s.chunkStatus) {dcs new : DocChunkStatus}
    (member : dcs ∈ s.chunkStatus.rows) (appid : dcs.appid = session.appid)
    (docid' : dcs.docid = docid) (docs : s'.docs = s.docs) (versions : s'.versions = s.versions)
    (status : s'.chunkStatus = s.chunkStatus.replace DocChunkStatus.id dcs new)
    (chunks : ∀ i, s.mongo.hasChunk key i = true → s'.mongo.hasChunk key i = true) :
    OthersKept session docid key s s' where
  docs := docs
  versions := fun v _ => by rw [versions]
  status := by
    intro c inside other
    rw [status]
    refine (numbered.mem_replace member).mpr (.inr ⟨inside, ?_⟩)
    rintro rfl
    exact other ⟨appid, docid'⟩
  chunks := chunks

/-- The first version of the document is completed. -/
theorem OthersKept.completed {session : Session} {docid : Int} {key : ObjectId} {s s' : Store}
    (kept : OthersKept session docid key s s') (nonzero : docid ≠ 0) (counted : DocRef → Bool) :
    OthersKept session docid key s ((s'.complete session.appid docid 1).countRefs counted) where
  docs := kept.docs
  versions := by
    intro v other
    rw [← kept.versions v other, Table.mem_update]
    have unselected : ∀ row : DocVersion, Completes session.appid docid 1 row →
        row.appid = session.appid ∧ row.docid = docid := fun row completes =>
      ⟨completes.1 (Int.ne_of_gt session.appid_pos), completes.2.1 nonzero⟩
    constructor
    · rintro (⟨row, -, selected, rfl⟩ | ⟨member, -⟩)
      · exact absurd (unselected row (of_decide_eq_true selected)) other
      · exact member
    · exact fun member => .inr ⟨member, decide_eq_false fun completes =>
        other (unselected v completes)⟩
  status := kept.status
  chunks := kept.chunks

/-- The references to the content of a document can be counted `n` times more. -/
def RoomFor (session : Session) (docid : Int) (n : Nat) (s : Store) : Prop :=
  ∀ c ∈ s.chunkStatus.rows, c.appid = session.appid → c.docid = docid →
    ∀ r ∈ s.refs.rows, r.md5 = c.md5 → r.size = c.fileSize → r.ref + n ≤ 2147483647

namespace RoomFor

variable {session x : Session} {docid other : Int} {n : Nat} {s : Store}

theorem mono (room : RoomFor session docid n s) {m : Nat} (fewer : m ≤ n) :
    RoomFor session docid m s := by
  intro c memberC appC docC r member md5 size
  have := room c memberC appC docC r member md5 size
  omega

theorem replaceStatus (room : RoomFor session docid n s) {dcs new : DocChunkStatus}
    (member : dcs ∈ s.chunkStatus.rows) (same : new.appid = dcs.appid ∧ new.docid = dcs.docid ∧
      new.md5 = dcs.md5 ∧ new.fileSize = dcs.fileSize) :
    RoomFor session docid n (s.replaceStatus dcs new) := by
  obtain ⟨appid, document, md5, size⟩ := same
  refine Table.forall_mem_replace room ?_
  rw [appid, document, md5, size]
  exact room dcs member

theorem countRefs (room : RoomFor session docid (n + 1) s) (counted : DocRef → Bool) :
    RoomFor session docid n (s.countRefs counted) := by
  intro c memberC appC docC
  refine Table.forall_mem_update (room.mono (Nat.le_succ n) c memberC appC docC) ?_
  intro r member _ md5 size
  have := room c memberC appC docC r member md5 size
  dsimp only
  omega

theorem written (room : RoomFor session docid n s) {saves : Saves} {cup : ExecuteChunkUploadParam}
    {ins : InputStream} {r : Except Fault ChunkResponse} {s' : Store}
    (written : Written x saves cup ins s r s') : RoomFor session docid n s' := by
  cases written with
  | idle | raised => exact room
  | written taken =>
    exact room.replaceStatus (docChunkStatus_read_some taken.read).1 ⟨rfl, rfl, rfl, rfl⟩

theorem finished (room : RoomFor session docid (n + 1) s) {r : Except Fault ChunkResponse} {s' : Store}
    (finished : Finished x other s r s') : RoomFor session docid n s' := by
  have less := room.mono (Nat.le_succ n)
  cases finished with
  | raised => exact less
  | needMore rows | uncounted _ rows =>
    exact less.replaceStatus (docChunkStatus_read_some rows.read).1 ⟨rfl, rfl, rfl, rfl⟩
  | completed rows =>
    refine RoomFor.countRefs ?_ _
    exact room.replaceStatus (docChunkStatus_read_some rows.read).1 ⟨rfl, rfl, rfl, rfl⟩

end RoomFor

/-- A content whose upload begins is not counted yet. -/
theorem Prepared.roomFor {config : Config} {session : Session} {docid : Int} {s s' : Store}
    {param : PrepareChunkUploadParam} {r : Except Fault ChunkResponse}
    (new : NewUpload config session docid s) (sized : 0 < param.size)
    (prepared : Prepared session docid param s r s') : RoomFor session docid 2147483647 s' := by
  have noStatus : ∀ {s' : Store}, s'.chunkStatus = s.chunkStatus →
      RoomFor session docid 2147483647 s' := by
    intro s' same c member sameApp sameDoc
    exact absurd sameDoc (new.statusFree c (same ▸ member) sameApp)
  have oneStatus : ∀ {c : DocChunkStatus} {s' : Store},
      s'.chunkStatus = s.chunkStatus.insert docChunkStatusDAO.setId c →
      (∀ r ∈ s'.refs.rows, r.md5 = c.md5 → r.size = c.fileSize → r.ref = 0) →
      RoomFor session docid 2147483647 s' := by
    intro c s' same zero c' member sameApp sameDoc r memberR md5 size
    rw [same] at member
    rcases List.mem_append.mp member with old | last
    · exact absurd sameDoc (new.statusFree c' old sameApp)
    · rw [List.mem_singleton.mp last] at md5 size
      rw [zero r memberR md5 size]
      decide
  have resumed : ∀ {ref : DocRef}, DocRefDAO.read param.md5 param.size s.refs = some ref →
      ref.ref = 0 → ∀ r ∈ s.refs.rows, r.md5 = param.md5 → r.size = param.size → r.ref = 0 := by
    intro ref read zero r member md5 size
    obtain rfl := new.wf.counted_eq_read read sized member (by simp [md5, size])
    exact zero
  cases prepared with
  | exceeded | found | foundFull | overflowed | foundFault | resumedFault | resumedVersion | newKey
  | newRef => exact noStatus rfl
  | resumedStatus ref name fault read zero => exact oneStatus rfl (resumed read zero)
  | resumed ref name key read zero => exact oneStatus rfl (resumed read zero)
  | new ref name read row =>
    refine oneStatus rfl (Table.forall_mem_insert (fun r member md5 size => ?_) fun _ _ => ?_)
    · exact absurd size (docRef_read_none read member md5)
    · rw [row]
      rfl

namespace Sending

variable {config : Config} {u : Upload} {session : Session} {docid : Int} {key : ObjectId}
  {got : Finset Nat} {s : Store}

/-- The rows that the calls read. -/
theorem uploading (sending : Sending u session docid key got s) (wf : Wf config s) :
    ∃ dv dcs name, Uploading session docid s dv key dcs ∧ dv.filename = some name ∧
      (dcs ∈ s.chunkStatus.rows ∧ dcs.appid = session.appid ∧ dcs.docid = docid) ∧
      dcs.numOfChunk = u.count ∧ dcs.chunkSize = u.size ∧ dcs.fileSize = u.content.length ∧
      dcs.loadChunkMap = got := by
  obtain ⟨dv, memberV, appV, docV, named, stored⟩ := sending.version
  obtain ⟨dcs, memberC, appC, docC, count, size, fileSize, map⟩ := sending.status
  obtain ⟨name, given⟩ := Option.ne_none_iff_exists'.mp named
  exact ⟨dv, dcs, name, sending.only.uploading wf memberV appV docV stored memberC appC docC, given,
    ⟨memberC, appC, docC⟩, count, size, fileSize, map⟩

theorem within (sending : Sending u session docid key got s) (member : i ∈ got) :
    i < u.count := by
  obtain ⟨c, inside, owner, rfl⟩ := Mongo.hasChunk_iff.mp (sending.stored i member)
  exact (sending.pieces.data c inside owner).1

theorem mem_findEmptyChunk_iff (count : dcs.numOfChunk = u.count)
    (map : dcs.loadChunkMap = got) : i ∈ dcs.findEmptyChunk ↔ i < u.count ∧ i ∉ got := by
  rw [DocChunkStatus.mem_findEmptyChunk, count, map]
  exact and_congr_left' (by omega)

theorem findEmptyChunk_eq (count : dcs.numOfChunk = u.count)
    (map : dcs.loadChunkMap = got) : dcs.findEmptyChunk = u.missing got := by
  unfold DocChunkStatus.findEmptyChunk Upload.missing
  rw [count, map, Int.toNat_natCast]

/-- What other rows become does not matter. -/
theorem frame (sending : Sending u session docid key got s) {s' : Store}
    (versions : ∀ v : DocVersion, v.appid = session.appid → v.docid = docid →
      (v ∈ s'.versions.rows ↔ v ∈ s.versions.rows))
    (status : ∀ c ∈ s.chunkStatus.rows, c.appid = session.appid → c.docid = docid →
      c ∈ s'.chunkStatus.rows)
    (kept : ∀ i, s.mongo.hasChunk key i = true → s'.mongo.hasChunk key i = true)
    (pieces : PiecesOf u.content u.size key s'.mongo) : Sending u session docid key got s' where
  only := ⟨sending.only.nonzero, fun v member sameApp sameDoc =>
    sending.only.first v ((versions v sameApp sameDoc).mp member) sameApp sameDoc⟩
  version := by
    obtain ⟨dv, member, appV, docV, rest⟩ := sending.version
    exact ⟨dv, (versions dv appV docV).mpr member, appV, docV, rest⟩
  status := by
    obtain ⟨dcs, member, appC, docC, rest⟩ := sending.status
    exact ⟨dcs, status dcs member appC docC, appC, docC, rest⟩
  stored := fun i member => kept i (sending.stored i member)
  pieces := pieces

/-- The chunk status row is replaced by one with other indices, all of them stored. -/
theorem replaceStatus (sending : Sending u session docid key got s)
    (numbered : Table.Numbered DocChunkStatus.id s.chunkStatus) {dcs new : DocChunkStatus}
    (member : dcs ∈ s.chunkStatus.rows) {got' : Finset Nat}
    (row : new.appid = session.appid ∧ new.docid = docid ∧ new.numOfChunk = u.count ∧
      new.chunkSize = u.size ∧ new.fileSize = u.content.length ∧ new.loadChunkMap = got')
    (stored : ∀ i ∈ got', s.mongo.hasChunk key i = true) :
    Sending u session docid key got' (s.replaceStatus dcs new) where
  only := ⟨sending.only.nonzero, sending.only.first⟩
  version := sending.version
  status := ⟨new, (numbered.mem_replace member).mpr (.inl rfl), row⟩
  stored := stored
  pieces := sending.pieces

/-- The answer to a piece that was recorded before. -/
theorem write_again (sending : Sending u session docid key got s) (wf : Wf config s)
    (seen : i ∈ got) (saves : Saves) (ins : InputStream) :
    ∃ answer, writeChunkData session saves ⟨docid, i, (u.chunk i).length⟩ ins s = (.ok answer, s) ∧
      answer.statusCode = .DUPLICATE_CHUNK := by
  obtain ⟨dv, dcs, name, rows, named, -, count, size, -, map⟩ := sending.uploading wf
  have within := sending.within seen
  have short := u.length_chunk_le i
  have wrote := @writeChunkData_eq session s saves ⟨docid, i, (u.chunk i).length⟩ ins dv key dcs name
    rows named
  rw [if_neg (by simp only [count]; omega), if_neg (by simp only [size]; omega), if_neg (by
    rw [Int.toNat_natCast, mem_findEmptyChunk_iff count map]
    exact fun empty => empty.2 seen)] at wrote
  exact ⟨_, wrote, rfl⟩

/-- The answer to a piece that is not recorded yet. It may be stored already, by another document that
shares the key. -/
theorem write_new (sending : Sending u session docid key got s) (wf : Wf config s)
    (few : u.count ≤ mapLimit) {ins : InputStream}
    (valid : (Upload.Op.write i ins).Valid u) (unseen : i ∉ got) :
    ∃ answer s', writeChunkData session {} ⟨docid, i, (u.chunk i).length⟩ ins s = (.ok answer, s') ∧
      answer.statusCode = .SUCCESS ∧ Sending u session docid key (insert i got) s' ∧
      OthersKept session docid key s s' ∧ s'.refs = s.refs ∧
      ∀ k j, s'.mongo.hasChunk k j = true ↔ s.mongo.hasChunk k j = true ∨ (key = k ∧ i = j) := by
  obtain ⟨dv, dcs, name, rows, named, ⟨memberC, appC, docC⟩, count, size, fileSize, map⟩ :=
    sending.uploading wf
  have within := valid.1
  have short := u.length_chunk_le i
  have below : ∀ j ∈ insert i dcs.loadChunkMap, j < mapLimit := by
    intro j member
    rw [map] at member
    rcases Finset.mem_insert.mp member with rfl | old
    · omega
    · have := sending.within old
      omega
  have wrote := @writeChunkData_eq session s {} ⟨docid, i, (u.chunk i).length⟩ ins dv key dcs name
    rows named
  rw [if_neg (by simp only [count]; omega), if_neg (by simp only [size]; omega), if_pos (by
    rw [Int.toNat_natCast, mem_findEmptyChunk_iff count map]
    exact ⟨within, unseen⟩), writeEmptyChunk_eq wf.constrained rows,
    Upload.uploadChunk_eq valid size, count] at wrote
  dsimp only at wrote
  rw [Int.toNat_natCast, if_pos below] at wrote
  obtain ⟨m, chunks, pieces, same⟩ : ∃ m : Mongo,
      (∀ k j, m.hasChunk k j = true ↔ s.mongo.hasChunk k j = true ∨ (key = k ∧ i = j)) ∧
      PiecesOf u.content u.size key m ∧
      m = received s.mongo
        { filename := dv.filename, storageKey := key, docid := dv.docid, vid := dv.version,
          appid := session.appid, length := dcs.fileSize } i u.count u.size (u.chunk i) :=
    ⟨_, fun _ _ => hasChunk_received, sending.pieces.received rfl fileSize rfl rfl within, rfl⟩
  rw [← same] at wrote
  have kept : ∀ j, s.mongo.hasChunk key j = true → m.hasChunk key j = true :=
    fun j present => (chunks key j).mpr (.inl present)
  have advanced := @frame _ _ _ _ _ _ sending { s with mongo := m } (fun _ _ _ => Iff.rfl)
    (fun _ member _ _ => member) kept pieces
  refine ⟨_, _, wrote, rfl, ?_, ?_, rfl, chunks⟩
  · refine advanced.replaceStatus wf.statusNumbered memberC
      ⟨appC, docC, count, size, fileSize, by rw [loadChunkMap_recorded, map]⟩ fun j member => ?_
    rcases Finset.mem_insert.mp member with rfl | old
    · exact (chunks key j).mpr (.inr ⟨rfl, rfl⟩)
    · exact kept j (sending.stored j old)
  · exact .replaceStatus wf.statusNumbered memberC appC docC rfl rfl rfl kept

/-- Completing the version and counting the reference touch nothing that the upload relies on. -/
theorem completed (sending : Sending u session docid key got s) (counted : DocRef → Bool) :
    Sending u session docid key got ((s.complete session.appid docid 1).countRefs counted) := by
  refine { sending with
    only := ⟨sending.only.nonzero, Table.forall_mem_update sending.only.first fun _ _ first => first⟩
    version := ?_ }
  obtain ⟨dv, member, appid, docid', named, stored⟩ := sending.version
  refine ⟨_, List.mem_map.mpr ⟨dv, member, rfl⟩, ?_⟩
  split
  · exact ⟨appid, docid', named, stored⟩
  · exact ⟨appid, docid', named, stored⟩

/-- The answer to a request to finish: it goes by the indices that are stored. -/
theorem finish (sending : Sending u session docid key got s) (wf : Wf config s)
    (few : u.count ≤ mapLimit) (room : RoomFor session docid 1 s) :
    ∃ answer s', finishUpload session docid s = (.ok answer, s') ∧
      answer.statusCode =
        (if u.missing (s.mongo.queryChunkMap key) = [] then .SUCCESS else .NEED_MORE_CHUNK) ∧
      answer.emptyChunkSet = some (u.missing (s.mongo.queryChunkMap key)) ∧
      Sending u session docid key (s.mongo.queryChunkMap key) s' ∧
      OthersKept session docid key s s' ∧ s'.mongo = s.mongo ∧
      (u.missing (s.mongo.queryChunkMap key) = [] →
        ∀ v ∈ s'.versions.rows, v.appid = session.appid → v.docid = docid →
          v.isCompletedStatus = true) := by
  obtain ⟨dv, dcs, name, rows, named, ⟨memberC, appC, docC⟩, count, size, fileSize, map⟩ :=
    sending.uploading wf
  have merged : dcs.loadChunkMap ∪ s.mongo.queryChunkMap key = s.mongo.queryChunkMap key := by
    rw [map, Finset.union_eq_right]
    exact fun i member => Mongo.mem_queryChunkMap.mpr (sending.stored i member)
  have below : ∀ i ∈ s.mongo.queryChunkMap key, i < mapLimit := by
    intro i member
    obtain ⟨c, inside, owner, rfl⟩ := Mongo.hasChunk_iff.mp (Mongo.mem_queryChunkMap.mp member)
    exact Nat.lt_of_lt_of_le (sending.pieces.data c inside owner).1 few
  have empty : (dcs.updateChunkMap (s.mongo.queryChunkMap key)).findEmptyChunk =
      u.missing (s.mongo.queryChunkMap key) :=
    findEmptyChunk_eq count (DocChunkStatus.loadChunkMap_updateChunkMap _ _)
  have kept : Sending u session docid key (s.mongo.queryChunkMap key)
      (s.replaceStatus dcs (dcs.updateChunkMap (s.mongo.queryChunkMap key))) :=
    sending.replaceStatus wf.statusNumbered memberC ⟨appC, docC, count, size, fileSize,
      DocChunkStatus.loadChunkMap_updateChunkMap _ _⟩ fun _ => Mongo.mem_queryChunkMap.mp
  have others : OthersKept session docid key s
      (s.replaceStatus dcs (dcs.updateChunkMap (s.mongo.queryChunkMap key))) :=
    .replaceStatus wf.statusNumbered memberC appC docC rfl rfl rfl fun _ present => present
  have finished := finishUpload_eq wf.constrained rows rfl
  rw [merged, if_pos below, empty] at finished
  by_cases full : u.missing (s.mongo.queryChunkMap key) = []
  · have counts : s.HasRoom fun r => r.md5 == dcs.md5 && r.size == dcs.fileSize := by
      intro r member chosen
      simp only [Bool.and_eq_true, beq_iff_eq] at chosen
      have := room dcs memberC appC docC r member chosen.1 chosen.2
      omega
    rw [if_pos full, if_pos counts] at finished
    refine ⟨_, _, finished, (if_pos full).symm, congrArg some full.symm, kept.completed _,
      others.completed sending.only.nonzero _, rfl, fun _ v member sameApp sameDoc => ?_⟩
    rcases Table.mem_update.mp member with ⟨row, -, -, rfl⟩ | ⟨inside, unselected⟩
    · rfl
    · exact absurd ⟨fun _ => sameApp, fun _ => sameDoc, fun _ =>
        sending.only.first v inside sameApp sameDoc⟩ (of_decide_eq_false unselected)
  · rw [if_neg full] at finished
    exact ⟨_, _, finished, (if_neg full).symm, rfl, kept, others, rfl, fun nil => absurd nil full⟩

end Sending

/-! ## After prepareUpload -/

/-- What a `prepareUpload` that lets an upload begin leaves: a document that is sending under the key
of the reference, and everything else as it was. -/
structure Begun (config : Config) (u : Upload) (session : Session) (md5 : Option Text) (s : Store)
    (res : ChunkResponse) (key : ObjectId) (got : Finset Nat) (s₁ : Store) : Prop where
  wf : Wf config s₁
  sending : Sending u session res.docid key got s₁
  empty : res.emptyChunkSet = some (u.missing got)
  room : RoomFor session res.docid 2147483647 s₁
  reads : ∃ ref, DocRefDAO.read md5 u.content.length s₁.refs = some ref ∧ ref.ref = 0 ∧
    ref.storageKey = some key
  resumes : ∀ ref, DocRefDAO.read md5 u.content.length s.refs = some ref →
    ref.storageKey = some key ∧ s₁.refs = s.refs
  noDoc : s.NoDoc session.appid res.docid
  positive : 0 < res.docid
  doc : ∃ d ∈ s₁.docs.rows, d.appid = session.appid ∧ d.docid = res.docid ∧
    d.authId = some session.user
  docs : ∀ d ∈ s.docs.rows, d ∈ s₁.docs.rows
  versions : ∀ v : DocVersion, ¬(v.appid = session.appid ∧ v.docid = res.docid) →
    (v ∈ s₁.versions.rows ↔ v ∈ s.versions.rows)
  status : ∀ c : DocChunkStatus, ¬(c.appid = session.appid ∧ c.docid = res.docid) →
    (c ∈ s₁.chunkStatus.rows ↔ c ∈ s.chunkStatus.rows)
  chunks : s₁.mongo.chunks = s.mongo.chunks
  files : s₁.mongo.files = s.mongo.files

section Prepare

variable {config : Config} {u : Upload} {session : Session} {s s₁ : Store} {filename md5 : Option Text}
  {res : ChunkResponse}

theorem Upload.numOfChunk_eq_count (few : u.count ≤ mapLimit) :
    numOfChunk u.content.length u.size = u.count :=
  numOfChunk_eq u.positive (by have := u.small; unfold MAX_CHUNK_SIZE at this; omega) few

end Prepare

end Clb
