/-
# Storage.WellFormed -- what holds of the collections in every state

`MongoWf` says that the ids of the files and the pairs (files_id, n) of the chunks are distinct and
that only identifiers handed out occur; every operation keeps it. Under it a chunk is found by its
file and number (`findChunk_eq_some_iff`), a file whose chunks are all there has a content
(`content_of_chunks`), and removing one storage key leaves the bytes of every other one
(`storedBytes_delete_of_ne`). -/
import Clb.Storage.Upload

set_option autoImplicit false

namespace Clb

open Clb.Lib MongoStorageService

variable {f : GridFSFile} {m' : Mongo} {c : GridFSChunk} {r : Except Fault Unit}

structure MongoWf (m : Mongo) : Prop where
  filesDistinct : (m.files.map (·.id)).Nodup
  chunksDistinct : (m.chunks.map fun c => (c.filesId, c.n)).Nodup
  filesIssued : ∀ f ∈ m.files, f.id.serial < m.issued ∧ f.storageKey.serial < m.issued
  chunksIssued : ∀ c ∈ m.chunks, c.filesId.serial < m.issued

namespace Mongo

variable {m : Mongo} {key : ObjectId} {n : Nat}

theorem hasChunk_iff : m.hasChunk key n = true ↔ ∃ c ∈ m.chunks, c.filesId = key ∧ c.n = n := by
  simp [hasChunk]

theorem hasChunk_eq_false_iff :
    m.hasChunk key n = false ↔ ∀ c ∈ m.chunks, c.filesId = key → c.n ≠ n := by
  rw [← Bool.not_eq_true, hasChunk_iff]
  simp

theorem mem_queryChunkMap : n ∈ m.queryChunkMap key ↔ m.hasChunk key n = true := by
  simp only [queryChunkMap, List.mem_toFinset, List.mem_map, List.mem_filter, beq_iff_eq,
    hasChunk_iff]
  exact ⟨fun ⟨c, ⟨member, owner⟩, number⟩ => ⟨c, member, owner, number⟩,
    fun ⟨c, member, owner, number⟩ => ⟨c, ⟨member, owner⟩, number⟩⟩

theorem hasChunk_addChunk :
    (m.addChunk c).hasChunk key n = true ↔
      m.hasChunk key n = true ∨ (c.filesId = key ∧ c.n = n) := by
  simp only [hasChunk_iff, addChunk, List.mem_append, List.mem_singleton]
  constructor
  · rintro ⟨c', member | rfl, same⟩
    · exact .inl ⟨c', member, same⟩
    · exact .inr same
  · rintro (⟨c', member, same⟩ | same)
    · exact ⟨c', .inl member, same⟩
    · exact ⟨c, .inr rfl, same⟩

theorem mem_putFile {f g : GridFSFile} :
    g ∈ (m.putFile f).files → g = f ∨ (g ∈ m.files ∧ g.id ≠ f.id) := by
  unfold putFile
  dsimp only
  split
  · simp only [List.mem_map]
    rintro ⟨old, member, rfl⟩
    split
    · exact .inl rfl
    · rename_i other
      exact .inr ⟨member, by simpa using other⟩
  · rename_i absent
    simp only [List.any_eq_true, beq_iff_eq, not_exists, not_and] at absent
    simp only [List.mem_append, List.mem_singleton]
    rintro (member | rfl)
    · exact .inr ⟨member, absent g member⟩
    · exact .inl rfl

theorem mem_putFile_self : f ∈ (m.putFile f).files := by
  unfold putFile
  dsimp only
  split
  · rename_i present
    obtain ⟨old, member, same⟩ := List.any_eq_true.mp present
    exact List.mem_map.mpr ⟨old, member, by simp [same]⟩
  · simp

theorem mem_putFile_of_ne {f g : GridFSFile} (member : g ∈ m.files) (other : g.id ≠ f.id) :
    g ∈ (m.putFile f).files := by
  unfold putFile
  dsimp only
  split
  · exact List.mem_map.mpr ⟨g, member, by simp [other]⟩
  · exact List.mem_append_left _ member

theorem findChunk_eq_some_iff (wf : MongoWf m) :
    m.findChunk key n = some c ↔ c ∈ m.chunks ∧ c.filesId = key ∧ c.n = n := by
  constructor
  · intro found
    have holds := List.find?_some found
    exact ⟨List.mem_of_find?_eq_some found, by simpa using holds⟩
  · rintro ⟨member, rfl, rfl⟩
    have present : (m.findChunk c.filesId c.n).isSome := by
      rw [findChunk, List.find?_isSome]
      exact ⟨c, member, by simp⟩
    obtain ⟨c', found⟩ := Option.isSome_iff_exists.mp present
    have holds := List.find?_some found
    have same : c' = c :=
      List.inj_on_of_nodup_map wf.chunksDistinct (List.mem_of_find?_eq_some found) member
        (by simpa using holds)
    rw [found, same]

theorem readFile_eq_some (found : m.readFile key = some f) :
    f ∈ m.files ∧ f.storageKey = key :=
  ⟨List.mem_of_find?_eq_some found, by simpa using List.find?_some found⟩

theorem readFile_isSome_iff : (m.readFile key).isSome ↔ ∃ f ∈ m.files, f.storageKey = key := by
  simp [readFile, List.find?_isSome]

theorem mapM_eq_some {α β : Type} {f : α → Option β} {g : α → β} {l : List α}
    (defined : ∀ a ∈ l, f a = some (g a)) : l.mapM f = some (l.map g) := by
  induction l with
  | nil => rfl
  | cons a l ih =>
    rw [List.mapM_cons, defined a List.mem_cons_self,
      ih fun b member => defined b (List.mem_cons_of_mem _ member)]
    rfl

/-- A file whose chunks are all there reads as their concatenation. -/
theorem content_of_chunks {f : GridFSFile} {data : Nat → Bytes} (sized : 0 < f.chunkSize)
    (chunks : ∀ n < pieceCount f.length.toNat f.chunkSize.toNat,
      ∃ c, m.findChunk f.id n = some c ∧ c.data = data n) :
    m.content f =
      some ((List.range (pieceCount f.length.toNat f.chunkSize.toNat)).map data).flatten := by
  unfold content
  rw [if_neg (by omega), mapM_eq_some (g := data)]
  · rfl
  · intro n member
    obtain ⟨c, found, same⟩ := chunks n (List.mem_range.mp member)
    rw [found, Option.map_some, same]

end Mongo

namespace MongoWf

variable {m : Mongo}

theorem addChunk (wf : MongoWf m) (free : m.hasChunk c.filesId c.n = false)
    (issued : c.filesId.serial < m.issued) : MongoWf (m.addChunk c) where
  filesDistinct := wf.filesDistinct
  filesIssued := wf.filesIssued
  chunksDistinct := by
    simp only [Mongo.addChunk, List.map_append, List.map_cons, List.map_nil, List.nodup_append]
    refine ⟨wf.chunksDistinct, by simp, ?_⟩
    intro pair member pair' last same
    obtain ⟨old, memberOld, rfl⟩ := List.mem_map.mp member
    rw [List.mem_singleton.mp last] at same
    obtain ⟨owner, number⟩ := Prod.mk.inj same
    exact Mongo.hasChunk_eq_false_iff.mp free old memberOld owner number
  chunksIssued := by
    intro c' member
    rcases List.mem_append.mp member with old | new
    · exact wf.chunksIssued c' old
    · rw [List.mem_singleton.mp new]
      exact issued

theorem putFile (wf : MongoWf m) (id : f.id.serial < m.issued)
    (key : f.storageKey.serial < m.issued) : MongoWf (m.putFile f) where
  chunksDistinct := wf.chunksDistinct
  chunksIssued := wf.chunksIssued
  filesIssued := by
    intro g member
    rcases Mongo.mem_putFile member with rfl | ⟨old, -⟩
    · exact ⟨id, key⟩
    · exact wf.filesIssued g old
  filesDistinct := by
    unfold Mongo.putFile
    dsimp only
    split
    · have same : (m.files.map fun old => if old.id == f.id then f else old).map (·.id) =
          m.files.map (·.id) := by
        rw [List.map_map]
        refine List.map_congr_left fun old _ => ?_
        change (if old.id == f.id then f else old).id = old.id
        split
        · rename_i equal
          exact (by simpa using equal : old.id = f.id).symm
        · rfl
      rw [same]
      exact wf.filesDistinct
    · rename_i absent
      simp only [List.any_eq_true, beq_iff_eq, not_exists, not_and] at absent
      rw [List.map_append, List.nodup_append]
      refine ⟨wf.filesDistinct, by simp, ?_⟩
      intro i member i' last same
      obtain ⟨old, memberOld, rfl⟩ := List.mem_map.mp member
      simp only [List.map_cons, List.map_nil, List.mem_singleton] at last
      exact absent old memberOld (by rw [same, last])

theorem issue (wf : MongoWf m) : MongoWf { m with issued := m.issued + 1 } where
  filesDistinct := wf.filesDistinct
  chunksDistinct := wf.chunksDistinct
  filesIssued := fun f member =>
    ⟨Nat.lt_succ_of_lt (wf.filesIssued f member).1, Nat.lt_succ_of_lt (wf.filesIssued f member).2⟩
  chunksIssued := fun c member => Nat.lt_succ_of_lt (wf.chunksIssued c member)

theorem delete (wf : MongoWf m) (key : ObjectId) : MongoWf (deleteMetaAndContent key m) where
  filesDistinct := wf.filesDistinct.sublist (List.filter_sublist.map _)
  chunksDistinct := wf.chunksDistinct.sublist (List.filter_sublist.map _)
  filesIssued := fun f member => wf.filesIssued f (List.mem_of_mem_filter member)
  chunksIssued := fun c member => wf.chunksIssued c (List.mem_of_mem_filter member)

/-- A filter that lets every match pass does not change what a search finds. -/
theorem find?_filter_of_imp {α : Type} {p q : α → Bool} {l : List α}
    (passes : ∀ a ∈ l, p a = true → q a = true) : (l.filter q).find? p = l.find? p := by
  induction l with
  | nil => rfl
  | cons a l ih =>
    have rest := ih fun b member => passes b (List.mem_cons_of_mem _ member)
    cases found : p a with
    | true =>
      rw [List.filter_cons_of_pos (passes a List.mem_cons_self found), List.find?_cons, found,
        List.find?_cons, found]
    | false =>
      rw [List.find?_cons, found, ← rest]
      by_cases kept : q a = true
      · rw [List.filter_cons_of_pos kept, List.find?_cons, found]
      · rw [List.filter_cons_of_neg kept]

theorem mem_removed_iff {key id : ObjectId} :
    id ∈ (m.files.filter fun f => f.storageKey == key).map (·.id) ↔
      ∃ f ∈ m.files, f.storageKey = key ∧ f.id = id := by
  simp only [List.mem_map, List.mem_filter, beq_iff_eq, and_assoc]

/-- The files of other keys stay. -/
theorem kept_of_ne (wf : MongoWf m) {key : ObjectId} (member : f ∈ m.files)
    (other : f.storageKey ≠ key) :
    f.id ∉ (m.files.filter fun f => f.storageKey == key).map (·.id) := by
  rw [mem_removed_iff]
  rintro ⟨g, memberG, owner, same⟩
  have equal : g = f := List.inj_on_of_nodup_map wf.filesDistinct memberG member same
  exact other (equal ▸ owner)

theorem content_delete {key : ObjectId}
    (kept : f.id ∉ (m.files.filter fun f => f.storageKey == key).map (·.id)) :
    (deleteMetaAndContent key m).content f = m.content f := by
  have same : ∀ n, (deleteMetaAndContent key m).findChunk f.id n = m.findChunk f.id n := by
    intro n
    refine find?_filter_of_imp fun c _ matches_ => ?_
    simp only [Bool.and_eq_true, beq_iff_eq] at matches_
    simpa [matches_.1] using kept
  unfold Mongo.content
  simp only [same]

theorem readFile_delete_of_ne (wf : MongoWf m) {key other : ObjectId} (ne : other ≠ key) :
    (deleteMetaAndContent key m).readFile other = m.readFile other := by
  refine find?_filter_of_imp fun f member matches_ => ?_
  have owner : f.storageKey = other := by simpa using matches_
  have kept := wf.kept_of_ne member (show f.storageKey ≠ key from owner ▸ ne)
  simpa using kept

/-- Removing one storage key leaves the bytes of every other one. -/
theorem storedBytes_delete_of_ne (wf : MongoWf m) {key other : ObjectId} (ne : other ≠ key) :
    (deleteMetaAndContent key m).storedBytes other = m.storedBytes other := by
  unfold Mongo.storedBytes
  rw [wf.readFile_delete_of_ne ne]
  cases found : m.readFile other with
  | none => rfl
  | some f =>
    obtain ⟨member, owner⟩ := Mongo.readFile_eq_some found
    exact content_delete (wf.kept_of_ne member (owner ▸ ne))

theorem storedBytes_delete_self (key : ObjectId) :
    (deleteMetaAndContent key m).storedBytes key = none := by
  have gone : (deleteMetaAndContent key m).readFile key = none := by
    unfold deleteMetaAndContent Mongo.readFile
    rw [List.find?_eq_none]
    intro f member
    obtain ⟨memberF, kept⟩ := List.mem_filter.mp member
    simp only [List.contains_eq_mem, Bool.not_eq_true', decide_eq_false_iff_not,
      mem_removed_iff] at kept
    simp only [beq_iff_eq]
    exact fun owner => kept ⟨f, memberF, owner, rfl⟩
  unfold Mongo.storedBytes
  rw [gone]
  rfl

/-- One call of `chunkedUpload` keeps the collections well formed. -/
theorem chunkedUpload {saves : Saves} {chunkIndex : Nat} {chunkCount : Int} {data : InputStream}
    {dataLength : Int} {mf : MFile} {chunkSize : Int} (wf : MongoWf m)
    (fits : dataLength ≤ chunkSize) (issued : mf.storageKey.serial < m.issued) :
    Action.Ends (MongoStorageService.chunkedUpload saves chunkIndex chunkCount data dataLength mf
      chunkSize) m fun _ m' => MongoWf m' ∧ m'.issued = m.issued := by
  have kept : ∀ m₁, Adds mf.storageKey chunkIndex dataLength m m₁ →
      MongoWf m₁ ∧ m₁.issued = m.issued := by
    rintro m₁ (rfl | ⟨data, -, -, free, rfl⟩)
    · exact ⟨wf, rfl⟩
    · exact ⟨wf.addChunk free issued, rfl⟩
  refine (chunkedUpload_ends fits).mono ?_
  rintro r m' (added | ⟨-, -, m₁, added, rfl⟩)
  · exact kept m' added
  · obtain ⟨wf₁, same⟩ := kept m₁ added
    exact ⟨wf₁.putFile (same ▸ issued) (same ▸ issued), same⟩

theorem mem_driverChunks {id : ObjectId} {bytes : Bytes} {count : Nat} :
    c ∈ driverChunks id bytes count ↔
      ∃ n < count, c = ⟨id, n, piece DEFAULT_CHUNKSIZE n bytes⟩ := by
  simp [driverChunks, eq_comm]

theorem appendChunks (wf : MongoWf m) (bytes : Bytes) (count : Nat) :
    MongoWf { m with
      issued := m.issued + 1
      chunks := m.chunks ++ driverChunks ⟨m.issued⟩ bytes count } where
  filesDistinct := wf.filesDistinct
  filesIssued := wf.issue.filesIssued
  chunksIssued := by
    intro c member
    rcases List.mem_append.mp member with old | new
    · exact Nat.lt_succ_of_lt (wf.chunksIssued c old)
    · obtain ⟨n, -, rfl⟩ := mem_driverChunks.mp new
      exact Nat.lt_succ_self _
  chunksDistinct := by
    rw [List.map_append, List.nodup_append]
    refine ⟨wf.chunksDistinct, ?_, ?_⟩
    · rw [driverChunks, List.map_map]
      exact List.nodup_range.map fun a b same => (Prod.mk.inj same).2
    · rintro _ memberA _ memberB rfl
      obtain ⟨c, old, same⟩ := List.mem_map.mp memberA
      obtain ⟨c', new, same'⟩ := List.mem_map.mp memberB
      obtain ⟨n, -, rfl⟩ := mem_driverChunks.mp new
      have below := wf.chunksIssued c old
      rw [(Prod.mk.inj (same.trans same'.symm)).1] at below
      exact Nat.lt_irrefl _ below

/-- One call of `writeFile` keeps the collections well formed. -/
theorem driven (wf : MongoWf m) {mf : MFile} {bytes : Bytes}
    (issued : mf.storageKey.serial < m.issued) (wrote : Driven mf bytes m r m') :
    MongoWf m' ∧ m.issued ≤ m'.issued := by
  cases wrote with
  | broken fault uncaught count => exact ⟨wf.appendChunks bytes count, Nat.le_succ _⟩
  | whole =>
    refine ⟨{ wf.appendChunks bytes _ with filesDistinct := ?_, filesIssued := ?_ }, Nat.le_succ _⟩
    · rw [List.map_append, List.nodup_append]
      refine ⟨wf.filesDistinct, List.nodup_singleton _, ?_⟩
      rintro _ memberA _ memberB rfl
      obtain ⟨f, old, same⟩ := List.mem_map.mp memberA
      have below := (wf.filesIssued f old).1
      rw [same, List.mem_singleton.mp memberB] at below
      exact Nat.lt_irrefl _ below
    · intro f member
      rcases List.mem_append.mp member with old | new
      · exact wf.issue.filesIssued f old
      · rw [List.mem_singleton.mp new]
        exact ⟨Nat.lt_succ_self _, Nat.lt_succ_of_lt issued⟩

/-- A file that the driver wrote reads as its bytes. -/
theorem content_driven (wf : MongoWf m) {mf : MFile} {bytes : Bytes}
    (issued : mf.storageKey.serial < m.issued) (wrote : Driven mf bytes m (.ok ()) m') :
    m'.files = m.files ++ [driverFile mf ⟨m.issued⟩ bytes] ∧
      m'.content (driverFile mf ⟨m.issued⟩ bytes) = some bytes := by
  have wf' := (wf.driven issued wrote).1
  cases wrote with
  | whole =>
    refine ⟨rfl, ?_⟩
    have read := @Mongo.content_of_chunks _ (driverFile mf ⟨m.issued⟩ bytes)
      (fun n => piece DEFAULT_CHUNKSIZE n bytes) (show (0 : Int) < DEFAULT_CHUNKSIZE by decide)
      fun n within =>
        ⟨_, (Mongo.findChunk_eq_some_iff wf').mpr ⟨List.mem_append_right _
          (mem_driverChunks.mpr ⟨n, within, rfl⟩), rfl, rfl⟩, rfl⟩
    exact read.trans (congrArg some (flatten_pieces (by decide) bytes))

end MongoWf

/-! ## The chunks after a call of chunkedUpload -/

namespace MongoStorageService

open Clb.Lib.Action

variable {m : Mongo} {saves : Saves} {chunkIndex : Nat} {chunkCount : Int} {data : InputStream}
  {dataLength : Int} {mf : MFile} {chunkSize : Int}

theorem Adds.hasChunk {storageKey k : ObjectId} {i : Nat}
    (added : Adds storageKey chunkIndex dataLength m m') (present : m.hasChunk k i = true) :
    m'.hasChunk k i = true := by
  rcases added with rfl | ⟨data, -, -, -, rfl⟩
  · exact present
  · exact Mongo.hasChunk_addChunk.mpr (.inl present)

theorem Driven.hasChunk {bytes : Bytes}
    (wrote : Driven mf bytes m r m') {k : ObjectId} {n : Nat} (present : m.hasChunk k n = true) :
    m'.hasChunk k n = true := by
  obtain ⟨c, member, same⟩ := Mongo.hasChunk_iff.mp present
  cases wrote with
  | broken | whole => exact Mongo.hasChunk_iff.mpr ⟨c, List.mem_append_left _ member, same⟩

theorem Driven.issued {bytes : Bytes}
    (wrote : Driven mf bytes m r m') : m'.issued = m.issued + 1 := by
  cases wrote with
  | broken | whole => rfl

/-- The driver adds one entry at most, under an id of its own. -/
theorem Driven.mem_files {bytes : Bytes} (wrote : Driven mf bytes m r m') (member : f ∈ m'.files) :
    f ∈ m.files ∨ f = driverFile mf ⟨m.issued⟩ bytes := by
  cases wrote with
  | broken => exact .inl member
  | whole => exact (List.mem_append.mp member).imp_right List.mem_singleton.mp

/-- A call adds one chunk of its key and one entry at most. -/
theorem chunkedUpload_adds (fits : dataLength ≤ chunkSize) :
    Ends (chunkedUpload saves chunkIndex chunkCount data dataLength mf chunkSize) m fun _ m' =>
      m'.issued = m.issued ∧ (∀ f ∈ m'.files, f ∈ m.files ∨ f = header mf chunkSize) ∧
        ∀ c ∈ m'.chunks, c ∈ m.chunks ∨ c.filesId = mf.storageKey := by
  have added : ∀ m₁, Adds mf.storageKey chunkIndex dataLength m m₁ →
      m₁.issued = m.issued ∧ m₁.files = m.files ∧
        ∀ c ∈ m₁.chunks, c ∈ m.chunks ∨ c.filesId = mf.storageKey := by
    rintro m₁ (rfl | ⟨bytes, -, -, -, rfl⟩)
    · exact ⟨rfl, rfl, fun _ => .inl⟩
    · refine ⟨rfl, rfl, fun c member => (List.mem_append.mp member).imp_right fun new => ?_⟩
      rw [List.mem_singleton.mp new]
  refine (chunkedUpload_ends fits).mono ?_
  rintro r m' (adds | ⟨-, -, m₁, adds, rfl⟩)
  · obtain ⟨issued, files, chunks⟩ := added m' adds
    exact ⟨issued, fun f member => .inl (files ▸ member), chunks⟩
  · obtain ⟨issued, files, chunks⟩ := added m₁ adds
    refine ⟨issued, fun f member => ?_, chunks⟩
    rcases Mongo.mem_putFile member with rfl | ⟨old, -⟩
    · exact .inr rfl
    · exact .inl (files ▸ old)

/-- A call takes no chunk away. -/
theorem chunkedUpload_keeps_chunks (fits : dataLength ≤ chunkSize) :
    Ends (chunkedUpload saves chunkIndex chunkCount data dataLength mf chunkSize) m fun _ m' =>
      ∀ k i, m.hasChunk k i = true → m'.hasChunk k i = true := by
  refine (chunkedUpload_ends fits).mono ?_
  rintro r m' (added | ⟨-, -, m₁, added, rfl⟩) k i present
  · exact added.hasChunk present
  · exact added.hasChunk present

theorem saveChunk_accepted :
    Ends (saveChunk true c) m fun r m' =>
      m'.hasChunk c.filesId c.n = true ∧ (r = .ok () ∨ r = .error .mongo) := by
  unfold saveChunk
  refine ends_attempt ?_ ?_
  · intro u m' stored
    split at stored
    · obtain ⟨-, rfl⟩ := Prod.mk.inj (Option.some.inj stored)
      exact ⟨Mongo.hasChunk_addChunk.mpr (.inr ⟨rfl, rfl⟩), .inl rfl⟩
    · cases stored
  · intro refused
    split at refused
    · cases refused
    · rename_i present
      exact ⟨by simpa using present, .inr rfl⟩

/-- The stream yields the declared bytes, at least one, and the server accepts the chunk. -/
structure Delivered (saves : Saves) (data : InputStream) (dataLength : Int) : Prop where
  nonempty : 0 < dataLength
  whole : data.fails = false
  exact : (data.reads.flatten.length : Int) = dataLength
  accepted : saves.chunk = true

/-- After a call whose data were delivered the chunk is there, however the call ends. -/
theorem Delivered.hasChunk (delivered : Delivered saves data dataLength)
    (fits : dataLength ≤ chunkSize) :
    Ends (chunkedUpload saves chunkIndex chunkCount data dataLength mf chunkSize) m fun _ m' =>
      m'.hasChunk mf.storageKey chunkIndex = true := by
  obtain ⟨nonempty, whole, exact, accepted⟩ := delivered
  rw [chunkedUpload_whole nonempty fits whole exact, accepted]
  have saved : ∀ m₁ : Mongo, m₁.hasChunk mf.storageKey chunkIndex = true →
      Ends (if true = true ∧ (chunkIndex : Int) = chunkCount - 1 then
        saveFile saves.header (header mf chunkSize) else pure ()) m₁ fun _ m' =>
          m'.hasChunk mf.storageKey chunkIndex = true := by
    intro m₁ present
    refine saveHeader_ends.mono ?_
    rintro r m' (rfl | ⟨-, -, rfl⟩)
    · exact present
    · exact present
  refine ends_bind (ends_catching (ends_bind (saveChunk_accepted.mono ?_)))
  rintro _ m₁ ⟨present, rfl | rfl⟩
  · exact ends_pure (saved m₁ present)
  · exact saved m₁ present

/-! ## The collections after a chunk was received -/

section Received

variable {bytes : Bytes}

theorem chunks_received :
    (received m mf chunkIndex chunkCount chunkSize bytes).chunks =
      if m.hasChunk mf.storageKey chunkIndex then m.chunks
      else m.chunks ++ [⟨mf.storageKey, chunkIndex, bytes⟩] := by
  unfold received
  dsimp only
  split_ifs <;> rfl

theorem files_received :
    (received m mf chunkIndex chunkCount chunkSize bytes).files =
      if (chunkIndex : Int) = chunkCount - 1 then (m.putFile (header mf chunkSize)).files
      else m.files := by
  unfold received
  dsimp only
  split_ifs <;> rfl

theorem hasChunk_received {k : ObjectId} {i : Nat} :
    (received m mf chunkIndex chunkCount chunkSize bytes).hasChunk k i = true ↔
      m.hasChunk k i = true ∨ (mf.storageKey = k ∧ chunkIndex = i) := by
  rw [Mongo.hasChunk_iff, chunks_received]
  split
  · rename_i present
    rw [← Mongo.hasChunk_iff]
    refine ⟨.inl, ?_⟩
    rintro (old | ⟨rfl, rfl⟩)
    · exact old
    · exact present
  · exact Mongo.hasChunk_iff.symm.trans
      (Mongo.hasChunk_addChunk (c := ⟨mf.storageKey, chunkIndex, bytes⟩))

theorem mem_chunks_received {c : GridFSChunk}
    (stored : c ∈ (received m mf chunkIndex chunkCount chunkSize bytes).chunks) :
    c ∈ m.chunks ∨ (m.hasChunk mf.storageKey chunkIndex = false ∧
      c = ⟨mf.storageKey, chunkIndex, bytes⟩) := by
  rw [chunks_received] at stored
  split at stored
  · exact .inl stored
  · rename_i absent
    exact (List.mem_append.mp stored).imp_right fun new =>
      ⟨Bool.eq_false_iff.mpr absent, List.mem_singleton.mp new⟩

theorem mem_files_received {f : GridFSFile}
    (stored : f ∈ (received m mf chunkIndex chunkCount chunkSize bytes).files) :
    f ∈ m.files ∨ f = header mf chunkSize := by
  rw [files_received] at stored
  split at stored
  · exact (Mongo.mem_putFile stored).elim .inr fun old => .inl old.1
  · exact .inl stored

/-- The last chunk brings the entry. -/
theorem header_received {n : Nat} (count : chunkCount - 1 = n)
    (before : m.hasChunk mf.storageKey n = true → ∃ f ∈ m.files, f.storageKey = mf.storageKey)
    (last : (received m mf chunkIndex chunkCount chunkSize bytes).hasChunk mf.storageKey n = true) :
    ∃ f ∈ (received m mf chunkIndex chunkCount chunkSize bytes).files,
      f.storageKey = mf.storageKey := by
  rw [files_received]
  split
  · exact ⟨_, Mongo.mem_putFile_self, rfl⟩
  · rename_i earlier
    rcases hasChunk_received.mp last with old | ⟨-, rfl⟩
    · exact before old
    · exact absurd count.symm earlier

end Received

end MongoStorageService

end Clb
