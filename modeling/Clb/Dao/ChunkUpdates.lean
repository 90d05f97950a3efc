/-
# Dao.ChunkUpdates -- a chunk map after any sequence of updates

`updateChunkStatus` reads the row of an upload, decodes its map, sets one bit or a set of them, and
writes the map back as text. `MapUpdate` is one such call. `sendAll_read` says that after a sequence
of calls the row is the object to which the calls that returned were applied one after the other, and
`chunkMap_faithful` that its empty chunks are those that no call has set. A call returns as long as
its map fits the column (`sendAll_eq_iff`). -/
import Clb.Dao.Statements

set_option autoImplicit false

namespace Clb.Dao

open Clb.Lib DocChunkStatusDAO

/-- A call of `updateChunkStatus`, with one index or with a set of them. -/
inductive MapUpdate where
  | index (chunkIndex : Nat)
  | set (chunkSet : Finset Nat)

namespace MapUpdate

def indices : MapUpdate → Finset Nat
  | .index chunkIndex => {chunkIndex}
  | .set chunkSet => chunkSet

/-- What the call makes of the object that it read. -/
def apply (old : DocChunkStatus) : MapUpdate → DocChunkStatus
  | .index chunkIndex => recorded chunkIndex old
  | .set chunkSet => old.updateChunkMap (old.loadChunkMap ∪ chunkSet)

def call (appid docid : Int) : MapUpdate → Action (Table DocChunkStatus) Fault DocChunkStatus
  | .index chunkIndex => updateChunkStatus appid docid chunkIndex
  | .set chunkSet => updateChunkStatusOfSet appid docid chunkSet

end MapUpdate

/-- The union of the indices that a sequence of calls sets. -/
def allIndices (updates : List MapUpdate) : Finset Nat :=
  updates.foldr (fun u indices => u.indices ∪ indices) ∅

/-- A sequence of calls, each in the table that the one before it left: the calls that returned, and
the last table. -/
def sendAll (appid docid : Int) :
    List MapUpdate → Table DocChunkStatus → List MapUpdate × Table DocChunkStatus
  | [], table => ([], table)
  | u :: rest, table =>
    match u.call appid docid table with
    | (.ok _, table') =>
      (u :: (sendAll appid docid rest table').1, (sendAll appid docid rest table').2)
    | (.error _, table') => sendAll appid docid rest table'

theorem mem_allIndices {updates : List MapUpdate} {i : Nat} :
    i ∈ allIndices updates ↔ ∃ u ∈ updates, i ∈ u.indices := by
  induction updates with
  | nil => simp [allIndices]
  | cons u rest ih => simp [allIndices, ← ih]

/-- The order of the calls does not matter to their union. -/
theorem allIndices_perm {updates updates' : List MapUpdate} (perm : updates'.Perm updates) :
    allIndices updates' = allIndices updates := by
  ext i
  simp only [mem_allIndices, perm.mem_iff]

/-! ## The object -/

section Object

variable {old : DocChunkStatus}

theorem MapUpdate.loadChunkMap_apply (u : MapUpdate) :
    (u.apply old).loadChunkMap = old.loadChunkMap ∪ u.indices := by
  cases u with
  | index chunkIndex =>
    refine (DocChunkStatus.loadChunkMap_updateChunkMap _ _).trans ?_
    rw [indices, Finset.union_comm, Finset.insert_eq]
  | set chunkSet => exact DocChunkStatus.loadChunkMap_updateChunkMap _ _

theorem MapUpdate.numOfChunk_apply (u : MapUpdate) : (u.apply old).numOfChunk = old.numOfChunk := by
  cases u with
  | index chunkIndex => rfl
  | set chunkSet => rfl

theorem numOfChunk_foldl (updates : List MapUpdate) :
    (updates.foldl MapUpdate.apply old).numOfChunk = old.numOfChunk := by
  induction updates generalizing old with
  | nil => rfl
  | cons u rest ih => exact ih.trans u.numOfChunk_apply

theorem loadChunkMap_foldl (updates : List MapUpdate) :
    (updates.foldl MapUpdate.apply old).loadChunkMap = old.loadChunkMap ∪ allIndices updates := by
  induction updates generalizing old with
  | nil => exact (Finset.union_empty _).symm
  | cons u rest ih => rw [List.foldl_cons, ih, u.loadChunkMap_apply, Finset.union_assoc]; rfl

theorem toFinset_findEmptyChunk (dcs : DocChunkStatus) :
    dcs.findEmptyChunk.toFinset = Finset.range dcs.numOfChunk.toNat \ dcs.loadChunkMap := by
  ext i
  simp [DocChunkStatus.findEmptyChunk]

theorem loadChunkMap_blank (blank : old.chunkMap = none ∨ old.chunkMap = some []) :
    old.loadChunkMap = ∅ := by
  unfold DocChunkStatus.loadChunkMap
  rcases blank with null | empty
  · rw [null]
    rfl
  · rw [empty]
    rfl

/-- The empty chunks of an object whose map was blank, after any updates of it. -/
theorem findEmptyChunk_foldl (blank : old.chunkMap = none ∨ old.chunkMap = some [])
    (updates : List MapUpdate) :
    (updates.foldl MapUpdate.apply old).findEmptyChunk.toFinset =
      Finset.range old.numOfChunk.toNat \ allIndices updates := by
  rw [toFinset_findEmptyChunk, numOfChunk_foldl, loadChunkMap_foldl, loadChunkMap_blank blank,
    Finset.empty_union]

end Object

/-! ## The row -/

section Row

variable {appid docid : Int} {table : Table DocChunkStatus} {old : DocChunkStatus}

theorem updateObject_ends (t : DocChunkStatus) (numbered : Table.Numbered DocChunkStatus.id table)
    (member : old ∈ table.rows) (same : t.id = old.id) :
    Action.Ends (DocChunkStatusDAO.updateObject t) table fun r table' =>
      (∃ fault, r = .error fault ∧ table' = table) ∨
        (r = .ok () ∧ table' = table.replace DocChunkStatus.id old
          (getSetValuesClause docChunkStatusDAO.fields t [] old)) := by
  unfold DocChunkStatusDAO.updateObject
  refine Action.ends_attempt ?_ fun _ => .inl ⟨_, rfl, rfl⟩
  rintro ⟨⟩ written sent
  obtain ⟨_, updated, equal⟩ := Option.map_eq_some_iff.mp sent
  cases equal
  have equation := @BaseDAO.updateObject_eq _ docChunkStatusDAO t _ numbered old member same
  rw [updated, eq_comm, Option.ite_none_right_eq_some] at equation
  exact .inr ⟨rfl, (Option.some.inj equation.2).symm⟩

/-- A call raises and leaves the table, or the row becomes the object that it returns. -/
theorem MapUpdate.call_ends (u : MapUpdate) (numbered : Table.Numbered DocChunkStatus.id table)
    (found : DocChunkStatusDAO.read appid docid table = some old) :
    Action.Ends (u.call appid docid) table fun r table' =>
      (∃ fault, r = .error fault ∧ table' = table) ∨
        (r = .ok (u.apply old) ∧
          table' = table.replace DocChunkStatus.id old (u.apply old)) := by
  have member := (docChunkStatus_read_some found).1
  cases u with
  | index chunkIndex =>
    refine Action.ends_bind (Action.ends_read ?_)
    rw [found]
    refine Action.ends_bind (Action.ends_pure (Action.ends_bind ?_))
    refine (updateObject_ends (recorded chunkIndex old) numbered member rfl).mono ?_
    rintro _ _ (⟨fault, rfl, rfl⟩ | ⟨rfl, rfl⟩)
    · exact .inl ⟨fault, rfl, rfl⟩
    · refine Action.ends_bind (Action.ends_of_eq (writeIndexZero_set chunkIndex) ?_)
      exact Action.ends_pure (.inr ⟨rfl, rfl⟩)
  | set chunkSet =>
    refine Action.ends_bind (Action.ends_read ?_)
    rw [found]
    refine Action.ends_bind (Action.ends_pure (Action.ends_bind ?_))
    refine (updateObject_ends (old.updateChunkMap (old.loadChunkMap ∪ chunkSet)) numbered member
      rfl).mono ?_
    rintro _ _ (⟨fault, rfl, rfl⟩ | ⟨rfl, rfl⟩)
    · exact .inl ⟨fault, rfl, rfl⟩
    · rw [updateChunkMap_set]
      exact Action.ends_pure (.inr ⟨rfl, rfl⟩)

/-- The row is found again by the same lookup. -/
theorem MapUpdate.read_replace (u : MapUpdate) (numbered : Table.Numbered DocChunkStatus.id table)
    (found : DocChunkStatusDAO.read appid docid table = some old) :
    DocChunkStatusDAO.read appid docid (table.replace DocChunkStatus.id old (u.apply old)) =
      some (u.apply old) := by
  have sameKey : (u.apply old).appid = old.appid ∧ (u.apply old).docid = old.docid ∧
      (u.apply old).version = old.version := by
    cases u with
    | index chunkIndex => exact ⟨rfl, rfl, rfl⟩
    | set chunkSet => exact ⟨rfl, rfl, rfl⟩
  refine @BaseDAO.findAndReturnOnly_replace _ docChunkStatusDAO _ _ _ _ numbered found ?_
  rw [Bool.eq_iff_iff, docChunkStatus_clause, docChunkStatus_clause, sameKey.1, sameKey.2.1,
    sameKey.2.2]

theorem MapUpdate.numbered_replace (u : MapUpdate)
    (numbered : Table.Numbered DocChunkStatus.id table) :
    Table.Numbered DocChunkStatus.id (table.replace DocChunkStatus.id old (u.apply old)) := by
  refine numbered.replace ?_
  cases u with
  | index chunkIndex => rfl
  | set chunkSet => rfl

theorem sendAll_ok {u : MapUpdate} {rest : List MapUpdate} {c : DocChunkStatus}
    {table' : Table DocChunkStatus} (returned : u.call appid docid table = (.ok c, table')) :
    sendAll appid docid (u :: rest) table =
      (u :: (sendAll appid docid rest table').1, (sendAll appid docid rest table').2) := by
  rw [sendAll, returned]

theorem sendAll_error {u : MapUpdate} {rest : List MapUpdate} {fault : Fault}
    {table' : Table DocChunkStatus} (raised : u.call appid docid table = (.error fault, table')) :
    sendAll appid docid (u :: rest) table = sendAll appid docid rest table' := by
  rw [sendAll, raised]

/-- **The row after a sequence of calls.** It is the object to which the calls that returned have
been applied. -/
theorem sendAll_read (updates : List MapUpdate) (numbered : Table.Numbered DocChunkStatus.id table)
    (found : DocChunkStatusDAO.read appid docid table = some old) :
    DocChunkStatusDAO.read appid docid (sendAll appid docid updates table).2 =
      some ((sendAll appid docid updates table).1.foldl MapUpdate.apply old) := by
  induction updates generalizing table old with
  | nil => exact found
  | cons u rest ih =>
    have ended := u.call_ends numbered found
    rcases out : u.call appid docid table with ⟨r, table'⟩
    rcases ended.apply out with ⟨fault, rfl, rfl⟩ | ⟨rfl, rfl⟩
    · rw [sendAll_error out]
      exact ih numbered found
    · rw [sendAll_ok out]
      exact ih (u.numbered_replace numbered) (u.read_replace numbered found)

/-! ## Which calls return -/

theorem MapUpdate.call_eq (u : MapUpdate) (numbered : Table.Numbered DocChunkStatus.id table)
    (found : DocChunkStatusDAO.read appid docid table = some old)
    (fits : docChunkStatusDAO.fits old = true) :
    u.call appid docid table =
      if ∀ i ∈ (u.apply old).loadChunkMap, i < mapLimit then
        (.ok (u.apply old), table.replace DocChunkStatus.id old (u.apply old))
      else
        (.error .dataIntegrity, table) := by
  cases u with
  | index chunkIndex =>
    rw [apply, recorded, DocChunkStatus.loadChunkMap_updateChunkMap]
    exact updateChunkStatus_eq numbered found fits
  | set chunkSet =>
    rw [apply, DocChunkStatus.loadChunkMap_updateChunkMap]
    exact updateChunkStatusOfSet_eq numbered found fits

theorem MapUpdate.fits_apply (u : MapUpdate) (fits : docChunkStatusDAO.fits old = true)
    (small : ∀ i ∈ (u.apply old).loadChunkMap, i < mapLimit) :
    docChunkStatusDAO.fits (u.apply old) = true := by
  cases u with
  | index chunkIndex =>
    rw [apply, recorded, DocChunkStatus.loadChunkMap_updateChunkMap] at small
    exact (fits_recorded fits chunkIndex).mpr small
  | set chunkSet =>
    rw [apply, DocChunkStatus.loadChunkMap_updateChunkMap] at small
    exact (fits_updateChunkMap fits _).mpr small

theorem length_sendAll_le (updates : List MapUpdate) (table : Table DocChunkStatus) :
    (sendAll appid docid updates table).1.length ≤ updates.length := by
  induction updates generalizing table with
  | nil => exact Nat.le_refl _
  | cons u rest ih =>
    rcases out : u.call appid docid table with ⟨fault | c, table'⟩
    · rw [sendAll_error out]
      exact (ih table').trans (Nat.le_succ _)
    · rw [sendAll_ok out]
      exact Nat.succ_le_succ (ih table')

/-- **All calls return if and only if the map can hold their indices.** -/
theorem sendAll_eq_iff (updates : List MapUpdate)
    (numbered : Table.Numbered DocChunkStatus.id table)
    (found : DocChunkStatusDAO.read appid docid table = some old)
    (fits : docChunkStatusDAO.fits old = true) (small : ∀ i ∈ old.loadChunkMap, i < mapLimit) :
    (sendAll appid docid updates table).1 = updates ↔ ∀ i ∈ allIndices updates, i < mapLimit := by
  induction updates generalizing table old with
  | nil => simp [sendAll, allIndices]
  | cons u rest ih =>
    have out := u.call_eq numbered found fits
    have bounded : (∀ i ∈ (u.apply old).loadChunkMap, i < mapLimit) ↔
        ∀ i ∈ u.indices, i < mapLimit := by
      rw [u.loadChunkMap_apply, Finset.forall_mem_union]
      exact and_iff_right small
    have split : (∀ i ∈ allIndices (u :: rest), i < mapLimit) ↔
        (∀ i ∈ u.indices, i < mapLimit) ∧ ∀ i ∈ allIndices rest, i < mapLimit :=
      Finset.forall_mem_union
    rw [split]
    by_cases stored : ∀ i ∈ (u.apply old).loadChunkMap, i < mapLimit
    · rw [if_pos stored] at out
      rw [sendAll_ok out, List.cons_inj_right, ih (u.numbered_replace numbered)
        (u.read_replace numbered found) (u.fits_apply fits stored) stored]
      exact (and_iff_right (bounded.mp stored)).symm
    · rw [if_neg stored] at out
      rw [sendAll_error out]
      refine iff_of_false (fun same => ?_) fun both => stored (bounded.mpr both.1)
      -- a call that raised is missing from the list
      have short := @length_sendAll_le appid docid rest table
      rw [same] at short
      exact Nat.not_succ_le_self _ short

end Row

/-- **The stored bit map is a faithful set.** Every set is read back from its text. Updates of an
object with a blank map leave exactly the chunks empty that none of them has set, in whatever order
they come. So do the calls on its row that return, and all of them do if and only if the column can
hold the map of their indices. -/
theorem chunkMap_faithful (start : DocChunkStatus)
    (blank : start.chunkMap = none ∨ start.chunkMap = some []) (updates : List MapUpdate) :
    (∀ b : Finset Nat, BitSetUtil.deserialize (BitSetUtil.serialize b) = b) ∧
    (∀ updates' : List MapUpdate, updates'.Perm updates →
      (updates'.foldl MapUpdate.apply start).findEmptyChunk.toFinset =
        Finset.range start.numOfChunk.toNat \ allIndices updates) ∧
    ∀ (appid docid : Int) (table : Table DocChunkStatus),
      Table.Numbered DocChunkStatus.id table →
      DocChunkStatusDAO.read appid docid table = some start →
        ∃ row, DocChunkStatusDAO.read appid docid (sendAll appid docid updates table).2 = some row ∧
          row.findEmptyChunk.toFinset = Finset.range start.numOfChunk.toNat \
            allIndices (sendAll appid docid updates table).1 ∧
          (docChunkStatusDAO.fits start = true →
            ((sendAll appid docid updates table).1 = updates ↔
              ∀ i ∈ allIndices updates, i < mapLimit)) := by
  refine ⟨BitSetUtil.deserialize_serialize, ?_, ?_⟩
  · intro updates' perm
    rw [findEmptyChunk_foldl blank, allIndices_perm perm]
  · intro appid docid table numbered found
    refine ⟨_, sendAll_read updates numbered found, findEmptyChunk_foldl blank _, fun fits => ?_⟩
    refine sendAll_eq_iff updates numbered found fits fun i member => ?_
    rw [loadChunkMap_blank blank] at member
    exact absurd member (Finset.notMem_empty i)

/-- An upload of ten chunks of which none has been received. -/
def tenChunks : DocChunkStatus :=
  { id := 1, appid := 1, docid := 1, version := 1, chunkSize := 4, numOfChunk := 10, fileSize := 40
    currentChunkIndex := -1, status := some "waiting".toList, md5 := some "m".toList }

theorem numbered_tenChunks : Table.Numbered DocChunkStatus.id ⟨[tenChunks], 2⟩ :=
  ⟨by decide, by decide, by decide, by decide⟩

theorem chunkMap_faithful_tenChunks :
    ∃ row, DocChunkStatusDAO.read 1 1
        (sendAll 1 1 [.index 3, .set {0, 8, 12}, .index 8] ⟨[tenChunks], 2⟩).2 = some row ∧
      row.findEmptyChunk.toFinset = {1, 2, 4, 5, 6, 7, 9} := by
  obtain ⟨row, found, empty, -⟩ := (chunkMap_faithful tenChunks (.inl rfl)
    [.index 3, .set {0, 8, 12}, .index 8]).2.2 1 1 ⟨[tenChunks], 2⟩ numbered_tenChunks rfl
  refine ⟨row, found, empty.trans ?_⟩
  decide +kernel

end Clb.Dao
