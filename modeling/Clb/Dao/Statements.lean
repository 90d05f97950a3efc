/-
# Dao.Statements -- what the DAO calls read and write

One lemma per call that the services make: what a returned row satisfies, and for the calls that
write, the table they leave. The chunk status updates are equations: a map that the column cannot
hold raises and leaves the table alone. -/
import Clb.Dao.Clauses

set_option autoImplicit false

namespace Clb.Dao

open Clb.Lib DocChunkStatusDAO

variable {T : Type} {md5 : Option Text} {old : DocChunkStatus}
variable {appid docid : Int} {table : Table DocVersion} {row : DocVersion}

theorem BaseDAO.findAndReturnOnly_eq_some {dao : BaseDAO T} {t row : T} {table : Table T}
    (found : dao.findAndReturnOnly t table = some row) :
    row ∈ table.rows ∧ choseAllFieldsAsQueryClause dao.fields t row = true :=
  List.mem_filter.mp (List.mem_of_mem_head? found)

theorem BaseDAO.findAndReturnOnly_eq_none {dao : BaseDAO T} {t : T} {table : Table T}
    (missing : dao.findAndReturnOnly t table = none) {row : T} (member : row ∈ table.rows) :
    ¬choseAllFieldsAsQueryClause dao.fields t row = true := by
  unfold BaseDAO.findAndReturnOnly BaseDAO.findByProperties at missing
  rw [List.head?_eq_none_iff, List.filter_eq_nil_iff] at missing
  exact missing row member

/-- A single selected row is the one returned. -/
theorem BaseDAO.findAndReturnOnly_of_unique {dao : BaseDAO T} {t row : T}
    {table : Table T} (member : row ∈ table.rows)
    (selected : choseAllFieldsAsQueryClause dao.fields t row = true)
    (unique : ∀ r ∈ table.rows, choseAllFieldsAsQueryClause dao.fields t r = true → r = row) :
    dao.findAndReturnOnly t table = some row := by
  cases found : dao.findAndReturnOnly t table with
  | none => exact absurd selected (BaseDAO.findAndReturnOnly_eq_none found member)
  | some r =>
    obtain ⟨inside, chosen⟩ := BaseDAO.findAndReturnOnly_eq_some found
    rw [unique r inside chosen]

/-- An update that keeps the selected rows selected changes the returned row in place. -/
theorem BaseDAO.findAndReturnOnly_update {dao : BaseDAO T} {t : T} {table : Table T}
    {selected : T → Bool} {edit : T → T}
    (keeps : ∀ r ∈ table.rows, selected r = true →
      choseAllFieldsAsQueryClause dao.fields t (edit r) =
        choseAllFieldsAsQueryClause dao.fields t r) :
    dao.findAndReturnOnly t (table.update selected edit) =
      (dao.findAndReturnOnly t table).map fun r => if selected r then edit r else r := by
  unfold findAndReturnOnly findByProperties
  rw [Table.filter_update keeps, List.head?_map]

/-- The returned row, rewritten so that it stays selected, is returned again. -/
theorem BaseDAO.findAndReturnOnly_replace {T : Type} {dao : BaseDAO T} {t row new : T}
    {table : Table T} (numbered : Table.Numbered dao.getId table)
    (found : dao.findAndReturnOnly t table = some row)
    (same : choseAllFieldsAsQueryClause dao.fields t new =
      choseAllFieldsAsQueryClause dao.fields t row) :
    dao.findAndReturnOnly t (table.replace dao.getId row new) = some new := by
  have member := (findAndReturnOnly_eq_some found).1
  unfold Table.replace
  rw [findAndReturnOnly_update, found]
  · simp
  · intro r inside chosen
    rw [numbered.eq_of_ident_eq inside member (by simpa using chosen), same]

/-! ## Reads -/

theorem docMeta_read_some {table : Table DocMeta} {row : DocMeta}
    (found : DocMetaDAO.read appid docid table = some row) :
    row ∈ table.rows ∧ Selects appid row.appid ∧ Selects docid row.docid := by
  obtain ⟨member, chosen⟩ := BaseDAO.findAndReturnOnly_eq_some found
  exact ⟨member, docMeta_clause.mp chosen⟩

theorem docRef_read_some {size : Int} {table : Table DocRef} {row : DocRef}
    (found : DocRefDAO.read md5 size table = some row) :
    row ∈ table.rows ∧ (md5 ≠ none → row.md5 = md5) ∧ Selects size row.size := by
  obtain ⟨member, chosen⟩ := BaseDAO.findAndReturnOnly_eq_some found
  exact ⟨member, docRef_clause.mp chosen⟩

theorem docRef_read_none {size : Int} {table : Table DocRef}
    (missing : DocRefDAO.read md5 size table = none) {row : DocRef} (member : row ∈ table.rows)
    (digest : row.md5 = md5) : row.size ≠ size := by
  intro same
  refine BaseDAO.findAndReturnOnly_eq_none missing member (docRef_clause.mpr ⟨fun _ => digest, ?_⟩)
  exact fun _ => same

theorem docChunkStatus_read_some {table : Table DocChunkStatus}
    {row : DocChunkStatus} (found : DocChunkStatusDAO.read appid docid table = some row) :
    row ∈ table.rows ∧ Selects appid row.appid ∧ Selects docid row.docid ∧ row.version = 1 := by
  obtain ⟨member, chosen⟩ := BaseDAO.findAndReturnOnly_eq_some found
  exact ⟨member, docChunkStatus_clause.mp chosen⟩

theorem mem_readVersions :
    row ∈ DocVersionDAO.readVersions appid docid table ↔
      row ∈ table.rows ∧ Selects appid row.appid ∧ Selects docid row.docid := by
  unfold DocVersionDAO.readVersions orderByVersionDesc BaseDAO.findByProperties
  rw [List.mem_insertionSort, List.mem_filter]
  have clause := @docVersion_clause ⟨appid, docid, 0⟩ row
  refine and_congr_right fun _ => clause.trans ?_
  exact ⟨fun ⟨a, b, _⟩ => ⟨a, b⟩, fun ⟨a, b⟩ => ⟨a, b, selects_zero _⟩⟩

theorem readLastVersion_some (found : DocVersionDAO.readLastVersion appid docid table = some row) :
    row ∈ table.rows ∧ Selects appid row.appid ∧ Selects docid row.docid :=
  mem_readVersions.mp (List.mem_of_mem_head? found)

/-- The row that `DocVersionDAO.read` finds, by number or as the last one. -/
theorem docVersion_read_some {p : DPair} (found : DocVersionDAO.read p table = some row) :
    row ∈ table.rows ∧ Selects p.appid row.appid ∧ Selects p.docid row.docid := by
  unfold DocVersionDAO.read at found
  split at found
  · exact readLastVersion_some found
  · obtain ⟨member, chosen⟩ := BaseDAO.findAndReturnOnly_eq_some found
    obtain ⟨sameApp, sameDoc, -⟩ := docVersion_clause.mp chosen
    exact ⟨member, sameApp, sameDoc⟩

theorem readLastVersion_none (missing : DocVersionDAO.readLastVersion appid docid table = none)
    (member : row ∈ table.rows) : ¬(Selects appid row.appid ∧ Selects docid row.docid) := by
  intro chosen
  unfold DocVersionDAO.readLastVersion at missing
  rw [List.head?_eq_none_iff] at missing
  have := mem_readVersions.mpr ⟨member, chosen⟩
  rw [missing] at this
  exact List.not_mem_nil this

/-- The last version is the greatest one. -/
theorem readLastVersion_greatest
    {row other : DocVersion} (found : DocVersionDAO.readLastVersion appid docid table = some row)
    (member : other ∈ table.rows) (sameApp : Selects appid other.appid)
    (sameDoc : Selects docid other.docid) : other.version ≤ row.version := by
  have inside := mem_readVersions.mpr ⟨member, sameApp, sameDoc⟩
  have sorted : (DocVersionDAO.readVersions appid docid table).Pairwise
      fun a b => b.version ≤ a.version :=
    List.pairwise_insertionSort _ _
  unfold DocVersionDAO.readLastVersion at found
  cases rows : DocVersionDAO.readVersions appid docid table with
  | nil => rw [rows] at found; cases found
  | cons head tail =>
    rw [rows] at found inside sorted
    obtain rfl : head = row := Option.some.inj found
    rcases List.mem_cons.mp inside with rfl | below
    · exact Int.le_refl _
    · exact (List.pairwise_cons.mp sorted).1 other below

/-- A document with a single version row. -/
theorem readLastVersion_of_unique
    (member : row ∈ table.rows) (sameApp : Selects appid row.appid) (sameDoc : Selects docid row.docid)
    (unique : ∀ v ∈ table.rows, Selects appid v.appid → Selects docid v.docid → v = row) :
    DocVersionDAO.readLastVersion appid docid table = some row := by
  cases found : DocVersionDAO.readLastVersion appid docid table with
  | none => exact absurd ⟨sameApp, sameDoc⟩ (readLastVersion_none found member)
  | some v =>
    obtain ⟨inside, chosenApp, chosenDoc⟩ := readLastVersion_some found
    rw [unique v inside chosenApp chosenDoc]

/-! ## Chunk status updates -/

theorem fits_updateChunkMap {row : DocChunkStatus} (fits : docChunkStatusDAO.fits row = true)
    (bitSet : Finset Nat) :
    docChunkStatusDAO.fits (row.updateChunkMap bitSet) = true ↔ ∀ i ∈ bitSet, i < mapLimit := by
  rw [← serialize_fits_iff]
  simp only [docChunkStatusDAO, Bool.and_eq_true] at fits ⊢
  simp only [DocChunkStatus.updateChunkMap, fits, true_and]

theorem updateObject_chunkMap {table : Table DocChunkStatus} {row : DocChunkStatus}
    (numbered : Table.Numbered DocChunkStatus.id table) (member : row ∈ table.rows)
    (fits : docChunkStatusDAO.fits row = true) (bitSet : Finset Nat) :
    DocChunkStatusDAO.updateObject (row.updateChunkMap bitSet) table =
      if ∀ i ∈ bitSet, i < mapLimit then
        (.ok (), table.replace DocChunkStatus.id row (row.updateChunkMap bitSet))
      else
        (.error .dataIntegrity, table) := by
  have written := @BaseDAO.updateObject_eq _ docChunkStatusDAO (row.updateChunkMap bitSet) table
    numbered row member rfl
  rw [updateChunkMap_set] at written
  unfold DocChunkStatusDAO.updateObject Action.attempt
  dsimp only
  rw [written]
  by_cases small : ∀ i ∈ bitSet, i < mapLimit
  · rw [if_pos ((fits_updateChunkMap fits bitSet).mpr small), if_pos small]
    rfl
  · rw [if_neg (fun fitsNew => small ((fits_updateChunkMap fits bitSet).mp fitsNew)), if_neg small]
    rfl

theorem updateChunkStatusOfSet_eq {appid docid : Int} {chunkSet : Finset Nat}
    {table : Table DocChunkStatus} {old : DocChunkStatus}
    (numbered : Table.Numbered DocChunkStatus.id table)
    (found : DocChunkStatusDAO.read appid docid table = some old)
    (fits : docChunkStatusDAO.fits old = true) :
    DocChunkStatusDAO.updateChunkStatusOfSet appid docid chunkSet table =
      if ∀ i ∈ old.loadChunkMap ∪ chunkSet, i < mapLimit then
        (.ok (old.updateChunkMap (old.loadChunkMap ∪ chunkSet)),
          table.replace DocChunkStatus.id old (old.updateChunkMap (old.loadChunkMap ∪ chunkSet)))
      else
        (.error .dataIntegrity, table) := by
  have written := updateObject_chunkMap numbered (docChunkStatus_read_some found).1 fits
    (old.loadChunkMap ∪ chunkSet)
  unfold DocChunkStatusDAO.updateChunkStatusOfSet
  rw [Action.read_bind, found, Action.require_some_bind]
  split at written
  · rename_i small
    rw [Action.bind_ok written, if_pos small]
    rfl
  · rename_i large
    rw [Action.bind_error written, if_neg large]

theorem updateChunkStatusOfSet_missing {chunkSet : Finset Nat}
    {table : Table DocChunkStatus} (missing : DocChunkStatusDAO.read appid docid table = none) :
    DocChunkStatusDAO.updateChunkStatusOfSet appid docid chunkSet table =
      (.error .nullPointer, table) := by
  unfold DocChunkStatusDAO.updateChunkStatusOfSet
  rw [Action.read_bind, missing, Action.require_none_bind]

/-- The statement for the index zero and the one before it together write the whole row. -/
theorem replace_update {table : Table DocChunkStatus} {old new : DocChunkStatus}
    (numbered : new.id = old.id) (edit : DocChunkStatus → DocChunkStatus) :
    (table.replace DocChunkStatus.id old new).update (fun row => row.id == old.id) edit =
      table.replace DocChunkStatus.id old (edit new) := by
  unfold Table.replace Table.update
  congr 1
  rw [List.map_map]
  refine List.map_congr_left fun row _ => ?_
  by_cases same : row.id = old.id
  · simp [same, numbered]
  · simp [same]

theorem fits_recorded (fits : docChunkStatusDAO.fits old = true) (chunkIndex : Nat) :
    docChunkStatusDAO.fits (recorded chunkIndex old) = true ↔
      ∀ i ∈ insert chunkIndex old.loadChunkMap, i < mapLimit := by
  refine fits_updateChunkMap ?_ _
  simp only [docChunkStatusDAO, Bool.and_eq_true] at fits ⊢
  refine ⟨⟨⟨⟨?_, ?_⟩, fits.1.1.2⟩, fits.1.2⟩, fits.2⟩
  · split
    · rfl
    · exact fits.1.1.1.1
  · split
    · decide
    · exact fits.1.1.1.2

/-- `updateObject` writes a recorded chunk but for an index of zero. -/
theorem recorded_set {row : DocChunkStatus} (chunkIndex : Nat) :
    getSetValuesClause docChunkStatusDAO.fields (recorded chunkIndex row) [] row =
      if chunkIndex = 0 then { recorded 0 row with currentChunkIndex := row.currentChunkIndex }
      else recorded chunkIndex row := by
  rw [getSetValuesClause_eq]
  rcases row with ⟨id, chunkSize, appid, docid, version, current, status, count, map, size, md5⟩
  by_cases zero : chunkIndex = 0
  · simp [docChunkStatusDAO, number, text, isUninitField, recorded, DocChunkStatus.updateChunkMap,
      BitSetUtil.serialize, zero, DocChunkStatus.loadChunkMap]
  · simp [docChunkStatusDAO, number, text, isUninitField, recorded, DocChunkStatus.updateChunkMap,
      BitSetUtil.serialize, zero, DocChunkStatus.loadChunkMap]

/-- The statement for the index zero completes the row that `updateObject` left. -/
theorem writeIndexZero_set {table : Table DocChunkStatus} (chunkIndex : Nat) :
    writeIndexZero old.id chunkIndex
        (table.replace DocChunkStatus.id old
          (getSetValuesClause docChunkStatusDAO.fields (recorded chunkIndex old) [] old)) =
      (.ok (), table.replace DocChunkStatus.id old (recorded chunkIndex old)) := by
  rw [recorded_set]
  unfold writeIndexZero Action.write
  dsimp only
  by_cases zero : chunkIndex = 0
  · subst zero
    refine congrArg (Prod.mk (Except.ok ())) (replace_update ?_ _)
    rfl
  · rw [if_neg zero, if_neg zero]

theorem updateObject_recorded {table : Table DocChunkStatus}
    (numbered : Table.Numbered DocChunkStatus.id table) (member : old ∈ table.rows)
    (fits : docChunkStatusDAO.fits old = true) (chunkIndex : Nat) :
    DocChunkStatusDAO.updateObject (recorded chunkIndex old) table =
      if ∀ i ∈ insert chunkIndex old.loadChunkMap, i < mapLimit then
        (.ok (), table.replace DocChunkStatus.id old
          (getSetValuesClause docChunkStatusDAO.fields (recorded chunkIndex old) [] old))
      else
        (.error .dataIntegrity, table) := by
  have written := @BaseDAO.updateObject_eq _ docChunkStatusDAO (recorded chunkIndex old) table
    numbered old member rfl
  have same : docChunkStatusDAO.fits
      (getSetValuesClause docChunkStatusDAO.fields (recorded chunkIndex old) [] old) =
        docChunkStatusDAO.fits (recorded chunkIndex old) := by
    rw [recorded_set]
    split
    · rename_i zero
      rw [zero]
      rfl
    · rfl
  rw [same] at written
  unfold DocChunkStatusDAO.updateObject Action.attempt
  dsimp only
  rw [written]
  by_cases small : ∀ i ∈ insert chunkIndex old.loadChunkMap, i < mapLimit
  · rw [if_pos ((fits_recorded fits chunkIndex).mpr small), if_pos small]
    rfl
  · rw [if_neg fun fitsNew => small ((fits_recorded fits chunkIndex).mp fitsNew), if_neg small]
    rfl

theorem updateChunkStatus_eq {appid docid : Int} {chunkIndex : Nat} {table : Table DocChunkStatus}
    {old : DocChunkStatus} (numbered : Table.Numbered DocChunkStatus.id table)
    (found : DocChunkStatusDAO.read appid docid table = some old)
    (fits : docChunkStatusDAO.fits old = true) :
    DocChunkStatusDAO.updateChunkStatus appid docid chunkIndex table =
      if ∀ i ∈ insert chunkIndex old.loadChunkMap, i < mapLimit then
        (.ok (recorded chunkIndex old),
          table.replace DocChunkStatus.id old (recorded chunkIndex old))
      else
        (.error .dataIntegrity, table) := by
  have written := updateObject_recorded numbered (docChunkStatus_read_some found).1 fits chunkIndex
  unfold updateChunkStatus
  rw [Action.read_bind, found, Action.require_some_bind]
  split at written
  · rename_i small
    rw [Action.bind_ok written, Action.bind_ok (writeIndexZero_set chunkIndex), if_pos small]
    rfl
  · rename_i large
    rw [Action.bind_error written, if_neg large]

/-! ## New versions and counters -/

/-- The version of the procedure is above those of the document. -/
theorem nextVersion_spec {appid docid : Int} {table : Table DocVersion}
    (positive : ∀ row ∈ table.rows, 0 < row.version) :
    0 < DocVersionDAO.nextVersion appid docid table ∧
      ∀ row ∈ table.rows, row.appid = appid → row.docid = docid →
        row.version < DocVersionDAO.nextVersion appid docid table := by
  have selected : ∀ n, n ∈ ((table.rows.filter fun r => r.docid == docid && r.appid == appid).map
      (·.version)) ↔ ∃ row ∈ table.rows, (row.docid = docid ∧ row.appid = appid) ∧ row.version = n := by
    intro n
    simp [and_assoc]
  unfold DocVersionDAO.nextVersion
  dsimp only
  split
  · rename_i none_
    rw [List.max?_eq_none_iff] at none_
    refine ⟨by omega, fun row member sameApp sameDoc => ?_⟩
    have inside := (selected row.version).mpr ⟨row, member, ⟨sameDoc, sameApp⟩, rfl⟩
    rw [none_] at inside
    exact absurd inside List.not_mem_nil
  · rename_i last greatest
    obtain ⟨inside, bound⟩ := List.max?_eq_some_iff.mp greatest
    obtain ⟨row, member, -, rfl⟩ := (selected last).mp inside
    have above := positive row member
    rw [if_neg (by omega)]
    refine ⟨by omega, fun other memberOther sameApp sameDoc => ?_⟩
    have := bound _ ((selected _).mpr ⟨other, memberOther, ⟨sameDoc, sameApp⟩, rfl⟩)
    omega

/-- A document without versions starts at one. -/
theorem nextVersion_eq_one (missing : ∀ row ∈ table.rows, row.appid = appid → row.docid ≠ docid) :
    DocVersionDAO.nextVersion appid docid table = 1 := by
  have none_ : (table.rows.filter fun r => r.docid == docid && r.appid == appid) = [] := by
    refine List.filter_eq_nil_iff.mpr fun row member chosen => ?_
    rw [Bool.and_eq_true, beq_iff_eq, beq_iff_eq] at chosen
    exact missing row member chosen.2 chosen.1
  unfold DocVersionDAO.nextVersion
  rw [none_]
  rfl

/-- The ways `DocVersionDAO.create` can end: nothing, the bare row of the procedure, or the row. -/
theorem docVersion_create_ends {v : DocVersion} {name extension : Text}
    {storageKey : ObjectId} {status : UploadStatus}
    (numbered : Table.Numbered DocVersion.id table) (named : v.filename = some name)
    (extended : v.fileExtension = some extension) (stored : v.storageKey = some storageKey)
    (waits : v.uploadStatus = some status) :
    Action.Ends (DocVersionDAO.create v) table fun r table' =>
      let version := DocVersionDAO.nextVersion v.appid v.docid table
      (∃ fault, r = .error fault ∧ 2147483647 < version ∧ table' = table) ∨
        (∃ fault, r = .error fault ∧ docVersionDAO.fits v = false ∧
          table' = table.insert docVersionDAO.setId
            { appid := v.appid, docid := v.docid, version, uploadStatus := some .waiting }) ∨
        (r = .ok { v with id := table.next, version } ∧ docVersionDAO.fits v = true ∧
          version ≤ 2147483647 ∧ table' = table.insert docVersionDAO.setId { v with version }) := by
  unfold DocVersionDAO.create
  refine Action.ends_bind (Action.ends_attempt ?_ fun refused => .inl ⟨_, rfl, ?_, rfl⟩)
  case refine_2 =>
    by_contra small
    unfold DocVersionDAO.getNewDocVersionId at refused
    dsimp only at refused
    rw [if_pos (Int.not_lt.mp small),
      BaseDAO.insertObject_of_fits (by rfl) fun _ _ => rfl] at refused
    cases refused
  intro nv table' inserted
  unfold DocVersionDAO.getNewDocVersionId at inserted
  dsimp only at inserted
  split at inserted
  · rename_i small
    obtain ⟨out, inserted, same⟩ := Option.map_eq_some_iff.mp inserted
    obtain ⟨-, -, rfl⟩ := BaseDAO.insertObject_eq_some inserted
    obtain ⟨rfl, rfl⟩ := Prod.mk.inj same
    generalize DocVersionDAO.nextVersion v.appid v.docid table = version at small ⊢
    let bare : DocVersion :=
      { appid := v.appid, docid := v.docid, version, uploadStatus := some .waiting }
    have numbered' : Table.Numbered DocVersion.id (table.insert docVersionDAO.setId bare) :=
      numbered.insert (fun _ _ => rfl) bare
    have written := @BaseDAO.updateObject_eq _ docVersionDAO
      (DocVersionDAO.newVersion v { id := table.next, appid := v.appid, docid := v.docid, version })
      _ numbered' { bare with id := table.next }
      (List.mem_append_right _ (List.mem_singleton_self _)) rfl
    rw [newVersion_set named extended stored waits] at written
    have replaced := @Table.Numbered.replace_insert _ _ _ docVersionDAO.setId numbered
      (fun _ _ => rfl) bare { v with version }
    split at written
    · rename_i fits
      refine Action.ends_bind (Action.ends_attempt ?_ fun refused => ?_)
      · intro _ table' updated
        obtain ⟨last, saved, same⟩ := Option.map_eq_some_iff.mp updated
        obtain ⟨-, rfl⟩ := Prod.mk.inj same
        obtain rfl := Option.some.inj (saved.symm.trans written)
        exact Action.ends_pure (.inr (.inr ⟨rfl, fits, small, replaced⟩))
      · cases (Option.map_eq_none_iff.mp refused).symm.trans written
    · rename_i unfit
      refine Action.ends_bind (Action.ends_attempt ?_ fun _ =>
        .inr (.inl ⟨_, rfl, Bool.eq_false_iff.mpr unfit, rfl⟩))
      intro _ table' updated
      obtain ⟨last, saved, -⟩ := Option.map_eq_some_iff.mp updated
      cases saved.symm.trans written
  · cases inserted

/-- What the counter of a row becomes where `createClbRef` raises it: the sum is a Java `int`, and the
update does not write a zero. -/
def DocRefDAO.raised (n : Int) : Int :=
  if (n + 1).bmod 4294967296 = 0 then n else (n + 1).bmod 4294967296

theorem DocRefDAO.raised_eq {n : Int} (nonneg : 0 ≤ n) (room : n < 2147483647) : raised n = n + 1 := by
  have same : (n + 1).bmod 4294967296 = n + 1 := Int.bmod_eq_of_le (by omega) (by omega)
  unfold raised
  rw [same, if_neg (by omega)]

/-- A counter that was read is raised in its row. -/
theorem updateRef_eq {table : Table DocRef} {ref : DocRef}
    (numbered : Table.Numbered DocRef.id table) (member : ref ∈ table.rows)
    (fits : docRefDAO.fits ref = true) :
    DocRefDAO.updateRef { ref with ref := (ref.ref + 1).bmod 4294967296 } table =
      some (table.update (fun r => r.id == ref.id) fun r => { r with ref := DocRefDAO.raised r.ref }) := by
  have written := @BaseDAO.updateObject_eq _ docRefDAO
    { ref with ref := (ref.ref + 1).bmod 4294967296 } table numbered ref member rfl
  rw [updateRef_set, if_pos (by exact fits)] at written
  rw [numbered.update_eq_replace member]
  exact written

theorem countUp_of_room {table : Table DocRef} {selected : DocRef → Bool}
    (room : ∀ r ∈ table.rows, selected r = true → r.ref < 2147483647) :
    DocRefDAO.countUp selected table =
      some (table.update selected fun r => { r with ref := r.ref + 1 }) := by
  unfold DocRefDAO.countUp
  rw [if_pos]
  simp only [List.all_eq_true, Bool.or_eq_true, Bool.not_eq_true', decide_eq_true_eq]
  intro r member
  cases chosen : selected r with
  | true => exact .inr (room r member chosen)
  | false => exact .inl rfl

theorem countUp_of_full {table : Table DocRef} {selected : DocRef → Bool}
    (full : ¬∀ r ∈ table.rows, selected r = true → r.ref < 2147483647) :
    DocRefDAO.countUp selected table = none := by
  unfold DocRefDAO.countUp
  rw [if_neg]
  intro all
  refine full fun r member chosen => ?_
  have counted := List.all_eq_true.mp all r member
  simpa [chosen] using counted

end Clb.Dao
