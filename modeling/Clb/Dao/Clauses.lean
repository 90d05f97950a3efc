/-
# Dao.Clauses -- the generated statements in plain terms

What the reflective clauses of `Dao.Query` come to for the statements that the services use: which
rows a query by example selects, and what an update writes into a selected row. A key value of zero
or null drops out of a WHERE clause, which `Selects` keeps visible. -/
import Clb.Dao.ChunkStatus

set_option autoImplicit false

namespace Clb.Dao

open Clb.Lib

variable {appid docid : Int}

/-- A key value of zero puts no condition on its column. -/
def Selects (wanted column : Int) : Prop := wanted ≠ 0 → column = wanted

instance (wanted column : Int) : Decidable (Selects wanted column) :=
  inferInstanceAs (Decidable (_ → _))

theorem selects_zero (column : Int) : Selects 0 column := fun init => absurd rfl init

section Generic

variable {T : Type} {fields : List (Field T)} {t row : T}

theorem buildClause_iff {selectFields : List (Field T)} :
    buildClause t selectFields row = true ↔ ∀ f ∈ selectFields, f.get row = f.get t := by
  simp [buildClause]

theorem choseAllFieldsAsQueryClause_iff :
    choseAllFieldsAsQueryClause fields t row = true ↔
      ∀ f ∈ fields, isUninitField (f.get t) = false → f.get row = f.get t := by
  simp [choseAllFieldsAsQueryClause, buildClause_iff, getSelectedFields]

theorem choseSelectedFieldsAsQueryClause_iff {names : List String} :
    choseSelectedFieldsAsQueryClause fields t names row = true ↔
      ∀ f ∈ fields, isUninitField (f.get t) = false → f.name ∈ names → f.get row = f.get t := by
  simp [choseSelectedFieldsAsQueryClause, buildClause_iff, getSelectedFields]

theorem getSetValuesClause_eq {names : List String} :
    getSetValuesClause fields t names row =
      fields.foldl
        (fun row f =>
          if !isUninitField (f.get t) && !names.contains f.name && f.name != "id" then f.copy t row
          else row) row := by
  unfold getSetValuesClause getSelectedFields
  rw [List.filter_filter, List.foldl_filter]
  congr 1
  funext row f
  simp [Bool.and_comm]

/-- What every assignment keeps, the update keeps. -/
theorem getSetValuesClause_keeps {P : T → Prop} {names : List String} (before : P row)
    (keeps : ∀ f ∈ fields, isUninitField (f.get t) = false → f.name ≠ "id" →
      ∀ r, P r → P (f.copy t r)) :
    P (getSetValuesClause fields t names row) := by
  rw [getSetValuesClause_eq]
  refine List.foldlRecOn fields _ before fun r holds f member => ?_
  split
  · rename_i assigned
    simp only [Bool.and_eq_true, Bool.not_eq_true', bne_iff_ne] at assigned
    exact keeps f member assigned.1.1 assigned.2 r holds
  · exact holds

/-- What one assignment achieves and the others keep holds after the update. -/
theorem getSetValuesClause_sets {P : T → Prop} {f : Field T} (member : f ∈ fields)
    (init : isUninitField (f.get t) = false) (column : f.name ≠ "id") (sets : ∀ r, P (f.copy t r))
    (keeps : ∀ f ∈ fields, isUninitField (f.get t) = false → f.name ≠ "id" →
      ∀ r, P r → P (f.copy t r)) :
    P (getSetValuesClause fields t [] row) := by
  obtain ⟨before, after, rfl⟩ := List.append_of_mem member
  rw [getSetValuesClause_eq, List.foldl_append, List.foldl_cons, if_pos (by simp [init, column]),
    ← getSetValuesClause_eq]
  refine getSetValuesClause_keeps (sets _) fun f' inside => ?_
  exact keeps f' (List.mem_append_right _ (List.mem_cons_of_mem _ inside))

end Generic

theorem docMeta_clause {row : DocMeta} :
    choseAllFieldsAsQueryClause docMetaDAO.fields { appid, docid } row = true ↔
      Selects appid row.appid ∧ Selects docid row.docid := by
  rw [choseAllFieldsAsQueryClause_iff]
  simp [docMetaDAO, number, text, isUninitField, Selects]

theorem docVersion_clause {p : DPair} {row : DocVersion} :
    choseAllFieldsAsQueryClause docVersionDAO.fields (DocVersionDAO.ofPair p) row = true ↔
      Selects p.appid row.appid ∧ Selects p.docid row.docid ∧ Selects p.version row.version := by
  rw [choseAllFieldsAsQueryClause_iff, and_left_comm]
  simp [docVersionDAO, DocVersionDAO.ofPair, number, text, key, isUninitField, Selects]

theorem docRef_clause {md5 : Option Text} {size : Int} {row : DocRef} :
    choseAllFieldsAsQueryClause docRefDAO.fields { md5, size } row = true ↔
      (md5 ≠ none → row.md5 = md5) ∧ Selects size row.size := by
  rw [choseAllFieldsAsQueryClause_iff]
  cases md5 with
  | none => simp [docRefDAO, number, text, key, isUninitField, Selects]
  | some digest =>
    cases h : row.md5 <;>
      simp [docRefDAO, number, text, key, isUninitField, Selects, h]

theorem docChunkStatus_clause {row : DocChunkStatus} :
    choseAllFieldsAsQueryClause docChunkStatusDAO.fields { appid, docid, version := 1 } row = true ↔
      Selects appid row.appid ∧ Selects docid row.docid ∧ row.version = 1 := by
  rw [choseAllFieldsAsQueryClause_iff]
  simp [docChunkStatusDAO, number, text, isUninitField, Selects]

theorem pdfItem_clause {p : DPair} {row : PdfItem} :
    choseAllFieldsAsQueryClause pdfItemDAO.fields (PdfItemDAO.ofPair p) row = true ↔
      Selects p.appid row.appid ∧ Selects p.docid row.docid ∧ Selects p.version row.version := by
  rw [choseAllFieldsAsQueryClause_iff]
  simp [pdfItemDAO, PdfItemDAO.ofPair, number, text, key, isUninitField, Selects]

theorem trivialItem_clause {p : DPair} {row : TrivialItem} :
    choseAllFieldsAsQueryClause trivialItemDAO.fields (TrivialItemDAO.getQueryItem p) row = true ↔
      Selects p.appid row.appid ∧ Selects p.docid row.docid ∧ Selects p.version row.version := by
  rw [choseAllFieldsAsQueryClause_iff]
  simp [trivialItemDAO, TrivialItemDAO.getQueryItem, number, text, isUninitField, Selects]

/-! ## What the updates write -/

/-- The row selection of `updateStatus`. -/
theorem updateStatus_clause {appid docid version : Int} {status : UploadStatus} {row : DocVersion} :
    choseSelectedFieldsAsQueryClause docVersionDAO.fields
        { appid, docid, version, uploadStatus := some status } ["docid", "appid", "version"] row =
      true ↔ Selects appid row.appid ∧ Selects docid row.docid ∧ Selects version row.version := by
  rw [choseSelectedFieldsAsQueryClause_iff, and_left_comm]
  simp [docVersionDAO, number, text, key, isUninitField, Selects]

theorem updateStatus_set {appid docid version : Int} {status : UploadStatus} {row : DocVersion} :
    getSetValuesClause docVersionDAO.fields
        { appid, docid, version, uploadStatus := some status } ["docid", "appid", "version"] row =
      { row with uploadStatus := some status } := by
  rw [getSetValuesClause_eq]
  simp [docVersionDAO, number, text, key, isUninitField]

theorem updateDocMeta_clause {appid docid lastVersion : Int} {row : DocMeta} :
    choseSelectedFieldsAsQueryClause docMetaDAO.fields { appid, docid, lastVersion }
        ["appid", "docid"] row = true ↔ Selects appid row.appid ∧ Selects docid row.docid := by
  rw [choseSelectedFieldsAsQueryClause_iff]
  simp [docMetaDAO, number, text, isUninitField, Selects]

theorem updateDocMeta_set {appid docid lastVersion : Int} {row : DocMeta} :
    getSetValuesClause docMetaDAO.fields { appid, docid, lastVersion } ["appid", "docid"] row =
      if lastVersion = 0 then row else { row with lastVersion } := by
  rw [getSetValuesClause_eq]
  simp [docMetaDAO, number, text, isUninitField]

/-- A counter written back to its row; a zero is not written. -/
theorem updateRef_set {row : DocRef} {n : Int} :
    getSetValuesClause docRefDAO.fields { row with ref := n } [] row =
      { row with ref := if n = 0 then row.ref else n } := by
  rw [getSetValuesClause_eq]
  rcases row with ⟨id, md5, ref, size, storageKey⟩
  by_cases zero : n = 0 <;> simp [docRefDAO, number, text, key, isUninitField, zero]

/-- The object that `DocVersionDAO.create` writes replaces the row of the procedure whole. -/
theorem newVersion_set {v : DocVersion} {id appid docid version : Int} {name extension : Text}
    {storageKey : ObjectId} {status : UploadStatus} (named : v.filename = some name)
    (extended : v.fileExtension = some extension) (stored : v.storageKey = some storageKey)
    (waits : v.uploadStatus = some status) :
    getSetValuesClause docVersionDAO.fields
        (DocVersionDAO.newVersion v { id, appid, docid, version }) []
        { id, appid, docid, version, uploadStatus := some .waiting } =
      DocVersionDAO.newVersion v { id, appid, docid, version } := by
  rw [getSetValuesClause_eq]
  simp only [DocVersionDAO.newVersion, named, extended, stored, waits]
  by_cases empty : v.size = 0 <;>
    simp [docVersionDAO, number, text, key, isUninitField, empty]

/-- A chunk map written back to its row. -/
theorem updateChunkMap_set {row : DocChunkStatus} {bitSet : Finset Nat} :
    getSetValuesClause docChunkStatusDAO.fields (row.updateChunkMap bitSet) [] row =
      row.updateChunkMap bitSet := by
  rw [getSetValuesClause_eq]
  rcases row with ⟨id, chunkSize, appid, docid, version, current, status, count, map, size, md5⟩
  simp [docChunkStatusDAO, number, text, isUninitField, DocChunkStatus.updateChunkMap,
    BitSetUtil.serialize]

/-! ## Updates of a chunk status row -/

theorem chunkStatus_set_id {c row : DocChunkStatus} :
    (getSetValuesClause docChunkStatusDAO.fields c [] row).id = row.id := by
  refine getSetValuesClause_keeps (P := fun r : DocChunkStatus => r.id = row.id) rfl ?_
  simp [docChunkStatusDAO, number, text]

/-- `updateObject` of a row that a lookup found leaves the lookup to find the row. -/
theorem chunkStatus_set_selected {c row : DocChunkStatus}
    (sameApp : Selects appid c.appid) (sameDoc : Selects docid c.docid) (first : c.version = 1)
    (rowApp : Selects appid row.appid) (rowDoc : Selects docid row.docid)
    (rowFirst : row.version = 1) :
    let new := getSetValuesClause docChunkStatusDAO.fields c [] row
    Selects appid new.appid ∧ Selects docid new.docid ∧ new.version = 1 := by
  refine getSetValuesClause_keeps (P := fun r : DocChunkStatus =>
    Selects appid r.appid ∧ Selects docid r.docid ∧ r.version = 1) ⟨rowApp, rowDoc, rowFirst⟩ ?_
  simp +contextual [docChunkStatusDAO, number, text, sameApp, sameDoc, first]

/-- `updateObject` writes the whole map. -/
theorem chunkStatus_set_map {c row : DocChunkStatus} {map : Text} (mapped : c.chunkMap = some map) :
    (getSetValuesClause docChunkStatusDAO.fields c [] row).chunkMap = some map := by
  refine getSetValuesClause_sets (P := fun r : DocChunkStatus => r.chunkMap = some map)
    (f := text "chunkMap" (·.chunkMap) fun v t => { t with chunkMap := v })
    (by simp [docChunkStatusDAO]) ?_ (by simp [text]) ?_ ?_
  · simp [text, mapped, isUninitField]
  · simp [text, mapped]
  · simp +contextual [docChunkStatusDAO, number, text, mapped]

end Clb.Dao
