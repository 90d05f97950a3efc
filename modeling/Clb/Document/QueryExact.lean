/-
# Document.QueryExact -- which keys the generated statements honour

The lookups and deletes are queries by example: a key value of zero or null is taken for a field that
was not set and drops out of the WHERE clause. The handlers check the document id but let version
numbers, sizes and digests pass as the client gives them. `statement_exact_iff` says for each of the
statements for which admitted keys it touches the rows of the key only. -/
import Clb.Dao.Statements
import Clb.Document.Facade

set_option autoImplicit false

namespace Clb

open Clb.Lib Clb.Dao

/-- A delete by example takes the rows that it selects. -/
theorem deleteObject_takes {R : Type} {dao : BaseDAO R} {t r : R} {table : Table R}
    (member : r ∈ table.rows) (gone : r ∉ (dao.deleteObject t table).rows) :
    choseAllFieldsAsQueryClause dao.fields t r = true := by
  by_contra unselected
  exact gone (Table.mem_delete.mpr ⟨member, unselected⟩)

/-- An update by example changes the rows that it selects. -/
theorem updateObjectBy_changes {R : Type} {dao : BaseDAO R} {t : R} {names : List String}
    {table table' : Table R} (updated : dao.updateObjectBy t names table = some table') {i : Nat} {r : R}
    (at_i : table.rows[i]? = some r) (changed : table'.rows[i]? ≠ some r) :
    choseSelectedFieldsAsQueryClause dao.fields t names r = true := by
  obtain ⟨-, rfl⟩ := BaseDAO.updateRows_eq_some updated
  by_contra unselected
  refine changed ?_
  simp only [Table.update, List.getElem?_map, at_i, Option.map_some]
  rw [if_neg unselected]

/-! ## Statements by a document pair -/

/-- A table whose rows belong to versions of documents. -/
structure VersionTable (R : Type) where
  dao : BaseDAO R
  byPair : DPair → R
  appid : R → Int
  docid : R → Int
  version : R → Int
  /-- A row of a version. -/
  row : DPair → R
  clause : ∀ p r, choseAllFieldsAsQueryClause dao.fields (byPair p) r = true ↔
    Selects p.appid (appid r) ∧ Selects p.docid (docid r) ∧ Selects p.version (version r)
  appid_row : ∀ p, appid (row p) = p.appid
  docid_row : ∀ p, docid (row p) = p.docid
  version_row : ∀ p, version (row p) = p.version

namespace VersionTable

variable {R : Type} (T : VersionTable R)

/-- The row a pair stands for: that of the version, or that of the greatest one. -/
def IsRow (p : DPair) (rows : List R) (r : R) : Prop :=
  T.appid r = p.appid ∧ T.docid r = p.docid ∧
    if p.version = DPair.LATEST then
      ∀ other ∈ rows, T.appid other = p.appid → T.docid other = p.docid →
        T.version other ≤ T.version r
    else
      T.version r = p.version

/-- A lookup returns only the row of its pair. -/
def ReadsExactly (read : Table R → Option R) (p : DPair) : Prop :=
  ∀ table r, read table = some r → T.IsRow p table.rows r

/-- A delete takes only the row of its pair. -/
def DeletesExactly (delete : Table R → Table R) (p : DPair) : Prop :=
  ∀ table, ∀ r ∈ table.rows, r ∉ (delete table).rows → T.IsRow p table.rows r

variable {T} {p : DPair}

theorem isRow_of_clause {rows : List R} {r : R} (appid : p.appid ≠ 0) (docid : p.docid ≠ 0)
    (version : p.version ≠ 0) (fixed : p.version ≠ DPair.LATEST)
    (selected : choseAllFieldsAsQueryClause T.dao.fields (T.byPair p) r = true) :
    T.IsRow p rows r := by
  obtain ⟨sameApp, sameDoc, sameVersion⟩ := (T.clause p r).mp selected
  refine ⟨sameApp appid, sameDoc docid, ?_⟩
  rw [if_neg fixed]
  exact sameVersion version

theorem row_selected (p : DPair) {version : Int} (any : p.version = 0 ∨ p.version = version) :
    choseAllFieldsAsQueryClause T.dao.fields (T.byPair p) (T.row { p with version }) = true := by
  rw [T.clause, T.appid_row, T.docid_row, T.version_row]
  refine ⟨fun _ => rfl, fun _ => rfl, fun init => ?_⟩
  rcases any with zero | same
  · exact absurd zero init
  · exact same.symm

/-- A row that a pair without a fixed version does not stand for, though the statement selects it. -/
theorem exists_wrong_row (loose : p.version = 0 ∨ p.version = DPair.LATEST) :
    ∃ rows r, r ∈ rows ∧ rows.head? = some r ∧
      choseAllFieldsAsQueryClause T.dao.fields (T.byPair p) r = true ∧ ¬T.IsRow p rows r := by
  rcases loose with zero | latest
  · refine ⟨[T.row { p with version := 1 }], _, List.mem_singleton_self _, rfl,
      row_selected p (.inl zero), fun isRow => ?_⟩
    have version := isRow.2.2
    rw [if_neg (by rw [zero]; decide), T.version_row, zero] at version
    cases version
  · refine ⟨[T.row p, T.row { p with version := 0 }], _, List.mem_cons_self, rfl,
      row_selected p (.inr rfl), fun isRow => ?_⟩
    have greatest := isRow.2.2
    rw [if_pos latest] at greatest
    have below := greatest _ (List.mem_cons_of_mem _ (List.mem_singleton_self _))
      (T.appid_row _) (T.docid_row _)
    rw [T.version_row, T.version_row, latest] at below
    have impossible : (0 : Int) ≤ DPair.LATEST := below
    exact absurd impossible (by decide)

theorem reads_exactly_iff (appid : p.appid ≠ 0) (docid : p.docid ≠ 0) :
    T.ReadsExactly (T.dao.findAndReturnOnly (T.byPair p)) p ↔
      p.version ≠ 0 ∧ p.version ≠ DPair.LATEST := by
  rw [← not_or]
  refine ⟨fun exactly loose => ?_, fun fixed table r found => ?_⟩
  · obtain ⟨rows, r, -, head, selected, wrong⟩ := exists_wrong_row (T := T) loose
    refine wrong (exactly ⟨rows, 1⟩ r ?_)
    cases rows with
    | nil => cases head
    | cons first rest =>
      obtain rfl := Option.some.inj head
      simp [BaseDAO.findAndReturnOnly, BaseDAO.findByProperties, selected]
  · obtain ⟨version, latest⟩ := not_or.mp fixed
    exact isRow_of_clause appid docid version latest (BaseDAO.findAndReturnOnly_eq_some found).2

theorem deletes_exactly_iff (appid : p.appid ≠ 0) (docid : p.docid ≠ 0) :
    T.DeletesExactly (T.dao.deleteObject (T.byPair p)) p ↔
      p.version ≠ 0 ∧ p.version ≠ DPair.LATEST := by
  rw [← not_or]
  refine ⟨fun exactly loose => ?_, fun fixed table r member gone => ?_⟩
  · obtain ⟨rows, r, member, -, selected, wrong⟩ := exists_wrong_row (T := T) loose
    refine wrong (exactly ⟨rows, 1⟩ r member fun stays => ?_)
    exact (Table.mem_delete.mp stays).2 selected
  · obtain ⟨version, latest⟩ := not_or.mp fixed
    exact isRow_of_clause appid docid version latest (deleteObject_takes member gone)

end VersionTable

def docVersionTable : VersionTable DocVersion where
  dao := docVersionDAO
  byPair := DocVersionDAO.ofPair
  appid := DocVersion.appid
  docid := DocVersion.docid
  version := DocVersion.version
  row := DocVersionDAO.ofPair
  clause _ _ := docVersion_clause
  appid_row _ := rfl
  docid_row _ := rfl
  version_row _ := rfl

def pdfItemTable : VersionTable PdfItem where
  dao := pdfItemDAO
  byPair := PdfItemDAO.ofPair
  appid := PdfItem.appid
  docid := PdfItem.docid
  version := PdfItem.version
  row := PdfItemDAO.ofPair
  clause _ _ := pdfItem_clause
  appid_row _ := rfl
  docid_row _ := rfl
  version_row _ := rfl

def trivialItemTable : VersionTable TrivialItem where
  dao := trivialItemDAO
  byPair := TrivialItemDAO.getQueryItem
  appid := TrivialItem.appid
  docid := TrivialItem.docid
  version := TrivialItem.version
  row := TrivialItemDAO.getQueryItem
  clause _ _ := trivialItem_clause
  appid_row _ := rfl
  docid_row _ := rfl
  version_row _ := rfl

/-- `DocVersionDAO.read` looks for the greatest version itself. -/
theorem docVersion_reads_exactly_iff {p : DPair} (appid : p.appid ≠ 0) (docid : p.docid ≠ 0) :
    docVersionTable.ReadsExactly (DocVersionDAO.read p) p ↔ p.version ≠ 0 := by
  by_cases latest : p.version = DPair.LATEST
  · refine iff_of_true ?_ (by rw [latest]; decide)
    intro table r found
    unfold DocVersionDAO.read at found
    rw [if_pos latest] at found
    obtain ⟨-, sameApp, sameDoc⟩ := readLastVersion_some found
    refine ⟨sameApp appid, sameDoc docid, ?_⟩
    rw [if_pos latest]
    intro other member otherApp otherDoc
    exact readLastVersion_greatest found member (fun _ => otherApp) fun _ => otherDoc
  · have fixed : DocVersionDAO.read p = docVersionDAO.findAndReturnOnly (DocVersionDAO.ofPair p) := by
      funext table
      exact if_neg latest
    rw [fixed]
    exact (docVersionTable.reads_exactly_iff appid docid).trans (and_iff_left latest)

/-! ## All statements -/

/-- The lookups, updates and deletes by example, with their keys. -/
inductive Statement where
  | docRefRead (md5 : Option Text) (size : Int)
  | docVersionRead (p : DPair)
  | docVersionDelete (p : DPair)
  | docVersionDeleteByDocid (appid docid : Int)
  | docVersionUpdateStatus (appid docid version : Int)
  | docMetaRead (appid docid : Int)
  | docMetaDelete (appid docid : Int)
  | docMetaUpdate (appid docid lastVersion : Int)
  | pdfItemRead (p : DPair)
  | pdfItemDelete (p : DPair)
  | trivialItemRead (p : DPair)
  | trivialItemDelete (p : DPair)

/-- An update changes only rows that satisfy `owned`. -/
def UpdatesOnly {R : Type} (update : Table R → Option (Table R)) (owned : R → Prop) : Prop :=
  ∀ table table', update table = some table' →
    ∀ (i : Nat) r, table.rows[i]? = some r → table'.rows[i]? ≠ some r → owned r

namespace Statement

/-- The keys that the handlers admit in a session: any digest and size, pairs that `convertToPair`
returns, and document ids above zero. -/
def Admitted (session : Session) : Statement → Prop
  | .docRefRead _ _ => True
  | .docVersionRead p | .docVersionDelete p | .pdfItemRead p | .pdfItemDelete p
  | .trivialItemRead p | .trivialItemDelete p =>
    ∃ dp, DocumentFacade.convertToPair session.appid dp = some p
  | .docVersionUpdateStatus appid docid version =>
    appid = session.appid ∧ 0 < docid ∧ ∃ text, parseInt text = some version
  | .docVersionDeleteByDocid appid docid | .docMetaRead appid docid | .docMetaDelete appid docid
  | .docMetaUpdate appid docid _ => appid = session.appid ∧ 0 < docid

/-- The statement returns or affects, in every table, only the rows of its key. -/
def Exact : Statement → Prop
  | .docRefRead md5 size =>
    ∀ table r, DocRefDAO.read md5 size table = some r → r.md5 = md5 ∧ r.size = size
  | .docVersionRead p => docVersionTable.ReadsExactly (DocVersionDAO.read p) p
  | .docVersionDelete p => docVersionTable.DeletesExactly (DocVersionDAO.delete p) p
  | .docVersionDeleteByDocid appid docid =>
    ∀ table, ∀ v ∈ table.rows, v ∉ (DocVersionDAO.deleteByDocid appid docid table).rows →
      v.appid = appid ∧ v.docid = docid
  | .docVersionUpdateStatus appid docid version =>
    UpdatesOnly
      (DocVersionDAO.updateStatus { appid, docid, version, uploadStatus := some .complete })
      fun v => v.appid = appid ∧ v.docid = docid ∧ v.version = version
  | .docMetaRead appid docid =>
    ∀ table d, DocMetaDAO.read appid docid table = some d → d.appid = appid ∧ d.docid = docid
  | .docMetaDelete appid docid =>
    ∀ table, ∀ d ∈ table.rows, d ∉ (DocMetaDAO.delete appid docid table).rows →
      d.appid = appid ∧ d.docid = docid
  | .docMetaUpdate appid docid lastVersion =>
    UpdatesOnly (DocMetaDAO.update { appid, docid, lastVersion } ["appid", "docid"])
      fun d => d.appid = appid ∧ d.docid = docid
  | .pdfItemRead p => pdfItemTable.ReadsExactly (PdfItemDAO.read p) p
  | .pdfItemDelete p => pdfItemTable.DeletesExactly (PdfItemDAO.delete p) p
  | .trivialItemRead p => trivialItemTable.ReadsExactly (TrivialItemDAO.read p) p
  | .trivialItemDelete p => trivialItemTable.DeletesExactly (TrivialItemDAO.delete p) p

/-- Every key value is one that the WHERE clause keeps, and the greatest version is asked for only
where it is looked for. -/
def Initialised : Statement → Prop
  | .docRefRead md5 size => md5 ≠ none ∧ size ≠ 0
  | .docVersionRead p => p.version ≠ 0
  | .docVersionDelete p | .pdfItemRead p | .pdfItemDelete p | .trivialItemRead p
  | .trivialItemDelete p => p.version ≠ 0 ∧ p.version ≠ DPair.LATEST
  | .docVersionUpdateStatus _ _ version => version ≠ 0
  | .docVersionDeleteByDocid _ _ | .docMetaRead _ _ | .docMetaDelete _ _
  | .docMetaUpdate _ _ _ => True

theorem docRefRead_exact_iff (md5 : Option Text) (size : Int) :
    (docRefRead md5 size).Exact ↔ md5 ≠ none ∧ size ≠ 0 := by
  have single : ∀ r : DocRef, (md5 ≠ none → r.md5 = md5) ∧ Selects size r.size →
      DocRefDAO.read md5 size ⟨[r], 1⟩ = some r := by
    intro r selected
    simp [DocRefDAO.read, BaseDAO.findAndReturnOnly, BaseDAO.findByProperties,
      docRef_clause.mpr selected]
  constructor
  · intro exact
    refine ⟨fun null => ?_, fun zero => ?_⟩
    · have found := exact _ _ (single { md5 := some [], size } ⟨fun given => absurd null given, fun _ => rfl⟩)
      rw [null] at found
      cases found.1
    · subst zero
      have found := exact _ _ (single { md5, size := 1 } ⟨fun _ => rfl, selects_zero 1⟩)
      cases found.2
  · rintro ⟨given, nonzero⟩ table r found
    obtain ⟨-, digest, size⟩ := docRef_read_some found
    exact ⟨digest given, size nonzero⟩

theorem docVersionUpdateStatus_exact_iff {appid docid version : Int} (appid_ne : appid ≠ 0)
    (docid_ne : docid ≠ 0) :
    (docVersionUpdateStatus appid docid version).Exact ↔ version ≠ 0 := by
  constructor
  · rintro exact rfl
    -- without a version the first one of the document is completed as well
    let waiting : DocVersion := { appid, docid, version := 1 }
    have selected := (@updateStatus_clause appid docid 0 .complete waiting).mpr
      ⟨fun _ => rfl, fun _ => rfl, selects_zero _⟩
    have updated := @BaseDAO.updateRows_of_fits _ docVersionDAO ⟨[waiting], 2⟩
      (choseSelectedFieldsAsQueryClause docVersionDAO.fields
        { appid, docid, version := 0, uploadStatus := some .complete } ["docid", "appid", "version"])
      (getSetValuesClause docVersionDAO.fields
        { appid, docid, version := 0, uploadStatus := some .complete } ["docid", "appid", "version"])
      (fun row member _ => by rw [updateStatus_set, List.mem_singleton.mp member]; rfl)
    have wrong := exact _ _ updated 0 waiting rfl (by
      simp [Table.update, selected, updateStatus_set, waiting])
    cases wrong.2.2
  · intro version_ne table table' updated i v at_i changed
    obtain ⟨sameApp, sameDoc, sameVersion⟩ :=
      updateStatus_clause.mp (updateObjectBy_changes updated at_i changed)
    exact ⟨sameApp appid_ne, sameDoc docid_ne, sameVersion version_ne⟩

end Statement

/-- The check of `convertToPair`. -/
theorem convertToPair_eq_some {appid : Int} {dp : DocPair} {p : DPair}
    (converted : DocumentFacade.convertToPair appid dp = some p) :
    p.appid = appid ∧ p.docid = dp.docid ∧ 0 < dp.docid := by
  unfold DocumentFacade.convertToPair at converted
  split at converted
  · cases converted
  · rename_i positive
    split at converted
    · obtain rfl := Option.some.inj converted
      exact ⟨rfl, rfl, Int.not_le.mp positive⟩
    · obtain ⟨version, -, rfl⟩ := Option.map_eq_some_iff.mp converted
      exact ⟨rfl, rfl, Int.not_le.mp positive⟩

/-- **Which keys the statements honour.** For every key that the handlers admit, a statement touches
the rows of its key only, in every table, if and only if no value of the key is zero or null and the
greatest version is asked of `DocVersionDAO.read` only. -/
theorem statement_exact_iff (session : Session) (statement : Statement)
    (admitted : statement.Admitted session) : statement.Exact ↔ statement.Initialised := by
  have appid_ne : session.appid ≠ 0 := Int.ne_of_gt session.appid_pos
  have pair_ne : ∀ p, (∃ dp, DocumentFacade.convertToPair session.appid dp = some p) →
      p.appid ≠ 0 ∧ p.docid ≠ 0 := fun p ⟨_, converted⟩ =>
    let ⟨sameApp, sameDoc, positive⟩ := convertToPair_eq_some converted
    ⟨sameApp ▸ appid_ne, sameDoc ▸ Int.ne_of_gt positive⟩
  cases statement with
  | docRefRead md5 size => exact Statement.docRefRead_exact_iff md5 size
  | docVersionRead p =>
    exact docVersion_reads_exactly_iff (pair_ne p admitted).1 (pair_ne p admitted).2
  | docVersionDelete p =>
    exact docVersionTable.deletes_exactly_iff (pair_ne p admitted).1 (pair_ne p admitted).2
  | docVersionDeleteByDocid appid docid =>
    obtain ⟨rfl, positive⟩ := admitted
    refine iff_of_true (fun table v member gone => ?_) trivial
    obtain ⟨sameApp, sameDoc, -⟩ :=
      (@docVersion_clause ⟨session.appid, docid, 0⟩ v).mp (deleteObject_takes member gone)
    exact ⟨sameApp appid_ne, sameDoc (Int.ne_of_gt positive)⟩
  | docVersionUpdateStatus appid docid version =>
    obtain ⟨rfl, positive, -⟩ := admitted
    exact Statement.docVersionUpdateStatus_exact_iff appid_ne (Int.ne_of_gt positive)
  | docMetaRead appid docid =>
    obtain ⟨rfl, positive⟩ := admitted
    refine iff_of_true (fun table d found => ?_) trivial
    obtain ⟨-, sameApp, sameDoc⟩ := docMeta_read_some found
    exact ⟨sameApp appid_ne, sameDoc (Int.ne_of_gt positive)⟩
  | docMetaDelete appid docid =>
    obtain ⟨rfl, positive⟩ := admitted
    refine iff_of_true (fun table d member gone => ?_) trivial
    obtain ⟨sameApp, sameDoc⟩ := docMeta_clause.mp (deleteObject_takes member gone)
    exact ⟨sameApp appid_ne, sameDoc (Int.ne_of_gt positive)⟩
  | docMetaUpdate appid docid lastVersion =>
    obtain ⟨rfl, positive⟩ := admitted
    refine iff_of_true (fun table table' updated i d at_i changed => ?_) trivial
    obtain ⟨sameApp, sameDoc⟩ :=
      updateDocMeta_clause.mp (updateObjectBy_changes updated at_i changed)
    exact ⟨sameApp appid_ne, sameDoc (Int.ne_of_gt positive)⟩
  | pdfItemRead p =>
    exact pdfItemTable.reads_exactly_iff (pair_ne p admitted).1 (pair_ne p admitted).2
  | pdfItemDelete p =>
    exact pdfItemTable.deletes_exactly_iff (pair_ne p admitted).1 (pair_ne p admitted).2
  | trivialItemRead p =>
    exact trivialItemTable.reads_exactly_iff (pair_ne p admitted).1 (pair_ne p admitted).2
  | trivialItemDelete p =>
    exact trivialItemTable.deletes_exactly_iff (pair_ne p admitted).1 (pair_ne p admitted).2

/-- The pair of document 5 and version "3" honours its key in every statement by pair. -/
theorem statement_exact_iff_version_three :
    (Statement.docVersionDelete ⟨1, 5, 3⟩).Exact ∧ (Statement.pdfItemRead ⟨1, 5, 3⟩).Exact := by
  have admitted : ∃ dp, DocumentFacade.convertToPair 1 dp = some ⟨1, 5, 3⟩ :=
    ⟨⟨5, "3".toList⟩, by decide +kernel⟩
  let session : Session := ⟨1, [], by decide, by decide⟩
  have fixed : (3 : Int) ≠ 0 ∧ (3 : Int) ≠ DPair.LATEST := by decide
  exact ⟨(statement_exact_iff session (.docVersionDelete ⟨1, 5, 3⟩) admitted).mpr fixed,
    (statement_exact_iff session (.pdfItemRead ⟨1, 5, 3⟩) admitted).mpr fixed⟩

/-- The version "0" passes `convertToPair`. A lookup by it returns version 3 of the document, a delete
by it takes that version; and a lookup without a digest returns the content of another one. -/
theorem statement_not_exact :
    let third : DocVersion := { id := 1, appid := 1, docid := 5, version := 3 }
    let other : DocRef := { id := 1, md5 := some "m".toList, size := 4, storageKey := some ⟨0⟩ }
    DocumentFacade.convertToPair 1 ⟨5, "0".toList⟩ = some ⟨1, 5, 0⟩ ∧
      DocVersionDAO.read ⟨1, 5, 0⟩ ⟨[third], 2⟩ = some third ∧
      (DocVersionDAO.delete ⟨1, 5, 0⟩ ⟨[third], 2⟩).rows = [] ∧
      DocRefDAO.read none 4 ⟨[other], 2⟩ = some other ∧
      ¬(Statement.docVersionRead ⟨1, 5, 0⟩).Exact ∧ ¬(Statement.docVersionDelete ⟨1, 5, 0⟩).Exact ∧
      ¬(Statement.docRefRead none 4).Exact := by
  intro third other
  have read : DocVersionDAO.read ⟨1, 5, 0⟩ ⟨[third], 2⟩ = some third := by decide +kernel
  have deleted : (DocVersionDAO.delete ⟨1, 5, 0⟩ ⟨[third], 2⟩).rows = [] := by decide +kernel
  have found : DocRefDAO.read none 4 ⟨[other], 2⟩ = some other := by decide +kernel
  refine ⟨by decide +kernel, read, deleted, found, fun exact => ?_, fun exact => ?_, fun exact => ?_⟩
  · have version := (exact _ _ read).2.2
    rw [if_neg (by decide)] at version
    cases version
  · have version := (exact _ third (List.mem_singleton_self _) (deleted ▸ List.not_mem_nil)).2.2
    rw [if_neg (by decide)] at version
    cases version
  · cases (exact _ _ found).1

end Clb
