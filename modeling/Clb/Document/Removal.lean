/-
# Document.Removal -- what removeDocument and removeDocVersion leave

A removal deletes from the collections whatever its version rows name. `removeDocument` goes through
the rows before it deletes any of them, so a row without a storage key stops it with some content
gone and every row still there; `leadingKeys` are the keys it got to. -/
import Mathlib.Data.List.ReduceOption
import Clb.Document.Outcomes

set_option autoImplicit false

namespace Clb

open Clb.Lib Clb.Dao Clb.Lib.Action DocumentFacade

open MongoStorageService (deleteMetaAndContent)

variable {config : Config} {s : Store}

/-! ## The content -/

/-- The storage keys of the rows before the first one that has none. -/
def leadingKeys (rows : List DocVersion) : List ObjectId :=
  ((rows.map (·.storageKey)).takeWhile (·.isSome)).reduceOption

def deleteKeys (keys : List ObjectId) (m : Mongo) : Mongo :=
  keys.foldl (fun m key => deleteMetaAndContent key m) m

theorem MongoWf.deleteKeys (keys : List ObjectId) {m : Mongo} (wf : MongoWf m) :
    MongoWf (deleteKeys keys m) ∧ (Clb.deleteKeys keys m).issued = m.issued := by
  induction keys generalizing m with
  | nil => exact ⟨wf, rfl⟩
  | cons key keys ih => exact ih (wf.delete key)

/-- **Deleting keys takes the bytes of these keys and of no other.** -/
theorem storedBytes_deleteKeys (keys : List ObjectId) {m : Mongo} (wf : MongoWf m) (k : ObjectId) :
    (deleteKeys keys m).storedBytes k = if k ∈ keys then none else m.storedBytes k := by
  induction keys generalizing m with
  | nil => rfl
  | cons key keys ih =>
    change (deleteKeys keys (deleteMetaAndContent key m)).storedBytes k = _
    rw [ih (wf.delete key)]
    by_cases same : k = key
    · subst same
      rw [MongoWf.storedBytes_delete_self]
      simp
    · rw [wf.storedBytes_delete_of_ne same]
      simp [same]

theorem forEach_removeDocument_eq (rows : List DocVersion) (s : Store) :
    forEach (fun v => onMongo (MongoStorageService.removeDocument v.storageKey)) rows s =
      (if rows.all (·.storageKey.isSome) then .ok () else .error .illegalArgument,
        { s with mongo := deleteKeys (leadingKeys rows) s.mongo }) := by
  induction rows generalizing s with
  | nil => rfl
  | cons v rows ih =>
    unfold forEach
    cases stored : v.storageKey with
    | none =>
      have raised : onMongo (MongoStorageService.removeDocument none) s =
        (.error .illegalArgument, s) := rfl
      rw [bind_error raised]
      simp [leadingKeys, stored, deleteKeys, List.reduceOption_nil]
    | some key =>
      have removed : onMongo (MongoStorageService.removeDocument (some key)) s =
        (.ok (), { s with mongo := deleteMetaAndContent key s.mongo }) := rfl
      rw [bind_ok removed, ih]
      simp [leadingKeys, stored, deleteKeys, List.reduceOption_cons_of_some]

/-! ## The rows -/

/-- The rows that a delete by document, or by version, selects. -/
abbrev Store.deleteVersions (appid docid version : Int) (s : Store) : Store :=
  { s with versions := s.versions.delete fun v => decide (Completes appid docid version v) }

abbrev Store.deleteDocs (appid docid : Int) (s : Store) : Store :=
  { s with docs := s.docs.delete fun d => decide (Selects appid d.appid ∧ Selects docid d.docid) }

theorem docVersion_delete_eq (p : DPair) (table : Table DocVersion) :
    DocVersionDAO.delete p table =
      table.delete fun v => decide (Completes p.appid p.docid p.version v) := by
  have selected : choseAllFieldsAsQueryClause docVersionDAO.fields (DocVersionDAO.ofPair p) =
      fun v => decide (Completes p.appid p.docid p.version v) := by
    funext v
    rw [Bool.eq_iff_iff, decide_eq_true_iff]
    exact docVersion_clause
  unfold DocVersionDAO.delete BaseDAO.deleteObject
  rw [selected]

theorem docMeta_delete_eq (appid docid : Int) (table : Table DocMeta) :
    DocMetaDAO.delete appid docid table =
      table.delete fun d => decide (Selects appid d.appid ∧ Selects docid d.docid) := by
  have selected : choseAllFieldsAsQueryClause docMetaDAO.fields { appid, docid } =
      fun d => decide (Selects appid d.appid ∧ Selects docid d.docid) := by
    funext d
    rw [Bool.eq_iff_iff, decide_eq_true_iff]
    exact docMeta_clause
  unfold DocMetaDAO.delete BaseDAO.deleteObject
  rw [selected]

theorem removeDocument_eq (appid docid : Int) (s : Store) :
    removeDocument appid docid s =
      let rows := DocVersionDAO.readVersions appid docid s.versions
      let removed := { s with mongo := deleteKeys (leadingKeys rows) s.mongo }
      if rows.all (·.storageKey.isSome) then
        (.ok (), (removed.deleteVersions appid docid 0).deleteDocs appid docid)
      else
        (.error .illegalArgument, removed) := by
  have versions : DocVersionDAO.deleteByDocid appid docid s.versions = _ :=
    docVersion_delete_eq ⟨appid, docid, 0⟩ s.versions
  have docs := docMeta_delete_eq appid docid s.docs
  have content := forEach_removeDocument_eq (DocVersionDAO.readVersions appid docid s.versions) s
  unfold removeDocument
  rw [Action.read_bind]
  dsimp only
  split at content
  · rename_i keyed
    rw [if_pos keyed, bind_ok content, Action.write_bind]
    dsimp only [Action.write]
    rw [versions, docs]
  · rename_i keyless
    rw [if_neg keyless, bind_error content]

/-- The document follows its last version, or goes with it. -/
def Store.follow (appid docid : Int) (s : Store) : Store :=
  match DocVersionDAO.readLastVersion appid docid s.versions with
  | some ndv => s.setLastVersion ndv.appid ndv.docid ndv.version
  | none => s.deleteDocs appid docid

theorem Store.follow_eq (appid docid : Int) (s : Store) :
    ∃ docs, s.follow appid docid = { s with docs := docs } := by
  unfold follow
  split
  · exact ⟨_, rfl⟩
  · exact ⟨_, rfl⟩

theorem Wf.follow (wf : Wf config s) (appid docid : Int) : Wf config (s.follow appid docid) := by
  unfold Store.follow
  split
  · exact wf.setLastVersion _ _ _
  · rename_i none_
    refine wf.deleteDocs fun v member _ d _ sameApp sameDoc => ?_
    rw [decide_eq_false_iff_not, sameApp, sameDoc]
    exact readLastVersion_none none_ member

theorem followLastVersion_eq (wf : Wf config s) {appid docid : Int} :
    followLastVersion appid docid s = (.ok (), s.follow appid docid) := by
  unfold followLastVersion Store.follow
  rw [Action.read_bind]
  cases last : DocVersionDAO.readLastVersion appid docid s.versions with
  | some ndv =>
    obtain ⟨member, -⟩ := readLastVersion_some last
    exact updateDocMeta_eq wf.docsFit (wf.versionsPos ndv member).2
  | none =>
    dsimp only [Action.write]
    rw [docMeta_delete_eq]

/-- What `removeDocVersion` leaves: a row without a key stops it at once. -/
theorem removeDocVersion_eq (wf : Wf config s) (dv : DocVersion) :
    (removeDocVersion dv s).2 =
      match dv.storageKey with
      | none => s
      | some key => ({ s with mongo := deleteMetaAndContent key s.mongo }.deleteVersions dv.appid
          dv.docid dv.version).follow dv.appid dv.docid := by
  unfold removeDocVersion
  cases stored : dv.storageKey with
  | none => rfl
  | some key =>
    have removed : onMongo (MongoStorageService.removeDocument (some key)) s =
      (.ok (), { s with mongo := deleteMetaAndContent key s.mongo }) := rfl
    have wf₁ := (wf.withMongo (wf.mongo.delete key) (Nat.le_refl _)).deleteVersions
      fun v => decide (Completes dv.appid dv.docid dv.version v)
    rw [bind_ok removed, Action.read_bind, Action.write_bind, docVersion_delete_eq,
      bind_ok (followLastVersion_eq wf₁)]
    rfl

theorem removeDocVersion_ends (wf : Wf config s) {dv : DocVersion} :
    Ends (removeDocVersion dv) s fun r s' =>
      (dv.storageKey = none ∧ (∃ fault, r = .error fault) ∧ s' = s) ∨
        ∃ key docs, dv.storageKey = some key ∧
          s' = { ({ s with mongo := deleteMetaAndContent key s.mongo }.deleteVersions dv.appid
            dv.docid dv.version) with docs := docs } ∧ Wf config s' := by
  have left := removeDocVersion_eq wf dv
  cases stored : dv.storageKey with
  | none =>
    refine .inl ⟨rfl, ⟨.illegalArgument, ?_⟩, ?_⟩
    · unfold removeDocVersion
      rw [stored]
      rfl
    · rw [left, stored]
  | some key =>
    rw [stored] at left
    have wf₁ := (wf.withMongo (wf.mongo.delete key) (Nat.le_refl _)).deleteVersions
      fun v => decide (Completes dv.appid dv.docid dv.version v)
    obtain ⟨docs, same⟩ := Store.follow_eq dv.appid dv.docid
      ({ s with mongo := deleteMetaAndContent key s.mongo }.deleteVersions dv.appid dv.docid dv.version)
    exact .inr ⟨key, docs, rfl, left.trans same, left ▸ wf₁.follow dv.appid dv.docid⟩

theorem removeDocument_wf (wf : Wf config s) (appid docid : Int) :
    Wf config (removeDocument appid docid s).2 := by
  have mongo := wf.mongo.deleteKeys (leadingKeys (DocVersionDAO.readVersions appid docid s.versions))
  have wf₁ := wf.withMongo mongo.1 (Nat.le_of_eq mongo.2.symm)
  rw [removeDocument_eq]
  dsimp only
  split
  · refine (wf₁.deleteVersions _).deleteDocs fun v member _ d _ sameApp sameDoc => ?_
    have kept := (List.mem_filter.mp member).2
    simp only [Bool.not_eq_true', decide_eq_false_iff_not] at kept
    rw [decide_eq_false_iff_not, sameApp, sameDoc]
    exact fun selected => kept ⟨selected.1, selected.2, selects_zero _⟩
  · exact wf₁

end Clb
