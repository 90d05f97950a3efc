/-
# Document.SharedContent -- removals and the content of other versions

Several version rows may have one storage key: a deduplicated upload, a reference and a resumed upload
all take the key of a clb_doc_ref row. A removal deletes the content of the keys of its rows without a
look at other rows or at the reference count. `removal_keeps_content_iff` says exactly when the
versions that stay keep their bytes. -/
import Clb.Document.System

set_option autoImplicit false

namespace Clb

open Clb.Lib Clb.Dao Clb.Lib.Action DocumentFacade

inductive Removal where
  | document (appid docid : Int)
  | version (dv : DocVersion)

namespace Removal

/-- The store after the removal. -/
def after (s : Store) : Removal → Store
  | .document appid docid => (removeDocument appid docid s).2
  | .version dv => (removeDocVersion dv s).2

/-- The keys whose content the removal deletes. -/
def keys (s : Store) : Removal → List ObjectId
  | .document appid docid => leadingKeys (DocVersionDAO.readVersions appid docid s.versions)
  | .version dv => dv.storageKey.toList

/-- The removal deletes a row. -/
def Deletes (s : Store) (v : DocVersion) : Removal → Prop
  | .document appid docid =>
    (∀ row ∈ DocVersionDAO.readVersions appid docid s.versions, row.storageKey ≠ none) ∧
      Completes appid docid 0 v
  | .version dv => dv.storageKey ≠ none ∧ Completes dv.appid dv.docid dv.version v

instance (s : Store) (v : DocVersion) : (removal : Removal) → Decidable (removal.Deletes s v)
  | .document _ _ => inferInstanceAs (Decidable (_ ∧ _))
  | .version _ => inferInstanceAs (Decidable (_ ∧ _))

variable {config : Config} {s : Store}

/-- The effect of a removal on the collections and on the version rows. -/
theorem after_spec (wf : Wf config s) (removal : Removal) :
    (removal.after s).mongo = deleteKeys (removal.keys s) s.mongo ∧
      ∀ v, v ∈ (removal.after s).versions.rows ↔ v ∈ s.versions.rows ∧ ¬removal.Deletes s v := by
  cases removal with
  | document appid docid =>
    unfold after keys Deletes
    dsimp only
    rw [removeDocument_eq]
    dsimp only
    split
    · rename_i keyed
      have keyed : ∀ row ∈ DocVersionDAO.readVersions appid docid s.versions,
          row.storageKey ≠ none := by
        simpa [Option.isSome_iff_ne_none] using keyed
      refine ⟨rfl, fun v => Table.mem_delete.trans ?_⟩
      rw [decide_eq_true_iff, and_iff_right keyed]
    · rename_i keyless
      refine ⟨rfl, fun v => ⟨fun member => ⟨member, fun deletes => keyless ?_⟩, And.left⟩⟩
      simpa [Option.isSome_iff_ne_none] using deletes.1
  | version dv =>
    unfold after keys Deletes
    dsimp only
    have removed := @removeDocVersion_ends _ _ wf dv
    rcases removed with ⟨keyless, -, same⟩ | ⟨key, docs, stored, same, -⟩
    · rw [same, keyless]
      exact ⟨rfl, by simp⟩
    · rw [same, stored]
      refine ⟨rfl, fun v => Table.mem_delete.trans ?_⟩
      rw [decide_eq_true_iff, and_iff_right (Option.some_ne_none key)]

end Removal

variable {config : Config} {s : Store}

/-- **When a removal keeps the content of the versions that stay.** In every reachable state the
completed versions that a removal does not delete resolve to the bytes they had, if and only if none
of them whose content is stored shares its storage key with the content that the removal deletes. -/
theorem removal_keeps_content_iff (reachable : Reachable config s) (removal : Removal) :
    (∀ v ∈ (removal.after s).versions.rows, v.uploadStatus = some .complete →
      ∀ k, v.storageKey = some k →
        (removal.after s).mongo.storedBytes k = s.mongo.storedBytes k) ↔
    (∀ v ∈ s.versions.rows, ¬removal.Deletes s v → v.uploadStatus = some .complete →
      ∀ k, v.storageKey = some k → s.mongo.storedBytes k ≠ none → k ∉ removal.keys s) := by
  have wf := reachable.wf
  obtain ⟨mongo, rows⟩ := removal.after_spec wf
  simp only [mongo, rows, storedBytes_deleteKeys _ wf.mongo]
  constructor
  · intro kept v member stays completed k stored resolves shared
    have same := kept v ⟨member, stays⟩ completed k stored
    rw [if_pos shared] at same
    exact resolves same.symm
  · intro apart v ⟨member, stays⟩ completed k stored
    split
    · rename_i shared
      by_cases resolves : s.mongo.storedBytes k = none
      · exact resolves.symm
      · exact absurd shared (apart v member stays completed k stored resolves)
    · rfl

/-- One byte is uploaded in one chunk and finished; a second upload of it is answered from the first. -/
def sharedUpload : List Call :=
  [.prepareUpload ⟨some "a".toList, some "m".toList, 1, 1⟩,
    .writeChunkData {} ⟨1, 0, 1⟩ { reads := [[7]] },
    .finishUpload 1,
    .prepareUpload ⟨some "b".toList, some "m".toList, 1, 1⟩]

/-- Removing the first document of two that share their content: the second one is complete, stays,
had its byte before the removal and has nothing after it. -/
theorem removal_destroys_shared_content :
    Reachable countingConfig (storeAfter sharedUpload) ∧
      ∃ v ∈ ((Removal.document 1 1).after (storeAfter sharedUpload)).versions.rows,
        v.uploadStatus = some .complete ∧ v.storageKey = some ⟨0⟩ ∧
          (storeAfter sharedUpload).mongo.storedBytes ⟨0⟩ = some [7] ∧
          ((Removal.document 1 1).after (storeAfter sharedUpload)).mongo.storedBytes ⟨0⟩ = none := by
  refine ⟨reachable_storeAfter _, ?_⟩
  decide +kernel

/-- A finished upload and another document with content of its own. -/
def ownContent : List Call :=
  sharedUpload.take 3 ++ [.createDoc 0
    { filename := some "c".toList, length := 1, stream := { reads := [[8]] } }]

/-- Removing the first document keeps the second one and its byte. -/
theorem removal_keeps_content_iff_ownContent :
    ((Removal.document 1 1).after (storeAfter ownContent)).versions.rows.length = 1 ∧
      ∀ v ∈ ((Removal.document 1 1).after (storeAfter ownContent)).versions.rows,
        v.uploadStatus = some .complete → ∀ k, v.storageKey = some k →
          ((Removal.document 1 1).after (storeAfter ownContent)).mongo.storedBytes k =
            (storeAfter ownContent).mongo.storedBytes k := by
  refine ⟨by decide +kernel, ?_⟩
  refine (removal_keeps_content_iff (reachable_storeAfter ownContent) _).mpr ?_
  have others : ∀ v ∈ (storeAfter ownContent).versions.rows,
      (Removal.document 1 1).Deletes (storeAfter ownContent) v ∨ v.storageKey = some ⟨1⟩ := by
    decide +kernel
  have removed : (Removal.document 1 1).keys (storeAfter ownContent) = [⟨0⟩] := by decide +kernel
  intro v member stays _ k stored _
  rcases others v member with deleted | own
  · exact absurd deleted stays
  · obtain rfl := Option.some.inj (own.symm.trans stored)
    rw [removed]
    decide

end Clb
