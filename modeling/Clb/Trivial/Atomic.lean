/-
# Trivial.Atomic -- is an update of a space that fails undone

`UpdateTrivialSpaceHandler` removes the files of the space as soon as the document is open to the session,
and only then looks for the version, its archive and the item of the space. `update_atomic_iff` says
exactly when an update that ends with an exception has left the files and the rows as they were: the
space has no files, or everything that is looked for after the removal is there.

`files_lost` is an update with a document that is not an archive. -/
import Clb.Trivial.Isolation

set_option autoImplicit false

namespace Clb

open Clb.Lib Clb.Lib.Action Clb.Dao DocumentFacade Handlers TrivialFacade TrivialHandlers

/-- The row of an item after `updateTrivialItemInfo`. -/
def TrivialItem.repointed (dv : DocVersion) (item : TrivialItem) : TrivialItem :=
  { item with
    appid := dv.appid, docid := dv.docid, version := dv.version
    status := some CLBStatus.READY.name }

/-- What the handler needs once the files are removed: an archive to replace them with, and a row that
the table takes. -/
def CanReplace (tp : TrivialParam) (p : DPair) (s : TrivialServer) : Prop :=
  ∃ dv item zipFile, (replacement tp p s).1 = .ok (dv, item, zipFile) ∧
    (TrivialItemDAO.update (item.repointed dv) s.items).isSome

/-- An update that raises leaves the files of every space and every row as they were. -/
def UpdatesAtomically (codec : HexCodec) (session : Session) (s : TrivialServer) (tp : TrivialParam) :
    Prop :=
  ∀ fault, (updateTrivialSpace codec session tp s).1 = .error fault →
    (updateTrivialSpace codec session tp s).2.files = s.files ∧
      (updateTrivialSpace codec session tp s).2.items = s.items

variable {codec : HexCodec} {session : Session} {s : TrivialServer} {key : ObjectId}

/-! ## What follows the removal does not look at the files -/

theorem onDocuments_congr {α : Type} {act : Act α} {s' : TrivialServer} (same : s'.store = s.store) :
    (onDocuments act s').1 = (onDocuments act s).1 := by
  change (act s'.store).1 = (act s.store).1
  rw [same]

theorem getTrivialItem_congr {spaceName : Option Text} {s' : TrivialServer} (same : s'.items = s.items) :
    (getTrivialItemByStorageKey spaceName s').1 = (getTrivialItemByStorageKey spaceName s).1 := by
  refine (readOnly_read _).bind_congr ?_ fun item => ?_
  · change Except.ok (TrivialItemDAO.readBySpaceName spaceName s'.items) = .ok _
    rw [same]
  · cases item with
    | none => rfl
    | some _ => rfl

theorem replacement_withoutFiles (tp : TrivialParam) (p : DPair) :
    (replacement tp p (s.withoutFiles key)).1 = (replacement tp p s).1 := by
  unfold replacement
  refine (readOnly_onDocuments (readOnly_getDocVersion p)).bind_congr (onDocuments_congr rfl) fun dv => ?_
  refine (readOnly_onDocuments (readOnly_raiseIf _ _)).bind_congr (onDocuments_congr rfl) fun _ => ?_
  refine (readOnly_getTrivialItem tp.spaceName).bind_congr (getTrivialItem_congr rfl) fun item => ?_
  refine (readOnly_onDocuments (readOnly_readDocContent dv)).bind_congr (onDocuments_congr rfl) fun f => ?_
  exact (readOnly_onDocuments (readOnly_writeZip f)).bind_congr (onDocuments_congr rfl) fun _ => rfl

/-! ## How an update ends -/

theorem updateTrivialItemInfo_outcome (dv : DocVersion) (item : TrivialItem) :
    Ends (updateTrivialItemInfo dv item) s fun r s' => s'.files = s.files ∧
      ((∃ found, r = .ok found) ∧ (TrivialItemDAO.update (item.repointed dv) s.items).isSome ∨
        (∃ fault, r = .error fault) ∧ s'.items = s.items ∧
          TrivialItemDAO.update (item.repointed dv) s.items = none) := by
  refine ends_attempt ?_ fun refused => ?_
  · rintro found s' updated
    obtain ⟨items, done, same⟩ := Option.map_eq_some_iff.mp updated
    obtain rfl := (Prod.mk.inj same).2
    exact ⟨rfl, .inl ⟨⟨found, rfl⟩, Option.isSome_iff_exists.mpr ⟨items, done⟩⟩⟩
  · exact ⟨rfl, .inr ⟨⟨_, rfl⟩, rfl, Option.map_eq_none_iff.mp refused⟩⟩

/-- An update is refused before it removes anything, or the files are gone; then it succeeds exactly if
they can be replaced, and no row has changed if it does not. -/
theorem updateTrivialSpace_outcome (tp : TrivialParam) :
    Ends (updateTrivialSpace codec session tp) s fun r s' =>
      (s' = s ∧ ∀ p key, (openDocument session tp.docPair s.store).1 = .ok p →
        tp.spaceName.bind codec.ofHex ≠ some key) ∨
      ∃ p key, (openDocument session tp.docPair s.store).1 = .ok p ∧
        tp.spaceName.bind codec.ofHex = some key ∧ s'.files = (s.withoutFiles key).files ∧
        ((∃ found, r = .ok found) ∧ CanReplace tp p s ∨
          (∃ fault, r = .error fault) ∧ s'.items = s.items ∧ ¬ CanReplace tp p s) := by
  refine ends_updateTrivialSpace (fun refused _ => .inl ⟨rfl, refused⟩)
    (fun p key fault opened named raised => ?_) fun p key dv item zipFile opened named read => ?_
  · rw [replacement_withoutFiles] at raised
    refine .inr ⟨p, key, opened, named, rfl, .inr ⟨⟨fault, rfl⟩, rfl, ?_⟩⟩
    rintro ⟨dv, item, zipFile, read, -⟩
    cases raised.symm.trans read
  · rw [replacement_withoutFiles] at read
    refine (updateTrivialItemInfo_outcome dv item).mono ?_
    rintro r s' ⟨files, ⟨returned, accepted⟩ | ⟨raised, items, rejected⟩⟩
    · exact .inr ⟨p, key, opened, named, files, .inl ⟨returned, dv, item, zipFile, read, accepted⟩⟩
    · refine .inr ⟨p, key, opened, named, files, .inr ⟨raised, items, ?_⟩⟩
      rintro ⟨dv', item', zipFile', read', accepted⟩
      obtain ⟨rfl, rest⟩ := Prod.mk.inj (Except.ok.inj (read.symm.trans read'))
      obtain ⟨rfl, -⟩ := Prod.mk.inj rest
      have refused : TrivialItemDAO.update (item.repointed dv) s.items = none := rejected
      rw [refused] at accepted
      cases accepted

/-- **Atomicity of updates.** Whatever the state, the session and the parameter, an update that raises
has changed neither files nor rows exactly if a space from which files are removed can be filled again. -/
theorem update_atomic_iff (tp : TrivialParam) :
    UpdatesAtomically codec session s tp ↔
      ∀ p key, (openDocument session tp.docPair s.store).1 = .ok p →
        tp.spaceName.bind codec.ofHex = some key → (∃ f ∈ s.files, f.spaceName = key) →
          CanReplace tp p s := by
  have outcome := (updateTrivialSpace_outcome tp : Ends (updateTrivialSpace codec session tp) s _)
  constructor
  · rintro atomic p key opened named ⟨f, member, here⟩
    rcases outcome with ⟨-, refused⟩ | ⟨p', key', opened', named', files, ends⟩
    · exact absurd named (refused p key opened)
    · obtain rfl := Except.ok.inj (opened.symm.trans opened')
      obtain rfl := Option.some.inj (named.symm.trans named')
      rcases ends with ⟨-, can⟩ | ⟨⟨fault, raised⟩, -, -⟩
      · exact can
      · rw [← (atomic fault raised).1, files] at member
        exact absurd here (bne_iff_ne.mp (List.mem_filter.mp member).2)
  · intro refills fault raised
    rcases outcome with ⟨same, -⟩ | ⟨p, key, opened, named, files, ends⟩
    · rw [same]
      exact ⟨rfl, rfl⟩
    · rcases ends with ⟨⟨found, returned⟩, -⟩ | ⟨-, items, cannot⟩
      · cases raised.symm.trans returned
      · have none_ : ∀ f ∈ s.files, f.spaceName ≠ key := fun f member here =>
          cannot (refills p key opened named ⟨f, member, here⟩)
        rw [files, withoutFiles_eq_self none_]
        exact ⟨rfl, items⟩

/-- A user with an archive whose space has been filled, and with a document that is no archive. -/
def archiveAndText : TrivialServer :=
  { twoArchives with
    store := storeAfter [.createDoc 0 archiveFile, .createDoc 0 { archiveFile with
      filename := some "a.txt".toList }] }

/-- The space of the archive is updated with the other document. -/
def fromText : TrivialParam := ⟨⟨2, "1".toList⟩, none, some (digitCodec.toHex ⟨0⟩)⟩

/-- **The files are lost.** The update raises because the document is not an archive, and the files of
the space are gone. -/
theorem files_lost :
    ¬ UpdatesAtomically digitCodec someSession archiveAndText fromText ∧
      (updateTrivialSpace digitCodec someSession fromText archiveAndText).1 =
        .error .invalidFileOperation ∧
      archiveAndText.files = [⟨⟨0⟩, "index.html".toList⟩] ∧
      (updateTrivialSpace digitCodec someSession fromText archiveAndText).2.files = [] := by
  have raised : (updateTrivialSpace digitCodec someSession fromText archiveAndText).1 =
      .error .invalidFileOperation := by decide +kernel
  have removed : (updateTrivialSpace digitCodec someSession fromText archiveAndText).2.files = [] := by
    decide +kernel
  refine ⟨fun atomic => ?_, raised, rfl, removed⟩
  have kept := (atomic _ raised).1
  rw [removed] at kept
  cases kept

end Clb
