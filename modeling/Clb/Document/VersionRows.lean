/-
# Document.VersionRows -- which version rows stay, and how large their numbers are

Only the two removals delete version rows: every other request keeps the pair and the storage key of
each row (`exec_keepsVersions`), storage keys are handed out in increasing order, and the number of a
version stays within `int`. -/
import Clb.Dao.Items
import Clb.Document.ReadPaths
import Clb.Document.SharedContent

set_option autoImplicit false

namespace Clb

open Clb.Lib Clb.Dao Clb.Lib.Action DocumentFacade Handlers

variable {resource : Resource} {docid : Int} {r : Except Fault UpdateInfo}
variable {config : Config} {session : Session} {s s' : Store}

/-- Version numbers are of the type `int`. -/
def SmallVersions (s : Store) : Prop := ∀ v ∈ s.versions.rows, v.version ≤ 2147483647

/-- From `s` to `s'` every version row keeps its pair and its storage key, and the numbers stay
small. -/
structure KeepsVersions (s s' : Store) : Prop where
  rows : ∀ v ∈ s.versions.rows, ∃ v' ∈ s'.versions.rows,
    v'.pair = v.pair ∧ v'.storageKey = v.storageKey
  issued : s.mongo.issued ≤ s'.mongo.issued
  small : SmallVersions s → SmallVersions s'

namespace KeepsVersions

theorem of_versions (versions : s'.versions = s.versions) (issued : s.mongo.issued ≤ s'.mongo.issued) :
    KeepsVersions s s' :=
  ⟨fun v member => ⟨v, versions ▸ member, rfl, rfl⟩, issued, fun small v member =>
    small v (versions ▸ member)⟩

theorem refl (s : Store) : KeepsVersions s s := of_versions rfl (Nat.le_refl _)

theorem trans {s'' : Store} (first : KeepsVersions s s') (second : KeepsVersions s' s'') :
    KeepsVersions s s'' where
  rows v member := by
    obtain ⟨v', member', pair', key'⟩ := first.rows v member
    obtain ⟨v'', member'', pair'', key''⟩ := second.rows v' member'
    exact ⟨v'', member'', pair''.trans pair', key''.trans key'⟩
  issued := Nat.le_trans first.issued second.issued
  small small := second.small (first.small small)

theorem addVersion (s : Store) {v : DocVersion} (small : v.version ≤ 2147483647) :
    KeepsVersions s (s.addVersion v) :=
  ⟨fun v member => ⟨v, List.mem_append_left _ member, rfl, rfl⟩, Nat.le_refl _, fun before =>
    Table.forall_mem_insert before small⟩

theorem addFirst (s : Store) {docid size : Int} {name : Text} {storageKey : Option ObjectId}
    {status : UploadStatus} :
    KeepsVersions s (s.addVersion (firstVersion session docid name size storageKey status)) :=
  addVersion s (by decide : (1 : Int) ≤ 2147483647)

theorem issueKey (s : Store) : KeepsVersions s s.issueKey := of_versions rfl (Nat.le_succ _)

theorem editRefs (s : Store) (counted : DocRef → Bool) (edit : Int → Int) :
    KeepsVersions s (s.editRefs counted edit) :=
  of_versions rfl (Nat.le_refl _)

theorem newDoc (s : Store) (isPub : Int) : KeepsVersions s (withNewDoc config session isPub s) :=
  of_versions rfl (Nat.le_refl _)

theorem complete (s : Store) (appid docid version : Int) :
    KeepsVersions s (s.complete appid docid version) where
  rows v member := by
    refine ⟨_, List.mem_map.mpr ⟨v, member, rfl⟩, ?_⟩
    split <;> exact ⟨rfl, rfl⟩
  issued := Nat.le_refl _
  small before := Table.forall_mem_update before fun _ _ small => small

end KeepsVersions

theorem Saved.keepsVersions {name : Text} {mf : MFile} {r : Except Fault Unit}
    (saved : Saved resource name mf s r s') : KeepsVersions s s' := by
  refine .of_versions saved.tables.2.1 ?_
  cases saved with
  | skipped | spoiled => exact Nat.le_refl _
  | driven opened temp wrote => exact Nat.le_trans (Nat.le_succ _) (Nat.le_of_eq wrote.issued.symm)

theorem Advanced.keepsVersions {dv : DocVersion} {after : Act Unit}
    (after_keeps : ∀ s, KeepsVersions s (after s).2)
    (advanced : Advanced session resource dv docid after s r s') : KeepsVersions s s' := by
  cases advanced with
  | unsaved => exact .refl s
  | broken fault named stored saved => exact saved.keepsVersions
  | done named stored saved => exact (saved.keepsVersions.trans (.complete _ _ _ _)).trans (after_keeps _)

theorem Waiting.keepsVersions {isPub : Int} {r : Except Fault DocVersion}
    (waiting : Waiting config session isPub resource s r s') : KeepsVersions s s' := by
  cases waiting with
  | refused => exact .of_versions rfl (Nat.le_refl _)
  | unnamed => exact (KeepsVersions.newDoc s isPub).trans (.issueKey _)
  | waiting => exact ((KeepsVersions.newDoc s isPub).trans (.issueKey _)).trans (.addFirst _)

theorem Versioned.keepsVersions {docid version size : Int} {filename : Option Text}
    {r : Except Fault DocVersion} (small : version ≤ 2147483647)
    (versioned : Versioned session docid version filename size s r s') : KeepsVersions s s' := by
  cases versioned with
  | refused => exact .issueKey s
  | bare => exact (KeepsVersions.issueKey s).trans (.addVersion _ small)
  | created =>
    exact ((KeepsVersions.issueKey s).trans (.addVersion _ small)).trans (.of_versions rfl (Nat.le_refl _))

theorem Created.keepsVersions {isPub : Int} {after : DocVersion → Act Unit}
    (after_keeps : ∀ dv s, KeepsVersions s (after dv s).2)
    (created : Created config session isPub resource after s r s') : KeepsVersions s s' := by
  cases created with
  | readonly => exact .refl s
  | refused fault waiting => exact waiting.keepsVersions
  | advanced waiting advanced => exact waiting.keepsVersions.trans (advanced.keepsVersions (after_keeps _))

theorem JsonCreated.keepsVersions {clbid isPub : Int}
    (created : JsonCreated config session clbid isPub resource s r s') :
    KeepsVersions s s' := by
  have counted : ∀ dv s, KeepsVersions s (countKey dv s).2 := fun dv s =>
    countKey_keeps dv s fun _ => .editRefs s _ _
  cases created with
  | refused => exact .refl s
  | created zero created => exact created.keepsVersions counted
  | advanced nonzero last advanced => exact advanced.keepsVersions (counted _)

theorem Updated.keepsVersions
    (small : DocVersionDAO.nextVersion session.appid docid s.versions ≤ 2147483647)
    (updated : Updated session docid resource s r s') : KeepsVersions s s' := by
  cases updated with
  | refused => exact .refl s
  | unversioned fault read versioned => exact versioned.keepsVersions small
  | advanced read permitted versioned advanced =>
    exact (versioned.keepsVersions small).trans (advanced.keepsVersions .refl)

/-- There is no number left for a new version. -/
theorem updateDoc_large
    (large : ¬ DocVersionDAO.nextVersion session.appid docid s.versions ≤ 2147483647) :
    KeepsVersions s (updateDoc config session docid resource s).2 := by
  change Ends (updateDoc config session docid resource) s fun _ s' => KeepsVersions s s'
  have refused : ∀ v : DocVersion, v.appid = session.appid → v.docid = docid →
      DocVersionDAO.create v s.versions = (.error .dataIntegrity, s.versions) := by
    intro v appid docid
    refine bind_error ?_
    unfold attempt DocVersionDAO.getNewDocVersionId
    rw [appid, docid, if_neg large]
  unfold updateDoc
  refine ends_bind ((readOnly_checkSystemIOMode config).ends ?_)
  split
  · refine ends_bind ((readOnly_getDocMetaByDocid _ _).ends ?_)
    split
    · refine ends_bind ((readOnly_checkPermission _ _).ends ?_)
      split
      · unfold createDocVersion buildDocVersion
        refine ends_bind (ends_bind (ends_of_eq rfl (ends_bind (ends_bind (ends_require ?_ ?_)))))
        · intro name _
          refine ends_pure (ends_bind (ends_within (ends_of_eq (refused _ rfl rfl) ?_)))
          exact .issueKey s
        · exact fun _ => .issueKey s
      · exact .refl s
    · exact .refl s
  · exact .refl s

theorem Entered.keepsVersions (wf : Wf config s) {isPub : Int} {name : Text}
    (entered : Entered config session isPub name resource s r s') :
    KeepsVersions s s' := by
  have first : s.NoDoc session.appid (freshDocid config session s) →
      DocVersionDAO.nextVersion session.appid (freshDocid config session s) s.versions ≤ 2147483647 := by
    intro noDoc
    have positive := config.nextID_pos session.appid (s.docids session.appid)
    rw [nextVersion_eq_one (wf.noVersion_of_noDoc noDoc (Int.ne_of_gt positive))]
    decide
  cases entered with
  | refused => exact .of_versions rfl (Nat.le_refl _)
  | unversioned fault noDoc versioned =>
    exact (KeepsVersions.newDoc s isPub).trans (versioned.keepsVersions (first noDoc))
  | saved noDoc versioned saved =>
    refine ((KeepsVersions.newDoc s isPub).trans (versioned.keepsVersions (first noDoc))).trans ?_
    rcases saved with ⟨-, rfl⟩ | ⟨title, key, -, -, saved⟩
    · exact .refl s'
    · exact saved.keepsVersions

theorem Referred.keepsVersions {clb : ClbMeta} {r : Except Fault Unit}
    (referred : Referred session clb s r s') : KeepsVersions s s' := by
  have counted : ∀ selected edit, KeepsVersions s
      ((s.addDoc (docRow session clb.docid 0)).editRefs selected edit) :=
    fun _ _ => .of_versions rfl (Nat.le_refl _)
  cases referred with
  | taken => exact .refl s
  | unknown => exact .of_versions rfl (Nat.le_refl _)
  | counted => exact counted _ _
  | referred => exact (counted _ _).trans (.addFirst _)

theorem Prepared.keepsVersions {param : PrepareChunkUploadParam}
    {r : Except Fault ChunkResponse} (prepared : Prepared session docid param s r s') :
    KeepsVersions s s' := by
  have keyed : ∀ ref, KeepsVersions s (s.issueKey.addRef ref) := fun _ => .of_versions rfl (Nat.le_succ _)
  cases prepared with
  | exceeded | foundFull | overflowed | resumedFault => exact .refl s
  | found => exact (KeepsVersions.editRefs s _ _).trans (.addFirst _)
  | foundFault => exact .editRefs s _ _
  | resumedVersion => exact .addFirst s
  | resumedStatus | resumed =>
    exact (KeepsVersions.addFirst s).trans (.of_versions rfl (Nat.le_refl _))
  | newKey => exact .issueKey s
  | newRef => exact keyed _
  | new => exact ((keyed _).trans (.addFirst _)).trans (.of_versions rfl (Nat.le_refl _))

theorem Finished.keepsVersions {r : Except Fault ChunkResponse}
    (finished : Finished session docid s r s') : KeepsVersions s s' := by
  cases finished with
  | raised => exact .refl s
  | needMore => exact .of_versions rfl (Nat.le_refl _)
  | completed | uncounted =>
    refine KeepsVersions.trans (.trans (.of_versions rfl (Nat.le_refl _)) (.complete _ _ _ _))
      (.of_versions rfl (Nat.le_refl _))

theorem Written.keepsVersions (wf : Wf config s) {saves : Saves} {cup : ExecuteChunkUploadParam}
    {ins : InputStream} {r : Except Fault ChunkResponse} (written : Written session saves cup ins s r s') :
    KeepsVersions s s' := by
  cases written with
  | idle => exact .refl s
  | raised taken upload => exact .of_versions rfl (Nat.le_of_eq (taken.mongoWf wf upload).2.symm)
  | written taken upload => exact .of_versions rfl (Nat.le_of_eq (taken.mongoWf wf upload).2.symm)

/-! ## Requests -/

/-- The version rows that a request deletes. -/
def Removes (request : Request) (s : Store) (v : DocVersion) : Prop :=
  match request.call with
  | .removeDoc docid => (Removal.document request.session.appid docid).Deletes s v
  | .removeVersion dp => ∃ p dv, convertToPair request.session.appid dp = some p ∧
      DocVersionDAO.read p s.versions = some dv ∧ (Removal.version dv).Deletes s v
  | _ => False

/-- From `s` to `s'` the request removed rows, and kept the others. -/
def KeepsOthers (request : Request) (s s' : Store) : Prop :=
  s.mongo.issued ≤ s'.mongo.issued ∧ (SmallVersions s → SmallVersions s') ∧
    ∀ v ∈ s.versions.rows, ¬ Removes request s v → ∃ v' ∈ s'.versions.rows,
      v'.pair = v.pair ∧ v'.storageKey = v.storageKey

theorem Removal.keeps (wf : Wf config s) (removal : Removal) :
    s.mongo.issued ≤ (removal.after s).mongo.issued ∧
      (SmallVersions s → SmallVersions (removal.after s)) ∧
      ∀ v ∈ s.versions.rows, ¬ removal.Deletes s v → v ∈ (removal.after s).versions.rows := by
  obtain ⟨mongo, rows⟩ := removal.after_spec wf
  refine ⟨?_, fun small v member => small v ((rows v).mp member).1, fun v member stays =>
    (rows v).mpr ⟨member, stays⟩⟩
  rw [mongo, (wf.mongo.deleteKeys _).2]

/-- **A request keeps the version rows that it does not remove.** -/
theorem exec_keepsVersions (request : Request) (wf : Wf config s) :
    KeepsOthers request s (exec config request s) := by
  have all : ∀ {s'}, KeepsVersions s s' → KeepsOthers request s s' :=
    fun keeps => ⟨keeps.issued, keeps.small, fun v member _ => keeps.rows v member⟩
  obtain ⟨session, call⟩ := request
  cases call with
  | prepareUpload param =>
    refine all ?_
    change Ends (prepareUpload config session param) s fun _ s' => KeepsVersions s s'
    refine (prepareUpload_ends wf).mono ?_
    rintro _ _ (⟨fault, -, rfl⟩ | ⟨noDoc, prepared⟩)
    · exact .of_versions rfl (Nat.le_refl _)
    · exact (KeepsVersions.newDoc s 0).trans prepared.keepsVersions
  | writeChunkData saves cup ins => exact all (Written.keepsVersions wf (writeChunkData_ends wf))
  | finishUpload docid => exact all (Finished.keepsVersions (finishUpload_ends wf))
  | createClbRef clb => exact all (Referred.keepsVersions (createClbRef_ends wf))
  | createDoc isPub resource => exact all (Created.keepsVersions (fun _ => .refl) (createDoc_ends wf))
  | createDocForJson clbid isPub resource =>
    exact all (JsonCreated.keepsVersions (createDocForJson_ends wf))
  | createMultiDocs isPub entries =>
    exact all (createMultiDocs_ends wf (KeepsVersions.refl s) fun _ _ _ wf keeps _ _ entered =>
      keeps.trans (entered.keepsVersions wf)).2
  | updateDoc docid resource =>
    by_cases small : DocVersionDAO.nextVersion session.appid docid s.versions ≤ 2147483647
    · exact all (Updated.keepsVersions small (updateDoc_ends wf))
    · exact all (updateDoc_large small)
  | removeDoc docid =>
    change Ends (removeDoc session docid) s fun _ s' => KeepsOthers _ s s'
    refine removeDoc_ends.mono ?_
    rintro _ _ (rfl | rfl)
    · exact all (.refl _)
    · obtain ⟨issued, small, rows⟩ := Removal.keeps wf (.document session.appid docid)
      exact ⟨issued, small, fun v member stays => ⟨v, rows v member stays, rfl, rfl⟩⟩
  | removeVersion dp =>
    change Ends (removeVersion session dp) s fun _ s' => KeepsOthers _ s s'
    refine removeVersion_ends.mono ?_
    rintro _ _ (rfl | ⟨p, dv, converted, read, rfl⟩)
    · exact all (.refl _)
    · obtain ⟨issued, small, rows⟩ := Removal.keeps wf (.version dv)
      refine ⟨issued, small, fun v member stays => ⟨v, rows v member fun deletes => stays ?_, rfl, rfl⟩⟩
      exact ⟨p, dv, converted, read, deletes⟩

end Clb
