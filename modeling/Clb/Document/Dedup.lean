/-
# Document.Dedup -- answers from content that is already stored

`prepareUpload` and `createClbRef` give a document the storage key of a clb_doc_ref row and complete it
without storing anything; the counter of the row is all they look at. `dedup_backed` says under which
conditions on the calls that is right: uploads are sound, a reference is made to counted content of the
size that is asked for, no other call touches the documents of the uploads, and a removal deletes
nothing that a counted reference or another version needs. The last condition is the one the removals
break, because they never lower the counter: `dedup_not_backed`. -/
import Clb.Document.FinishSound
import Clb.Document.SharedContent

set_option autoImplicit false

namespace Clb

open Clb.Lib Clb.Dao Clb.Lib.Action DocumentFacade Handlers

open MongoStorageService (deleteMetaAndContent)

variable {s' : Store} {resource : Resource} {r : Except Fault UpdateInfo}
variable {config : Config} {session : Session} {s : Store}

/-! ## The content of other documents -/

/-- Content that is stored whole, under a key that is not that of a reference row. -/
theorem Saved.uploadsSound (wf : Wf config s) (sound : UploadsSound s)
    {name : Text} {mf : MFile} {r : Except Fault Unit}
    (apart : ∀ ref ∈ s.refs.rows, ref.storageKey ≠ some mf.storageKey)
    (saved : Saved resource name mf s r s') : UploadsSound s' := by
  cases saved with
  | skipped | spoiled => exact sound
  | driven opened temp wrote =>
    refine sound.withMongo (fun _ member => member) ?_ fun _ _ _ _ _ _ => wrote.hasChunk
    intro ref member k owner chunkSize positive cut part
    refine part.of_agree (.driven (wf.refKeys ref member k owner) ?_ wrote)
    rintro rfl
    exact apart ref member owner

theorem Advanced.uploadsSound (wf : Wf config s) (sound : UploadsSound s)
    {dv : DocVersion} {docid : Int} {after : Act Unit}
    (apart : ∀ ref ∈ s.refs.rows, ref.storageKey ≠ dv.storageKey)
    (after_sound : ∀ s', s'.refs = s.refs → UploadsSound s' → UploadsSound (after s').2)
    (advanced : Advanced session resource dv docid after s r s') : UploadsSound s' := by
  have saved_sound : ∀ {name filename : Text} {key : ObjectId} {r : Except Fault Unit} {s' : Store},
      dv.storageKey = some key → Saved resource name (mongoFile session dv filename key) s r s' →
      UploadsSound s' := by
    intro name filename key r s' stored saved
    exact saved.uploadsSound wf sound fun ref member => stored ▸ apart ref member
  cases advanced with
  | unsaved => exact sound
  | broken fault named stored saved => exact saved_sound stored saved
  | done named stored saved =>
    exact after_sound (Store.complete session.appid docid dv.version _) saved.tables.2.2.1
      ((saved_sound stored saved).complete _ _ _)

/-- The next storage key is not that of a reference row. -/
theorem Wf.newKey_apart (wf : Wf config s) : ∀ ref ∈ s.refs.rows, ref.storageKey ≠ some s.newKey :=
  fun ref member owner => Nat.lt_irrefl _ (wf.refKeys ref member _ owner)

theorem Waiting.uploadsSound (wf : Wf config s) (sound : UploadsSound s) {isPub : Int}
    {r : Except Fault DocVersion} (waiting : Waiting config session isPub resource s r s') :
    UploadsSound s' ∧ ∀ dv, r = .ok dv → ∀ ref ∈ s'.refs.rows, ref.storageKey ≠ dv.storageKey := by
  cases waiting with
  | refused => exact ⟨sound, fun _ returned => nomatch returned⟩
  | unnamed => exact ⟨sound.issueKey, fun _ returned => nomatch returned⟩
  | waiting =>
    refine ⟨sound.issueKey.addVersion (wf.statusFree session), ?_⟩
    rintro _ ⟨⟩
    exact wf.newKey_apart

theorem Versioned.uploadsSound (wf : Wf config s) (sound : UploadsSound s) {docid version size : Int}
    {filename : Option Text} {r : Except Fault DocVersion}
    (free : ∀ c ∈ s.chunkStatus.rows, c.appid = session.appid → c.docid ≠ docid)
    (versioned : Versioned session docid version filename size s r s') :
    UploadsSound s' ∧ ∀ dv, r = .ok dv → ∀ ref ∈ s'.refs.rows, ref.storageKey ≠ dv.storageKey := by
  cases versioned with
  | refused => exact ⟨sound.issueKey, fun _ returned => nomatch returned⟩
  | bare => exact ⟨sound.issueKey.addVersion free, fun _ returned => nomatch returned⟩
  | created =>
    refine ⟨sound.issueKey.addVersion free, ?_⟩
    rintro _ ⟨⟩
    exact wf.newKey_apart

/-- Counting the references of a key that no reference row has. -/
theorem UploadsSound.countKey (sound : UploadsSound s) {dv : DocVersion}
    (apart : ∀ ref ∈ s.refs.rows, ref.storageKey ≠ dv.storageKey) : UploadsSound (countKey dv s).2 := by
  rcases countUp_ends s (fun r => r.storageKey == dv.storageKey) with
    ⟨-, counted⟩ | ⟨-, refused⟩
  · rw [show Clb.countKey dv s = _ from counted]
    refine @UploadsSound.editRefs s sound _ (· + 1) fun ref member chosen => ?_
    exact absurd (beq_iff_eq.mp chosen) (apart ref member)
  · rw [show Clb.countKey dv s = _ from refused]
    exact sound

theorem Created.uploadsSound (wf : Wf config s) (sound : UploadsSound s) {isPub : Int}
    {after : DocVersion → Act Unit}
    (after_sound : ∀ dv s, (∀ ref ∈ s.refs.rows, ref.storageKey ≠ dv.storageKey) → UploadsSound s →
      UploadsSound (after dv s).2)
    (created : Created config session isPub resource after s r s') : UploadsSound s' := by
  cases created with
  | readonly => exact sound
  | refused fault waiting => exact (waiting.uploadsSound wf sound).1
  | advanced waiting advanced =>
    obtain ⟨sound₁, apart⟩ := waiting.uploadsSound wf sound
    exact advanced.uploadsSound (waiting.wf wf) sound₁ (apart _ rfl)
      fun s' refs => after_sound _ s' (refs ▸ apart _ rfl)

theorem JsonCreated.uploadsSound (wf : Wf config s) (sound : UploadsSound s) {clbid isPub : Int}
    (guard : clbid ≠ 0 → ∀ dv,
      DocVersionDAO.readLastVersion session.appid clbid s.versions = some dv →
      ∀ ref ∈ s.refs.rows, ref.storageKey ≠ dv.storageKey)
    (created : JsonCreated config session clbid isPub resource s r s') : UploadsSound s' := by
  cases created with
  | refused => exact sound
  | created zero created => exact created.uploadsSound wf sound fun _ _ apart sound => sound.countKey apart
  | advanced nonzero last advanced =>
    have apart := guard nonzero _ last
    exact advanced.uploadsSound wf sound apart fun s' refs sound' => sound'.countKey (refs ▸ apart)

theorem Updated.uploadsSound (wf : Wf config s) (sound : UploadsSound s) {docid : Int}
    (free : ∀ c ∈ s.chunkStatus.rows, c.appid = session.appid → c.docid ≠ docid)
    (updated : Updated session docid resource s r s') : UploadsSound s' := by
  cases updated with
  | refused => exact sound
  | unversioned fault read versioned => exact (versioned.uploadsSound wf sound free).1
  | advanced read permitted versioned advanced =>
    obtain ⟨sound₁, apart⟩ := versioned.uploadsSound wf sound free
    exact advanced.uploadsSound (versioned.wf wf (docMeta_read_doc read)) sound₁ (apart _ rfl)
      fun _ _ sound' => sound'

theorem Entered.uploadsSound (wf : Wf config s) (sound : UploadsSound s) {isPub : Int} {name : Text}
    (entered : Entered config session isPub name resource s r s') : UploadsSound s' := by
  cases entered with
  | refused => exact sound
  | unversioned fault noDoc versioned =>
    have new := wf.withNewDoc isPub noDoc
    exact (versioned.uploadsSound new.wf sound new.statusFree).1
  | saved noDoc versioned saved =>
    have new := wf.withNewDoc isPub noDoc
    obtain ⟨sound₁, apart⟩ := versioned.uploadsSound new.wf sound new.statusFree
    rcases saved with ⟨-, rfl⟩ | ⟨title, key, -, stored, saved⟩
    · exact sound₁
    · refine saved.uploadsSound (versioned.wf new.wf fun _ => new.doc) sound₁ fun ref member => ?_
      exact stored ▸ apart _ rfl ref member

/-! ## References -/

/-- A reference to counted content of the size that is asked for, by a document that is no upload. -/
def SoundReference (session : Session) (clb : ClbMeta) (s : Store) : Prop :=
  clb.size ≠ 0 ∧ (∀ ref, DocRefDAO.read clb.md5 clb.size s.refs = some ref → 0 < ref.ref) ∧
    ∀ c ∈ s.chunkStatus.rows, c.appid = session.appid → c.docid ≠ clb.docid

theorem Referred.uploadsSound (wf : Wf config s) (sound : UploadsSound s) {clb : ClbMeta}
    {r : Except Fault Unit} (guard : SoundReference session clb s)
    (referred : Referred session clb s r s') : UploadsSound s' := by
  obtain ⟨-, positive, free⟩ := guard
  have counted : ∀ {ref : DocRef}, DocRefDAO.read clb.md5 clb.size s.refs = some ref →
      UploadsSound (s.editRefs (fun r => r.id == ref.id) DocRefDAO.raised) := by
    intro ref read
    refine sound.editRefs fun r member same => ?_
    obtain rfl := wf.refsNumbered.eq_of_ident_eq member (docRef_read_some read).1 (beq_iff_eq.mp same)
    exact sound.counted r member (positive r read)
  cases referred with
  | taken | unknown => exact sound
  | counted fault ref noDoc read => exact counted read
  | referred ref name noDoc read => exact (counted read).addVersion free

/-! ## Removals -/

theorem PartialFile.deleteKeys {k : ObjectId} {length chunkSize : Nat} (keys : List ObjectId)
    {m : Mongo} (part : PartialFile k length chunkSize m) :
    PartialFile k length chunkSize (Clb.deleteKeys keys m) := by
  induction keys generalizing m with
  | nil => exact part
  | cons key keys ih => exact ih (part.delete key)

theorem PartialFile.agree_deleteKeys {k : ObjectId} {length chunkSize : Nat} (keys : List ObjectId)
    {m : Mongo} (part : PartialFile k length chunkSize m) (apart : k ∉ keys) :
    Mongo.Agree k m (Clb.deleteKeys keys m) := by
  induction keys generalizing m with
  | nil => exact .refl k m
  | cons key keys ih =>
    exact (part.agree_delete (List.ne_of_not_mem_cons apart)).trans
      (ih (part.delete key) (List.not_mem_of_not_mem_cons apart))

namespace Removal

/-- The removal deletes nothing that a counted reference or a version that stays needs. -/
def Spares (removal : Removal) (s : Store) : Prop :=
  ∀ k ∈ removal.keys s, (∀ ref ∈ s.refs.rows, ref.storageKey = some k → ref.ref = 0) ∧
    ∀ v ∈ s.versions.rows, ¬removal.Deletes s v → v.storageKey ≠ some k

/-- A removal leaves the reference rows and the chunk status rows. -/
theorem after_frame (wf : Wf config s) (removal : Removal) :
    (removal.after s).refs = s.refs ∧ (removal.after s).chunkStatus = s.chunkStatus := by
  cases removal with
  | document appid docid =>
    unfold after
    dsimp only
    rw [removeDocument_eq]
    dsimp only
    split <;> exact ⟨rfl, rfl⟩
  | version dv =>
    unfold after
    dsimp only
    have removed := @removeDocVersion_ends _ _ wf dv
    rcases removed with ⟨-, -, same⟩ | ⟨key, docs, -, same, -⟩
    · rw [same]
      exact ⟨rfl, rfl⟩
    · rw [same]
      exact ⟨rfl, rfl⟩

/-- **A removal that spares what others need keeps the uploads sound.** -/
theorem uploadsSound (wf : Wf config s) (sound : UploadsSound s) {removal : Removal}
    (spares : removal.Spares s) : UploadsSound (removal.after s) := by
  obtain ⟨mongo, rows⟩ := removal.after_spec wf
  obtain ⟨refs, chunkStatus⟩ := removal.after_frame wf
  unfold UploadsSound
  rw [mongo, refs, chunkStatus]
  refine sound.withMongo (fun v member => ((rows v).mp member).1) ?_ ?_
  · intro ref member k owner chunkSize positive cut part
    exact part.deleteKeys _
  · intro ref member k owner needed n present
    obtain ⟨chunkSize, positive, cut⟩ := sound.cut ref
    obtain ⟨-, k', owner', part⟩ := sound.stored ref member
    obtain rfl : k' = k := Option.some.inj (owner'.symm.trans owner)
    have apart : k' ∉ removal.keys s := by
      intro deleted
      obtain ⟨uncounted, unshared⟩ := spares k' deleted
      rcases needed with ⟨v, memberV, shared⟩ | counted
      · exact unshared v ((rows v).mp memberV).1 ((rows v).mp memberV).2 shared
      · have := uncounted ref member owner
        omega
    exact ((part chunkSize positive cut).agree_deleteKeys _ apart).hasChunk.mpr present

end Removal

/-! ## Runs -/

/-- Runs of all calls that keep to the conditions. -/
def soundCalls (request : Request) (s : Store) : Prop :=
  match request.call with
  | .createClbRef clb => SoundReference request.session clb s
  | .createDoc _ _ | .createMultiDocs _ _ => True
  | .createDocForJson clbid _ _ => clbid ≠ 0 → ∀ dv,
      DocVersionDAO.readLastVersion request.session.appid clbid s.versions = some dv →
      ∀ ref ∈ s.refs.rows, ref.storageKey ≠ dv.storageKey
  | .updateDoc docid _ => ∀ c ∈ s.chunkStatus.rows, c.appid = request.session.appid → c.docid ≠ docid
  | .removeDoc docid => (Removal.document request.session.appid docid).Spares s
  | .removeVersion dp => ∀ p dv, convertToPair request.session.appid dp = some p →
      DocVersionDAO.read p s.versions = some dv → (Removal.version dv).Spares s
  | _ => soundUploads request s

/-- **One sound call keeps the uploads sound.** -/
theorem exec_uploadsSound_of_soundCalls {request : Request} (guard : soundCalls request s)
    (wf : Wf config s) (sound : UploadsSound s) : UploadsSound (exec config request s) := by
  obtain ⟨session, call⟩ := request
  cases call with
  | prepareUpload | writeChunkData | finishUpload => exact exec_uploadsSound guard wf sound
  | createClbRef clb => exact Referred.uploadsSound wf sound guard (createClbRef_ends wf)
  | createDoc isPub resource =>
    exact Created.uploadsSound wf sound (fun _ _ _ sound' => sound') (createDoc_ends wf)
  | createDocForJson clbid isPub resource =>
    exact JsonCreated.uploadsSound wf sound guard (createDocForJson_ends wf)
  | createMultiDocs isPub entries =>
    exact (createMultiDocs_ends wf sound fun _ _ _ wf sound _ _ entered =>
      entered.uploadsSound wf sound).2
  | updateDoc docid resource => exact Updated.uploadsSound wf sound guard (updateDoc_ends wf)
  | removeDoc docid =>
    change Ends (removeDoc session docid) s fun _ s' => UploadsSound s'
    refine removeDoc_ends.mono ?_
    rintro _ _ (rfl | rfl)
    · exact sound
    · exact Removal.uploadsSound wf sound guard
  | removeVersion dp =>
    change Ends (removeVersion session dp) s fun _ s' => UploadsSound s'
    refine removeVersion_ends.mono ?_
    rintro _ _ (rfl | ⟨p, dv, converted, read, rfl⟩)
    · exact sound
    · exact Removal.uploadsSound wf sound (guard p dv converted read)

/-- The reference row that is read is of the size that is asked for, and backed if it was counted. -/
theorem UploadsSound.backed (sound : UploadsSound s) (wf : Wf config s) {md5 : Option Text}
    {size : Int} {ref : DocRef} (read : DocRefDAO.read md5 size s.refs = some ref) (nonzero : size ≠ 0)
    (positive : 0 < ref.ref) : ∃ k, ref.storageKey = some k ∧ s.mongo.HoldsFile k size := by
  obtain ⟨member, -, sized⟩ := docRef_read_some read
  obtain ⟨k, owner, holds⟩ := sound.holdsFile wf member (sound.counted ref member positive)
  exact ⟨k, owner, sized nonzero ▸ holds⟩

/-- **Answers from stored content are backed by it.** In every run whose calls keep to the conditions,
whenever `prepareUpload` answers FOUND_THE_SAME_CONTENT or `createClbRef` completes a version, the
storage key of the reference row that was read resolves to a stored file of exactly the size that was
asked for. -/
theorem dedup_backed (run : ReachableUnder config soundCalls s) :
    (∀ param res s', soundCalls ⟨session, .prepareUpload param⟩ s →
      prepareUpload config session param s = (.ok res, s') →
      res.statusCode = .FOUND_THE_SAME_CONTENT →
      ∃ ref k, DocRefDAO.read param.md5 param.size s.refs = some ref ∧ ref.storageKey = some k ∧
        s'.mongo.HoldsFile k param.size) ∧
    (∀ clb s', soundCalls ⟨session, .createClbRef clb⟩ s →
      createClbRef session clb s = (.ok (), s') →
      ∃ ref k, DocRefDAO.read clb.md5 clb.size s.refs = some ref ∧ ref.storageKey = some k ∧
        s'.mongo.HoldsFile k clb.size) := by
  have wf := run.wf
  have sound : UploadsSound s := run.invariant .empty fun _ _ => exec_uploadsSound_of_soundCalls
  constructor
  · intro param res s' guard answered code
    have size : 0 < param.size := guard.1
    rcases (prepareUpload_ends wf).apply answered with ⟨fault, raised, -⟩ | ⟨noDoc, prepared⟩
    · cases raised
    · cases prepared with
      | found ref name read positive named =>
        obtain ⟨k, owner, holds⟩ := sound.backed wf read (by omega) positive
        exact ⟨ref, k, read, owner, holds⟩
      | exceeded | overflowed | resumed | new => cases code
  · intro clb s' guard created
    have referred := (createClbRef_ends wf).apply created
    cases referred with
    | referred ref name noDoc read named =>
      obtain ⟨k, owner, holds⟩ := sound.backed wf read guard.1 (guard.2.1 ref read)
      exact ⟨ref, k, read, owner, holds⟩

/-- Another upload of the byte that was uploaded. -/
theorem soundCalls_oneByte_again :
    soundCalls ⟨someSession, .prepareUpload oneByte⟩ (storeAfter finishedUpload) := by
  have counted : ∀ ref ∈ (storeAfter finishedUpload).refs.rows, ref.ref = 1 := by decide +kernel
  refine ⟨by decide, by decide, fun ref read zero => ?_⟩
  have one := counted ref (docRef_read_some read).1
  omega

theorem prepareUpload_oneByte_again :
    prepareUpload countingConfig someSession oneByte (storeAfter finishedUpload) =
      (.ok ⟨.prepare, 2, 0, .FOUND_THE_SAME_CONTENT, 1, none, some []⟩,
        storeAfter (finishedUpload ++ [.prepareUpload oneByte])) :=
  Prod.ext (by decide +kernel) rfl

theorem dedup_backed_finishedUpload :
    ∃ ref k, DocRefDAO.read oneByte.md5 1 (storeAfter finishedUpload).refs = some ref ∧
      ref.storageKey = some k ∧
      (storeAfter (finishedUpload ++ [.prepareUpload oneByte])).mongo.HoldsFile k 1 := by
  have run : ReachableUnder countingConfig soundCalls (storeAfter finishedUpload) := by
    have uploads : ReachableUnder countingConfig soundUploads (storeAfter finishedUpload) :=
      Reaches.tail (Request.mk someSession (.finishUpload 1)) reachable_oneByte
        (show (1 : Int) ≠ 0 by decide)
    refine Reaches.mono uploads fun request s guard => ?_
    obtain ⟨session, call⟩ := request
    cases call with
    | prepareUpload | writeChunkData | finishUpload => exact guard
    | _ => cases guard
  exact (dedup_backed run).1 _ _ _ soundCalls_oneByte_again prepareUpload_oneByte_again rfl

/-- A reference to the content of `oneByte`. -/
def referToOneByte : ClbMeta := ⟨9, some "b".toList, 1, some "m".toList⟩

/-- A finished upload whose document was removed still answers an upload of the same content; and a
reference is made to an upload of which nothing is stored yet. -/
theorem dedup_not_backed :
    (let s := storeAfter (finishedUpload ++ [.removeDoc 1])
      let answer := prepareUpload countingConfig someSession oneByte s
      Reachable countingConfig s ∧
        answer.1.toOption.map (·.statusCode) = some .FOUND_THE_SAME_CONTENT ∧
        ∃ ref ∈ DocRefDAO.read oneByte.md5 1 s.refs, ∃ k ∈ ref.storageKey,
          ¬answer.2.mongo.HoldsFile k 1) ∧
    (let s := storeAfter [.prepareUpload oneByte]
      let answer := createClbRef someSession referToOneByte s
      Reachable countingConfig s ∧ answer.1 = .ok () ∧
        ∃ ref ∈ DocRefDAO.read referToOneByte.md5 1 s.refs, ∃ k ∈ ref.storageKey,
          ¬answer.2.mongo.HoldsFile k 1) := by
  refine ⟨⟨reachable_storeAfter _, ?_⟩, ⟨reachable_storeAfter _, ?_⟩⟩
  · decide +kernel
  · decide +kernel

end Clb
