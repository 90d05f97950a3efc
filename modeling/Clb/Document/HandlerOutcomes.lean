/-
# Document.HandlerOutcomes -- every way the handlers can end

`Saved` lists what `saveFileContent` may leave behind: nothing at all if the resource cannot be
opened, a spoiled local copy, or what the driver wrote. On top of it stand the outcomes of the create
and update handlers. -/
import Clb.Document.Handlers
import Clb.Document.Outcomes

set_option autoImplicit false

namespace Clb

open Clb.Lib Clb.Dao Clb.Lib.Action DocumentFacade Handlers MongoStorageService

variable {after : Act Unit} {resource : Resource} {s' : Store} {isPub : Int} {dv : DocVersion} {name : Text}
  {docid : Int} {r : Except Fault UpdateInfo}

variable {config : Config} {session : Session} {s : Store}

/-! ## The local copy of an image -/

/-- A change of the temp files of one key. -/
def TempOf (key : ObjectId) (c c' : LocalFileCache) : Prop :=
  ∀ entry ∈ c'.tempFiles, entry ∈ c.tempFiles ∨ entry.1 = key

/-- The bytes that `storeContent` stores: those of a local copy that is there already, or the
uploaded ones. -/
def savedBytes (resource : Resource) (key : ObjectId) (name : Text) (c : LocalFileCache) : Bytes :=
  if canResize (getSuffix name) && c.hit key then (c.tempFile key).getD [] else resource.bytes

theorem LocalFileCache.tempFile_put (c : LocalFileCache) (key : ObjectId) (bytes : Bytes) :
    (c.put key bytes).tempFile key = some bytes := by
  simp [put, tempFile]

theorem LocalFileCache.tempOf_put (c : LocalFileCache) (key : ObjectId) (bytes : Bytes) :
    TempOf key c (c.put key bytes) := by
  intro entry member
  rcases List.mem_cons.mp member with rfl | old
  · exact .inr rfl
  · exact .inl (List.mem_of_mem_filter old)

/-- `saveTempFile` takes the file that is there, or the whole stream, or fails. -/
theorem saveTempFile_ends {key : ObjectId} {ins : InputStream} {c : LocalFileCache} :
    Ends (LocalFileCache.saveTempFile key ins) c fun r c' =>
      TempOf key c c' ∧ (r = .ok false ∨
        (r = .ok true ∧ c'.tempFile key = some
          (if c.hit key then (c.tempFile key).getD [] else ins.reads.flatten))) := by
  unfold Ends LocalFileCache.saveTempFile
  by_cases hit : c.hit key = true
  · simp only [hit, if_true]
    refine ⟨fun entry => .inl, .inr ⟨trivial, ?_⟩⟩
    change c.tempFile key = some ((c.tempFile key).getD [])
    cases present : c.tempFile key with
    | none => simp [LocalFileCache.hit, present] at hit
    | some bytes => rfl
  · simp only [hit]
    cases ins.fails with
    | true => exact ⟨c.tempOf_put key _, .inl rfl⟩
    | false => exact ⟨c.tempOf_put key _, .inr ⟨rfl, c.tempFile_put key _⟩⟩

/-! ## saveFileContent -/

inductive Saved (resource : Resource) (name : Text) (mf : MFile) (s : Store) :
    Except Fault Unit → Store → Prop
  | skipped (closed : resource.opens = false) : Saved resource name mf s (.ok ()) s
  | spoiled (fault : Fault) (c : LocalFileCache) (temp : TempOf mf.storageKey s.cache c) :
      Saved resource name mf s (.error fault) { s with cache := c }
  | driven {r : Except Fault Unit} {m : Mongo} {c : LocalFileCache}
      (opened : resource.opens = true) (temp : TempOf mf.storageKey s.cache c)
      (wrote : Driven mf (savedBytes resource mf.storageKey name s.cache) s.mongo r m) :
      Saved resource name mf s r { s with mongo := m, cache := c }

/-- The stream that `storeContent` stores from, once the resource is open. -/
theorem contentStream_ends {key : ObjectId} (opened : resource.opens = true) :
    Ends (contentStream resource key name) s fun r s' =>
      ∃ c, s' = { s with cache := c } ∧ TempOf key s.cache c ∧
        ((∃ fault, r = .error fault ∧ fault ≠ .io) ∨
          ∃ ins, r = .ok ins ∧ ins.reads.flatten = savedBytes resource key name s.cache) := by
  unfold contentStream getInputStream
  refine ends_bind (ends_bind (ends_raiseIf (fun closed => by simp [opened] at closed) fun _ => ?_))
  refine ends_pure (ends_ite (fun image => ?_) fun plain => ?_)
  · refine ends_bind (ends_within (saveTempFile_ends.mono ?_))
    rintro _ c ⟨temp, rfl | ⟨rfl, copy⟩⟩
    · exact ends_bind (ends_raiseIf (fun _ => ⟨c, rfl, temp, .inl ⟨_, rfl, nofun⟩⟩) (by simp))
    · refine ends_bind (ends_raiseIf (by simp) fun _ => ends_bind (ends_read ?_))
      refine ends_bind (ends_require ?_ fun missing => ?_)
      · intro bytes present
        refine ends_pure ⟨c, rfl, temp, .inr ⟨_, rfl, ?_⟩⟩
        have present : c.tempFile key = some bytes := present
        rw [copy] at present
        rw [savedBytes, image, Bool.true_and, Resource.bytes, Option.some.inj present]
        simp
      · have missing : c.tempFile key = none := missing
        rw [copy] at missing
        cases missing
  · refine ends_pure ⟨s.cache, rfl, fun entry => .inl, .inr ⟨_, rfl, ?_⟩⟩
    rw [savedBytes, if_neg (by simp [plain])]
    rfl

/-- The metadata `saveFileContent` builds. -/
abbrev mongoFile (session : Session) (dv : DocVersion) (filename : Text) (key : ObjectId) : MFile :=
  { filename := some filename, storageKey := key, docid := dv.docid, vid := dv.version,
    appid := session.appid }

theorem storeContent_ends {mf : MFile}
    (named : dv.filename = some name) (opened : resource.opens = true) :
    Ends (storeContent resource dv mf) s fun r s' =>
      Saved resource name mf s r s' ∧ r ≠ .error .io := by
  unfold storeContent
  rw [named]
  refine ends_bind (ends_pure (ends_bind ((contentStream_ends opened).mono ?_)))
  rintro _ _ ⟨c, rfl, temp, ⟨fault, rfl, uncaught⟩ | ⟨ins, rfl, bytes⟩⟩
  · exact ⟨.spoiled fault c temp, fun same => uncaught (Except.error.inj same)⟩
  · refine ends_within (writeFile_ends.mono ?_)
    rintro r m ⟨wrote, -⟩
    rw [bytes] at wrote
    refine ⟨.driven opened temp wrote, ?_⟩
    cases wrote with
    | broken fault uncaught count => exact fun same => uncaught (Except.error.inj same)
    | whole => exact nofun

/-- **Every exit of saveFileContent.** -/
theorem saveFileContent_ends :
    Ends (saveFileContent session resource dv) s fun r s' =>
      (∃ fault, r = .error fault ∧ s' = s) ∨
        ∃ name key filename, dv.filename = some name ∧ dv.storageKey = some key ∧
          resource.filename = some filename ∧
          Saved resource name (mongoFile session dv filename key) s r s' := by
  unfold saveFileContent buildMongoFile
  refine ends_bind (ends_bind (ends_require ?_ fun _ => .inl ⟨_, rfl, rfl⟩))
  intro filename given
  refine ends_bind (ends_require ?_ fun _ => .inl ⟨_, rfl, rfl⟩)
  intro key stored
  refine ends_pure (ends_catching ?_)
  cases named : dv.filename with
  | none =>
    unfold storeContent
    rw [named]
    exact .inl ⟨_, rfl, rfl⟩
  | some name =>
    cases opens : resource.opens with
    | false =>
      unfold storeContent contentStream getInputStream
      rw [named]
      refine ends_bind (ends_pure (ends_bind (ends_bind (ends_bind
        (ends_raiseIf (fun _ => ?_) (by simp [opens]))))))
      exact .inr ⟨name, key, filename, rfl, stored, given, .skipped opens⟩
    | true =>
      refine (storeContent_ends named opens).mono ?_
      rintro r s' ⟨saved, uncaught⟩
      cases r with
      | ok u => exact .inr ⟨name, key, filename, rfl, stored, given, saved⟩
      | error fault =>
        have passed : ¬swallowed fault = true := by
          cases fault <;> simp [swallowed] at uncaught ⊢
        dsimp only
        rw [if_neg passed]
        exact .inr ⟨name, key, filename, rfl, stored, given, saved⟩

/-! ## The create and update handlers -/

/-- The ways to end once there is a version `dv` to store the content of, from the store `s`. The
document `docid` is completed, and `after` is what the handler does then. -/
inductive Advanced (session : Session) (resource : Resource) (dv : DocVersion) (docid : Int)
    (after : Act Unit) (s : Store) : Except Fault UpdateInfo → Store → Prop
  | unsaved (fault : Fault) : Advanced session resource dv docid after s (.error fault) s
  | broken {name filename : Text} {key : ObjectId} {s' : Store} (fault : Fault)
      (named : dv.filename = some name) (stored : dv.storageKey = some key)
      (saved : Saved resource name (mongoFile session dv filename key) s (.error fault) s') :
      Advanced session resource dv docid after s (.error fault) s'
  | done {name filename : Text} {key : ObjectId} {s' : Store}
      (named : dv.filename = some name) (stored : dv.storageKey = some key)
      (saved : Saved resource name (mongoFile session dv filename key) s (.ok ()) s') :
      Advanced session resource dv docid after s
        ((after (s'.complete session.appid docid dv.version)).1.map
          fun _ => ⟨dv.docid, decimalText dv.version⟩)
        (after (s'.complete session.appid docid dv.version)).2

/-- A call that returns has stored the content. -/
theorem Advanced.returned {info : UpdateInfo}
    (advanced : Advanced session resource dv docid after s (.ok info) s') :
    info = ⟨dv.docid, decimalText dv.version⟩ ∧ ∃ name filename key s₂,
      dv.storageKey = some key ∧
      Saved resource name (mongoFile session dv filename key) s (.ok ()) s₂ ∧
      s' = (after (s₂.complete session.appid docid dv.version)).2 := by
  generalize same : (Except.ok info : Except Fault UpdateInfo) = r at advanced
  cases advanced with
  | unsaved | broken => cases same
  | @done name filename key s₂ named stored saved =>
    refine ⟨?_, name, filename, key, s₂, stored, saved, rfl⟩
    cases ended : (after (s₂.complete session.appid docid dv.version)).1 with
    | error fault => rw [ended] at same; cases same
    | ok u => rw [ended] at same; exact Except.ok.inj same

/-- The content is stored in the collections and the cache only. -/
theorem Saved.tables {mf : MFile} {r : Except Fault Unit} (saved : Saved resource name mf s r s') :
    s'.docs = s.docs ∧ s'.versions = s.versions ∧ s'.refs = s.refs ∧
      s'.chunkStatus = s.chunkStatus := by
  cases saved <;> exact ⟨rfl, rfl, rfl, rfl⟩

theorem advanced_ends (after : Act Unit)
    (fits : ∀ v ∈ s.versions.rows, docVersionDAO.fits v = true) :
    Ends (do
      saveFileContent session resource dv
      updateUploadStatus session.appid docid dv.version
      after
      return (⟨dv.docid, decimalText dv.version⟩ : UpdateInfo)) s
      (Advanced session resource dv docid after s) := by
  refine ends_bind (saveFileContent_ends.mono ?_)
  rintro r s' (⟨fault, rfl, rfl⟩ | ⟨name, key, filename, named, stored, -, saved⟩)
  · exact .unsaved fault
  · cases r with
    | error fault => exact .broken fault named stored saved
    | ok u =>
      have updated := @updateUploadStatus_eq s' (saved.tables.2.1 ▸ fits) session.appid docid dv.version
      have done : Advanced session resource dv docid after s _ _ := .done named stored saved
      refine ends_bind (ends_of_eq updated (ends_bind ?_))
      unfold Ends
      revert done
      rcases after (s'.complete session.appid docid dv.version) with ⟨_ | _, _⟩
      · exact id
      · exact id

/-- The ways `createWaiting` can end. -/
inductive Waiting (config : Config) (session : Session) (isPub : Int) (resource : Resource)
    (s : Store) : Except Fault DocVersion → Store → Prop
  | refused (fault : Fault) :
      Waiting config session isPub resource s (.error fault) (s.issueDocid session.appid)
  | unnamed (fault : Fault) (noDoc : s.NoDoc session.appid (freshDocid config session s))
      (unfit : ∀ name, ¬NameFits resource.filename name) :
      Waiting config session isPub resource s (.error fault)
        (withNewDoc config session isPub s).issueKey
  | waiting (name : Text) (noDoc : s.NoDoc session.appid (freshDocid config session s))
      (named : NameFits resource.filename name) :
      Waiting config session isPub resource s
        (.ok { firstVersion session (freshDocid config session s) name resource.length
          (some s.newKey) .waiting with id := s.versions.next })
        ((withNewDoc config session isPub s).issueKey.addVersion
          (firstVersion session (freshDocid config session s) name resource.length
            (some s.newKey) .waiting))

theorem createWaiting_ends :
    Ends (createWaiting config session isPub resource) s
      (Waiting config session isPub resource s) := by
  have numbered : ∀ s : Store, onMongo newObjectId s = (.ok s.newKey, s.issueKey) := fun _ => rfl
  unfold createWaiting
  refine ends_bind (createNewDocMeta_ends.mono ?_)
  rintro _ _ (⟨fault, rfl, rfl⟩ | ⟨rfl, noDoc, rfl⟩)
  · exact .refused fault
  refine ends_bind (ends_of_eq (numbered _) ?_)
  refine (createFirstDocVersion_ends (s := Store.issueKey _)).mono ?_
  rintro _ _ (⟨fault, rfl, rfl, unfit⟩ | ⟨name, named, rfl, rfl⟩)
  · exact .unnamed fault noDoc unfit
  · exact .waiting name noDoc named

/-! ## Every outcome leaves a well formed store -/

theorem Saved.wf (wf : Wf config s) {mf : MFile}
    {r : Except Fault Unit} (issued : mf.storageKey.serial < s.mongo.issued)
    (saved : Saved resource name mf s r s') : Wf config s' := by
  have tempIssued : ∀ {c : LocalFileCache}, TempOf mf.storageKey s.cache c →
      ∀ entry ∈ c.tempFiles, entry.1.serial < s.mongo.issued := by
    intro c temp entry member
    rcases temp entry member with old | same
    · exact wf.tempIssued entry old
    · rw [same]
      exact issued
  cases saved with
  | skipped => exact wf
  | spoiled fault c temp => exact wf.withCache (tempIssued temp)
  | driven opened temp wrote =>
    obtain ⟨mongo, grows⟩ := wf.mongo.driven issued wrote
    exact (wf.withMongo mongo grows).withCache fun entry member =>
      Nat.lt_of_lt_of_le (tempIssued temp entry member) grows

/-- `dv` names a storage key that was handed out. -/
theorem Advanced.wf (wf : Wf config s)
    (issued : ∀ k, dv.storageKey = some k → k.serial < s.mongo.issued)
    (after_wf : ∀ s, Wf config s → Wf config (after s).2)
    (advanced : Advanced session resource dv docid after s r s') : Wf config s' := by
  cases advanced with
  | unsaved => exact wf
  | broken fault named stored saved => exact saved.wf wf (issued _ stored)
  | done named stored saved =>
    exact after_wf _ ((saved.wf wf (issued _ stored)).complete _ _ _)

theorem Waiting.wf (wf : Wf config s) {r : Except Fault DocVersion}
    (waiting : Waiting config session isPub resource s r s') : Wf config s' := by
  cases waiting with
  | refused => exact wf.issueDocid _
  | unnamed fault noDoc => exact (wf.withNewDoc isPub noDoc).wf.issueKey
  | waiting name noDoc named =>
    refine (wf.withNewDoc isPub noDoc).toNewDoc.issueKey.addFirstVersion named ?_ .waiting
    rintro k ⟨⟩
    exact Nat.lt_succ_self _

/-- The storage key of a new version was just handed out. -/
theorem Waiting.issued (waiting : Waiting config session isPub resource s (.ok dv) s') :
    ∀ k, dv.storageKey = some k → k.serial < s'.mongo.issued := by
  cases waiting with
  | waiting name noDoc named =>
    rintro k ⟨⟩
    exact Nat.lt_succ_self _

theorem Versioned.issued {docid version size : Int} {filename : Option Text}
    (versioned : Versioned session docid version filename size s (.ok dv) s') :
    ∀ k, dv.storageKey = some k → k.serial < s'.mongo.issued := by
  cases versioned with
  | created name named =>
    rintro k ⟨⟩
    exact Nat.lt_succ_self _

/-! ## createDoc -/

/-- The ways `createDoc` can end, and `createDocForJson` without a document of its own. -/
inductive Created (config : Config) (session : Session) (isPub : Int) (resource : Resource)
    (after : DocVersion → Act Unit) (s : Store) : Except Fault UpdateInfo → Store → Prop
  | readonly (fault : Fault) : Created config session isPub resource after s (.error fault) s
  | refused {s' : Store} (fault : Fault)
      (waiting : Waiting config session isPub resource s (.error fault) s') :
      Created config session isPub resource after s (.error fault) s'
  | advanced {s₁ s' : Store} {dv : DocVersion} {r : Except Fault UpdateInfo}
      (waiting : Waiting config session isPub resource s (.ok dv) s₁)
      (advanced : Advanced session resource dv dv.docid (after dv) s₁ r s') :
      Created config session isPub resource after s r s'

theorem createDoc_ends (wf : Wf config s) :
    Ends (createDoc config session isPub resource) s
      (Created config session isPub resource (fun _ => pure ()) s) := by
  unfold createDoc
  refine ends_bind (ends_raiseIf (fun _ => .readonly _) fun _ => ends_bind ?_)
  refine createWaiting_ends.mono fun r s₁ waiting => ?_
  cases r with
  | error fault => exact .refused fault waiting
  | ok dv =>
    exact (advanced_ends (pure ()) (waiting.wf wf).versionsFit).mono
      fun r s' advanced => .advanced waiting advanced

theorem Created.wf (wf : Wf config s) {after : DocVersion → Act Unit}
    (after_wf : ∀ dv s, Wf config s → Wf config (after dv s).2)
    (created : Created config session isPub resource after s r s') : Wf config s' := by
  cases created with
  | readonly => exact wf
  | refused fault waiting => exact waiting.wf wf
  | advanced waiting advanced =>
    exact advanced.wf (waiting.wf wf) waiting.issued (after_wf _)

/-! ## createDocForJson -/

/-- The last statement of `createDocForJson`. -/
abbrev countKey (dv : DocVersion) : Act Unit := incrRefOfKey dv.storageKey

/-- It counts some references, where it is refused none. -/
theorem countKey_keeps {holds : Store → Prop} (dv : DocVersion) (s : Store)
    (kept : ∀ counted, holds (s.countRefs counted)) : holds (countKey dv s).2 := by
  rcases countUp_ends s (fun r => r.storageKey == dv.storageKey) with
    ⟨-, counted⟩ | ⟨-, refused⟩
  · exact congrArg Prod.snd counted ▸ kept _
  · have same : s.refs.update (fun _ => false) (fun r => { r with ref := r.ref + 1 }) = s.refs := by
      simp [Table.update]
    have none_ := kept fun _ => false
    unfold Store.countRefs Store.editRefs at none_
    rw [same] at none_
    exact congrArg Prod.snd refused ▸ none_

/-- The ways `createDocForJson` can end. -/
inductive JsonCreated (config : Config) (session : Session) (clbid isPub : Int)
    (resource : Resource) (s : Store) : Except Fault UpdateInfo → Store → Prop
  | refused (fault : Fault) : JsonCreated config session clbid isPub resource s (.error fault) s
  | created {r : Except Fault UpdateInfo} {s' : Store} (zero : clbid = 0)
      (created : Created config session isPub resource countKey s r s') :
      JsonCreated config session clbid isPub resource s r s'
  | advanced {dv : DocVersion} {r : Except Fault UpdateInfo} {s' : Store} (nonzero : clbid ≠ 0)
      (last : DocVersionDAO.readLastVersion session.appid clbid s.versions = some dv)
      (advanced : Advanced session resource dv clbid (countKey dv) s r s') :
      JsonCreated config session clbid isPub resource s r s'

theorem createDocForJson_ends (wf : Wf config s) {clbid isPub : Int} :
    Ends (createDocForJson config session clbid isPub resource) s
      (JsonCreated config session clbid isPub resource s) := by
  unfold createDocForJson
  refine ends_bind (ends_raiseIf (fun _ => .refused _) fun _ => ?_)
  refine ends_ite (fun nonzero => ends_bind ?_) fun zero => ends_bind ?_
  · refine ends_bind (ends_read (ends_require ?_ fun _ => .refused _))
    intro dv last
    dsimp only
    rw [if_pos nonzero]
    exact (advanced_ends _ wf.versionsFit).mono fun r s' advanced => .advanced nonzero last advanced
  · have zero : clbid = 0 := not_not.mp zero
    refine createWaiting_ends.mono fun r s₁ waiting => ?_
    cases r with
    | error fault => exact .created zero (.refused fault waiting)
    | ok dv =>
      dsimp only
      rw [if_neg (not_not.mpr zero)]
      exact (advanced_ends _ (waiting.wf wf).versionsFit).mono
        fun r s' advanced => .created zero (.advanced waiting advanced)

theorem JsonCreated.wf (wf : Wf config s) {clbid isPub : Int}
    (created : JsonCreated config session clbid isPub resource s r s') : Wf config s' := by
  have counted : ∀ dv s, Wf config s → Wf config (countKey dv s).2 := fun dv s wf =>
    countKey_keeps dv s fun _ => wf.editRefs _ _
  cases created with
  | refused => exact wf
  | created zero created => exact created.wf wf counted
  | advanced nonzero last advanced =>
    exact advanced.wf wf (wf.versionKeys _ (readLastVersion_some last).1) (counted _)

/-! ## updateDoc -/

/-- The ways `updateDoc` can end. -/
inductive Updated (session : Session) (docid : Int) (resource : Resource) (s : Store) :
    Except Fault UpdateInfo → Store → Prop
  | refused (fault : Fault) : Updated session docid resource s (.error fault) s
  | unversioned {doc : DocMeta} {s' : Store} (fault : Fault)
      (read : DocMetaDAO.read session.appid docid s.docs = some doc)
      (versioned : Versioned session docid
        (DocVersionDAO.nextVersion session.appid docid s.versions) resource.filename
        resource.length s (.error fault) s') :
      Updated session docid resource s (.error fault) s'
  | advanced {doc : DocMeta} {dv : DocVersion} {s₁ s' : Store} {r : Except Fault UpdateInfo}
      (read : DocMetaDAO.read session.appid docid s.docs = some doc)
      (permitted : ¬(doc.isPub = 0 ∧ doc.authId ≠ some session.user))
      (versioned : Versioned session docid
        (DocVersionDAO.nextVersion session.appid docid s.versions) resource.filename
        resource.length s (.ok dv) s₁)
      (advanced : Advanced session resource dv dv.docid (pure ()) s₁ r s') :
      Updated session docid resource s r s'

/-- A document that was read has a row, unless any row would do. -/
theorem docMeta_read_doc {doc : DocMeta}
    (read : DocMetaDAO.read session.appid docid s.docs = some doc) :
    docid ≠ 0 → ∃ d ∈ s.docs.rows, d.appid = session.appid ∧ d.docid = docid := by
  intro nonzero
  obtain ⟨member, sameApp, sameDoc⟩ := docMeta_read_some read
  have positive := session.appid_pos
  exact ⟨doc, member, sameApp (by omega), sameDoc nonzero⟩

theorem updateDoc_ends (wf : Wf config s) :
    Ends (updateDoc config session docid resource) s (Updated session docid resource s) := by
  unfold updateDoc getDocMetaByDocid
  refine ends_bind (ends_raiseIf (fun _ => .refused _) fun _ => ends_bind ?_)
  refine ends_bind (ends_read (ends_require ?_ fun _ => .refused _))
  intro doc read
  refine ends_bind (ends_raiseIf (fun _ => .refused _) fun permitted => ends_bind ?_)
  refine (createDocVersion_ends wf).mono fun r s₁ versioned => ?_
  cases r with
  | error fault => exact .unversioned fault read versioned
  | ok dv =>
    exact (advanced_ends (pure ())
      (versioned.wf wf (docMeta_read_doc read)).versionsFit).mono
        fun r s' advanced => .advanced read permitted versioned advanced

theorem Updated.wf (wf : Wf config s) (updated : Updated session docid resource s r s') :
    Wf config s' := by
  cases updated with
  | refused => exact wf
  | unversioned fault read versioned => exact versioned.wf wf (docMeta_read_doc read)
  | advanced read permitted versioned advanced =>
    exact advanced.wf (versioned.wf wf (docMeta_read_doc read)) versioned.issued fun _ wf' => wf'

/-! ## createMultiDocs -/

/-- The ways `onNewEntry` can end. -/
inductive Entered (config : Config) (session : Session) (isPub : Int) (name : Text)
    (resource : Resource) (s : Store) : Except Fault UpdateInfo → Store → Prop
  | refused (fault : Fault) :
      Entered config session isPub name resource s (.error fault) (s.issueDocid session.appid)
  | unversioned {s' : Store} (fault : Fault)
      (noDoc : s.NoDoc session.appid (freshDocid config session s))
      (versioned : Versioned session (freshDocid config session s)
        (DocVersionDAO.nextVersion session.appid (freshDocid config session s) s.versions)
        (some (setTitle name)) resource.length (withNewDoc config session isPub s) (.error fault) s') :
      Entered config session isPub name resource s (.error fault) s'
  | saved {r : Except Fault Unit} {dv : DocVersion} {s₁ s' : Store}
      (noDoc : s.NoDoc session.appid (freshDocid config session s))
      (versioned : Versioned session (freshDocid config session s)
        (DocVersionDAO.nextVersion session.appid (freshDocid config session s) s.versions)
        (some (setTitle name)) resource.length (withNewDoc config session isPub s) (.ok dv) s₁)
      (saved : r ≠ .ok () ∧ s' = s₁ ∨
        ∃ title key, dv.filename = some title ∧ dv.storageKey = some key ∧
          Saved { resource with filename := some name } title (mongoFile session dv name key) s₁ r s') :
      Entered config session isPub name resource s
        (r.map fun _ => ⟨dv.docid, decimalText dv.version⟩) s'

theorem onNewEntry_ends (wf : Wf config s) :
    Ends (onNewEntry config session isPub name resource) s
      (Entered config session isPub name resource s) := by
  unfold onNewEntry
  refine ends_bind (createNewDocMeta_ends.mono ?_)
  rintro _ _ (⟨fault, rfl, rfl⟩ | ⟨rfl, noDoc, rfl⟩)
  · exact .refused fault
  refine ends_bind ((createDocVersion_ends (wf.withNewDoc isPub noDoc).wf).mono ?_)
  intro r s₁ versioned
  cases r with
  | error fault => exact .unversioned fault noDoc versioned
  | ok dv =>
    refine ends_bind (saveFileContent_ends.mono ?_)
    rintro r s' (⟨fault, rfl, rfl⟩ | ⟨title, key, filename, named, stored, ⟨⟩, saved⟩)
    · exact .saved (r := .error fault) noDoc versioned (.inl ⟨nofun, rfl⟩)
    · have entered := Entered.saved noDoc versioned (.inr ⟨title, key, named, stored, saved⟩)
      cases r with
      | error fault => exact entered
      | ok u => exact ends_pure entered

theorem Entered.wf (wf : Wf config s)
    (entered : Entered config session isPub name resource s r s') : Wf config s' := by
  cases entered with
  | refused => exact wf.issueDocid _
  | unversioned fault noDoc versioned =>
    exact versioned.wf (wf.withNewDoc isPub noDoc).wf fun _ => (wf.withNewDoc isPub noDoc).doc
  | saved noDoc versioned saved =>
    have wf₁ := versioned.wf (wf.withNewDoc isPub noDoc).wf fun _ => (wf.withNewDoc isPub noDoc).doc
    rcases saved with ⟨-, rfl⟩ | ⟨title, key, -, stored, saved⟩
    · exact wf₁
    · exact saved.wf wf₁ (versioned.issued _ stored)

/-- What every entry keeps, the loop over the entries keeps. -/
theorem unzip_invariant {holds : Store → Prop} (entries : List (Text × Resource))
    (kept : ∀ s, ∀ entry ∈ entries, holds s →
      Ends (onNewEntry config session isPub entry.1 entry.2) s fun _ s' => holds s')
    (infos : List (Text × UpdateInfo)) {s : Store} (initial : holds s) :
    Ends (unzip config session isPub entries infos) s fun _ s' => holds s' := by
  induction entries generalizing infos s with
  | nil => exact ends_pure initial
  | cons entry rest ih =>
    unfold unzip
    refine ends_ite (fun _ => ends_bind ?_) fun _ => ends_pure initial
    refine (kept s entry List.mem_cons_self initial).mono fun r s' holds' => ?_
    cases r with
    | error fault => exact holds'
    | ok info =>
      exact ih (fun s entry member => kept s entry (List.mem_cons_of_mem _ member)) _ holds'

/-- What every outcome of an entry keeps, in well formed stores, `createMultiDocs` keeps. -/
theorem createMultiDocs_ends {holds : Store → Prop} {isPub : Int} {entries : List (Text × Resource)}
    (wf : Wf config s) (initial : holds s)
    (kept : ∀ s, ∀ entry ∈ entries, Wf config s → holds s → ∀ r s',
      Entered config session isPub entry.1 entry.2 s r s' → holds s') :
    Ends (createMultiDocs config session isPub entries) s fun _ s' => Wf config s' ∧ holds s' := by
  refine ends_bind (ends_raiseIf (fun _ => ⟨wf, initial⟩) fun _ => ?_)
  refine unzip_invariant entries (fun s entry member both => ?_) [] ⟨wf, initial⟩
  exact (onNewEntry_ends both.1).mono fun r s' entered =>
    ⟨entered.wf both.1, kept s entry member both.1 both.2 r s' entered⟩

end Clb
