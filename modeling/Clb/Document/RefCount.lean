/-
# Document.RefCount -- the counter of clb_doc_ref

Four calls raise the counter of a reference row: by digest and size, by storage key, or by reading the
row and writing it back; the version that is completed is found in another way again. `refCount_exact`
says under which conditions on the calls the counter is the number of completed versions with the key
of the row: the row that is found has the digest and size that were asked for, the name of a version
that is completed at once fits its columns, a version is completed once, and the counter has not reached
the greatest `int`. `refCount_not_exact` has a run for each condition that is left out but the last, among
them a client that repeats `finishUpload`. -/
import Clb.Document.FinishSound

set_option autoImplicit false

namespace Clb

open Clb.Lib Clb.Dao Clb.Lib.Action DocumentFacade Handlers

variable {dv : DocVersion} {selected : DocRef → Bool} {r : Except Fault ChunkResponse}
  {resource : Resource}

variable {s' : Store} {config : Config} {session : Session} {s : Store}

/-- The number of completed versions with a storage key. -/
def refCount (key : Option ObjectId) (versions : Table DocVersion) : Nat :=
  versions.rows.countP fun v => v.storageKey == key && v.isCompletedStatus

structure RefsExactIn (docs : Table DocMeta) (versions : Table DocVersion) (refs : Table DocRef)
    (chunkStatus : Table DocChunkStatus) : Prop where
  exact : ∀ r ∈ refs.rows, r.ref = refCount r.storageKey versions
  documents : ∀ c ∈ chunkStatus.rows, ∃ d ∈ docs.rows, d.appid = c.appid ∧ d.docid = c.docid
  owned : ∀ c ∈ chunkStatus.rows, ∀ v ∈ versions.rows, v.appid = c.appid → v.docid = c.docid →
    v.version = 1 ∧ ∃ r ∈ refs.rows, SameContent c r ∧ r.storageKey = v.storageKey

/-- The counters are exact, and the version of an upload has the key of its content. -/
def RefsExact (s : Store) : Prop := RefsExactIn s.docs s.versions s.refs s.chunkStatus

/-! ## Counting -/

theorem refCount_addVersion (key : Option ObjectId) (v : DocVersion) (t : Table DocVersion) :
    refCount key (t.insert docVersionDAO.setId v) =
      refCount key t + if v.storageKey = key ∧ v.isCompletedStatus = true then 1 else 0 := by
  have last : ((docVersionDAO.setId t.next v).storageKey == key &&
      (docVersionDAO.setId t.next v).isCompletedStatus) = true ↔
        v.storageKey = key ∧ v.isCompletedStatus = true := by
    simp only [Bool.and_eq_true, beq_iff_eq]
    rfl
  simp only [refCount, Table.rows_insert, List.countP_append, List.countP_singleton, last]

/-- Completing a version counts it, unless it was counted before. -/
theorem refCount_complete (wf : Wf config s) (member : dv ∈ s.versions.rows)
    (nonzero : dv.docid ≠ 0) (key : Option ObjectId) :
    refCount key (s.complete dv.appid dv.docid dv.version).versions =
      refCount key s.versions +
        if dv.storageKey = key ∧ dv.isCompletedStatus = false then 1 else 0 := by
  obtain ⟨appid_pos, version_pos⟩ := wf.versionsPos dv member
  have only : ∀ v ∈ s.versions.rows,
      decide (Completes dv.appid dv.docid dv.version v) = true ↔ v = dv := by
    intro v memberV
    rw [decide_eq_true_iff]
    constructor
    · rintro ⟨sameApp, sameDoc, sameVersion⟩
      refine wf.versionsUnique v memberV dv member ?_
      simp only [versionKey, sameApp (Int.ne_of_gt appid_pos), sameDoc nonzero,
        sameVersion (Int.ne_of_gt version_pos), nonzero, if_false]
    · rintro rfl
      exact ⟨fun _ => rfl, fun _ => rfl, fun _ => rfl⟩
  have counted : refCount key (s.complete dv.appid dv.docid dv.version).versions +
        (if (dv.storageKey == key && dv.isCompletedStatus) = true then 1 else 0) =
      refCount key s.versions + if (dv.storageKey == key && true) = true then 1 else 0 :=
    wf.versionsNumbered.countP_update member only _
  simp only [Bool.and_eq_true, beq_iff_eq, and_true] at counted
  cases completed : dv.isCompletedStatus with
  | false =>
    simp only [completed, Bool.false_eq_true, and_false, if_false, and_true] at counted ⊢
    exact counted
  | true =>
    simp only [completed, Bool.true_eq_false, and_false, if_false, and_true] at counted ⊢
    omega

namespace RefsExact

theorem empty : RefsExact Store.empty where
  exact := fun _ => Wf.absent
  documents := fun _ => Wf.absent
  owned := fun _ => Wf.absent

theorem addDoc (sound : RefsExact s) (d : DocMeta) : RefsExact (s.addDoc d) :=
  { sound with
    documents := by
      intro c memberC
      obtain ⟨d', memberD, same⟩ := sound.documents c memberC
      exact ⟨d', List.mem_append_left _ memberD, same⟩ }

/-- A version that waits, of a document that is no upload. -/
theorem addVersion (sound : RefsExact s) {v : DocVersion} (waiting : v.isCompletedStatus = false)
    (free : ∀ c ∈ s.chunkStatus.rows, c.appid = v.appid → c.docid ≠ v.docid) :
    RefsExact (s.addVersion v) :=
  { sound with
    exact := by
      intro r member
      rw [refCount_addVersion, if_neg (by simp [waiting])]
      exact sound.exact r member
    owned := by
      intro c memberC
      refine Table.forall_mem_insert (sound.owned c memberC) fun sameApp sameDoc => ?_
      exact absurd sameDoc.symm (free c memberC sameApp.symm) }

theorem addRef (sound : RefsExact s) {r : DocRef} (zero : r.ref = 0)
    (unused : ∀ v ∈ s.versions.rows, v.storageKey ≠ r.storageKey) : RefsExact (s.addRef r) :=
  { sound with
    exact := by
      refine Table.forall_mem_insert sound.exact ?_
      have none_counted : refCount r.storageKey s.versions = 0 := by
        refine List.countP_eq_zero.mpr fun v member => ?_
        simp [unused v member]
      change r.ref = (refCount r.storageKey s.versions : Int)
      rw [zero, none_counted]
      rfl
    owned := by
      intro c memberC v memberV sameApp sameDoc
      obtain ⟨first, r', memberR, content⟩ := sound.owned c memberC v memberV sameApp sameDoc
      exact ⟨first, r', List.mem_append_left _ memberR, content⟩ }

theorem addStatus (sound : RefsExact s) {c : DocChunkStatus}
    (document : ∃ d ∈ s.docs.rows, d.appid = c.appid ∧ d.docid = c.docid)
    (owned : ∀ v ∈ s.versions.rows, v.appid = c.appid → v.docid = c.docid →
      v.version = 1 ∧ ∃ r ∈ s.refs.rows, SameContent c r ∧ r.storageKey = v.storageKey) :
    RefsExact (s.addStatus c) :=
  { sound with
    documents := Table.forall_mem_insert sound.documents document
    owned := Table.forall_mem_insert sound.owned owned }

theorem replaceStatus (sound : RefsExact s) {old new : DocChunkStatus}
    (member : old ∈ s.chunkStatus.rows) (same : uploadOf new = uploadOf old) :
    RefsExact (s.replaceStatus old new) := by
  obtain ⟨appid, docid, -⟩ := uploadOf_eq.mp same
  refine { sound with
    documents := Table.forall_mem_replace sound.documents ?_
    owned := Table.forall_mem_replace sound.owned ?_ }
  · rw [appid, docid]
    exact sound.documents old member
  · intro v memberV sameApp sameDoc
    obtain ⟨first, r, memberR, content, key⟩ := sound.owned old member v memberV
      (sameApp.trans appid) (sameDoc.trans docid)
    exact ⟨first, r, memberR, content.of_uploadOf same.symm, key⟩

/-- The version rows change, and the reference rows whose completed versions grow are counted. -/
theorem counted (sound : RefsExact s) {versions : Table DocVersion}
    (edit : Int → Int) (edits : ∀ r ∈ s.refs.rows, selected r = true → edit r.ref = r.ref + 1)
    (grows : ∀ r ∈ s.refs.rows, refCount r.storageKey versions =
      refCount r.storageKey s.versions + if selected r = true then 1 else 0)
    (rows : ∀ c ∈ s.chunkStatus.rows, ∀ v ∈ versions.rows, v.appid = c.appid → v.docid = c.docid →
      ∃ v' ∈ s.versions.rows, v'.appid = v.appid ∧ v'.docid = v.docid ∧ v'.version = v.version ∧
        v'.storageKey = v.storageKey) :
    RefsExact { s with
      versions := versions
      refs := s.refs.update selected fun r => { r with ref := edit r.ref } } where
  exact := by
    intro r member
    rcases Table.mem_update.mp member with ⟨old, memberOld, counted, rfl⟩ | ⟨memberR, other⟩
    · have before := sound.exact old memberOld
      have after := grows old memberOld
      rw [if_pos counted] at after
      dsimp only
      rw [edits old memberOld counted]
      omega
    · rw [grows r memberR, other]
      exact sound.exact r memberR
  documents := sound.documents
  owned := by
    intro c memberC v memberV sameApp sameDoc
    obtain ⟨v', memberV', appid, docid, version, key⟩ := rows c memberC v memberV sameApp sameDoc
    obtain ⟨first, r, memberR, content, owner⟩ := sound.owned c memberC v' memberV'
      (appid.trans sameApp) (docid.trans sameDoc)
    refine ⟨version ▸ first, _, List.mem_map.mpr ⟨r, memberR, rfl⟩, ?_⟩
    split
    · exact ⟨content, owner.trans key⟩
    · exact ⟨content, owner.trans key⟩

/-- The rows of an upload that starts or is resumed. -/
theorem addUpload {docid : Int} (sound : RefsExact s)
    (document : ∃ d ∈ s.docs.rows, d.appid = session.appid ∧ d.docid = docid)
    (statusFree : ∀ c ∈ s.chunkStatus.rows, c.appid = session.appid → c.docid ≠ docid)
    (noVersion : ∀ v ∈ s.versions.rows, v.appid = session.appid → v.docid ≠ docid)
    {param : PrepareChunkUploadParam} {ref : DocRef} (member : ref ∈ s.refs.rows)
    (digest : ref.md5 = param.md5) (sized : ref.size = param.size) (name : Text) {c : DocChunkStatus}
    (same : uploadOf c = uploadOf (statusRow session docid param)) :
    RefsExact ((s.addVersion
      (firstVersion session docid name param.size ref.storageKey .waiting)).addStatus c) := by
  obtain ⟨appid, docid', md5, fileSize, -⟩ := uploadOf_eq.mp same
  refine (sound.addVersion rfl statusFree).addStatus ?_ ?_
  · rw [appid, docid']
    exact document
  · rw [appid, docid']
    refine Table.forall_mem_insert (fun v memberV sameApp sameDoc => ?_) fun _ _ => ⟨rfl, ref, ?_⟩
    · exact absurd sameDoc (noVersion v memberV sameApp)
    · exact ⟨member, ⟨digest.trans md5.symm, sized.trans fileSize.symm⟩, rfl⟩

/-- A completed version of a document that is no upload, and the reference row of its key. -/
theorem addCounted (sound : RefsExact s) (edit : Int → Int) (wf : Wf config s) {v : DocVersion}
    {ref : DocRef} (edits : edit ref.ref = ref.ref + 1)
    (completed : v.isCompletedStatus = true) (member : ref ∈ s.refs.rows)
    (key : v.storageKey = ref.storageKey)
    (free : ∀ c ∈ s.chunkStatus.rows, c.appid = v.appid → c.docid ≠ v.docid)
    (chosen : ∀ r ∈ s.refs.rows, selected r = true ↔ r = ref) :
    RefsExact ((s.editRefs selected edit).addVersion v) := by
  refine sound.counted edit (fun r memberR counted => (chosen r memberR).mp counted ▸ edits)
    (fun r memberR => ?_) ?_
  · have same : v.storageKey = r.storageKey ↔ selected r = true := by
      rw [chosen r memberR, key]
      constructor
      · exact fun same => wf.refKeysUnique r memberR ref member same.symm
      · rintro rfl
        rfl
    rw [refCount_addVersion]
    simp only [completed, and_true, same]
  · intro c memberC
    refine Table.forall_mem_insert (fun v' memberV _ _ => ⟨v', memberV, rfl, rfl, rfl, rfl⟩) ?_
    exact fun sameApp sameDoc => absurd sameDoc.symm (free c memberC sameApp.symm)

/-- A version is completed for the first time, or no reference row has its key. -/
theorem completeCounted (sound : RefsExact s) (wf : Wf config s)
    (member : dv ∈ s.versions.rows) (nonzero : dv.docid ≠ 0)
    (once : dv.isCompletedStatus = false ∨ ∀ r ∈ s.refs.rows, r.storageKey ≠ dv.storageKey)
    (chosen : ∀ r ∈ s.refs.rows, selected r = true ↔ dv.storageKey = r.storageKey) :
    RefsExact ((s.complete dv.appid dv.docid dv.version).countRefs selected) := by
  refine sound.counted (· + 1) (fun _ _ _ => rfl) (fun r memberR => ?_) ?_
  · have same := chosen r memberR
    rw [refCount_complete wf member nonzero]
    rcases once with waiting | apart
    · simp only [waiting, and_true, same]
    · have other : ¬dv.storageKey = r.storageKey := fun equal => apart r memberR equal.symm
      simp only [same, other, false_and]
  · intro c _ v memberV _ _
    rcases Table.mem_update.mp memberV with ⟨old, memberOld, -, rfl⟩ | ⟨memberOld, -⟩
    · exact ⟨old, memberOld, rfl, rfl, rfl, rfl⟩
    · exact ⟨v, memberOld, rfl, rfl, rfl, rfl⟩

end RefsExact

/-! ## The calls -/

/-- The reference row that is found has the digest and the size that were asked for, and if it answers
the upload, the name fits. -/
def ExactPrepare (param : PrepareChunkUploadParam) (s : Store) : Prop :=
  ∀ ref, DocRefDAO.read param.md5 param.size s.refs = some ref →
    ref.md5 = param.md5 ∧ ref.size = param.size ∧
      (0 < ref.ref → ∃ name, NameFits param.filename name)

theorem Prepared.refsExact {docid : Int} {param : PrepareChunkUploadParam}
    (new : NewUpload config session docid s) (guard : ExactPrepare param s) (sound : RefsExact s)
    (prepared : Prepared session docid param s r s') : RefsExact s' := by
  have noVersion := new.noVersion new.nonzero
  have added : ∀ {ref : DocRef},
      ref = { md5 := param.md5, size := param.size, ref := 0, storageKey := some s.newKey } →
      RefsExact (s.issueKey.addRef ref) := by
    rintro _ rfl
    refine RefsExact.addRef (s := s.issueKey) sound rfl fun v member owner => ?_
    exact Nat.lt_irrefl _ (new.wf.versionKeys v member _ owner)
  cases prepared with
  | exceeded | foundFull | overflowed | resumedFault | newKey => exact sound
  | found ref name read positive named =>
    obtain ⟨digest, sized, -⟩ := guard ref read
    have member := (docRef_read_some read).1
    refine sound.addCounted (· + 1) new.wf rfl rfl member rfl new.statusFree
      fun r memberR => ?_
    simp only [Bool.and_eq_true, beq_iff_eq]
    constructor
    · exact fun same => new.wf.refsUnique r memberR ref member
        (Prod.ext (same.1.trans digest.symm) (same.2.trans sized.symm))
    · rintro rfl
      exact ⟨digest, sized⟩
  | foundFault ref fault read positive unnamed =>
    obtain ⟨name, named⟩ := (guard ref read).2.2 positive
    exact absurd named (unnamed name)
  | resumedVersion => exact sound.addVersion rfl new.statusFree
  | resumedStatus ref name fault read =>
    obtain ⟨digest, sized, -⟩ := guard ref read
    exact sound.addUpload new.doc new.statusFree noVersion (docRef_read_some read).1 digest sized name
      rfl
  | resumed ref name key read zero named stored =>
    obtain ⟨digest, sized, -⟩ := guard ref read
    rw [← stored]
    exact sound.addUpload new.doc new.statusFree noVersion (docRef_read_some read).1 digest sized name
      rfl
  | newRef fault ref read row => exact added row
  | new ref name read row =>
    have upload := (added row).addUpload new.doc new.statusFree noVersion
      (List.mem_append_right _ (List.mem_singleton_self _)) (by rw [row]; rfl) (by rw [row]; rfl)
      name (c := statusRow session docid param) rfl
    rw [row] at upload ⊢
    exact upload

/-- A write changes the chunk map only. -/
theorem Written.refsExact (sound : RefsExact s) {saves : Saves} {cup : ExecuteChunkUploadParam}
    {ins : InputStream}
    (written : Written session saves cup ins s r s') : RefsExact s' := by
  cases written with
  | idle | raised => exact sound
  | written taken => exact sound.replaceStatus (docChunkStatus_read_some taken.read).1 rfl

/-- A completed version with the key can be counted. -/
def CountsKey (key : Option ObjectId) (s : Store) : Prop :=
  s.HasRoom fun r => r.storageKey == key

/-- The document is named, and its version is not complete yet and can be counted. -/
def ExactFinish (session : Session) (docid : Int) (s : Store) : Prop :=
  docid ≠ 0 ∧ ∀ dv, DocVersionDAO.readLastVersion session.appid docid s.versions = some dv →
    dv.isCompletedStatus = false ∧ CountsKey dv.storageKey s

theorem Finished.refsExact (wf : Wf config s) (sound : RefsExact s) {docid : Int}
    (guard : ExactFinish session docid s)
    (finished : Finished session docid s r s') : RefsExact s' := by
  obtain ⟨nonzero, waiting⟩ := guard
  -- the row of the content is the row of the key
  have chosen : ∀ {dv key dcs}, Uploading session docid s dv key dcs → dv.version = 1 ∧
      ∀ r ∈ s.refs.rows,
        (r.md5 == dcs.md5 && r.size == dcs.fileSize) = true ↔ dv.storageKey = r.storageKey := by
    intro dv key dcs rows
    obtain ⟨⟨memberV, appV, docV⟩, memberC, appC, docC⟩ := rows.owned nonzero
    obtain ⟨first, ref, memberR, content, owner⟩ := sound.owned dcs memberC dv memberV
      (appV.trans appC.symm) (docV.trans docC.symm)
    refine ⟨first, fun r member => ?_⟩
    simp only [Bool.and_eq_true, beq_iff_eq, ← owner]
    constructor
    · exact fun same => congrArg DocRef.storageKey (wf.refsUnique ref memberR r member
        (Prod.ext (content.1.trans same.1.symm) (content.2.trans same.2.symm)))
    · intro same
      obtain rfl := wf.refKeysUnique ref memberR r member same
      exact content
  cases finished with
  | raised => exact sound
  | needMore rows => exact sound.replaceStatus (docChunkStatus_read_some rows.read).1 rfl
  | uncounted fault rows below full noRoom =>
    refine absurd (fun r member counted => ?_) noRoom
    refine (waiting _ rows.last).2 r member (beq_iff_eq.mpr ?_)
    exact (((chosen rows).2 r member).mp counted).symm
  | @completed dv key dcs rows below full =>
    obtain ⟨⟨memberV, appV, docV⟩, memberC, -⟩ := rows.owned nonzero
    have replaced : RefsExact (s.replaceStatus dcs
        (dcs.updateChunkMap (dcs.loadChunkMap ∪ s.mongo.queryChunkMap key))) :=
      sound.replaceStatus memberC rfl
    have counted := replaced.completeCounted (rows.replaceStatus wf below) memberV
      (docV.symm ▸ nonzero) (.inl (waiting dv rows.last).1) (chosen rows).2
    rw [appV, docV, (chosen rows).1] at counted
    exact counted

/-- If there is a reference row to refer to, it can be counted and the name fits. -/
def ExactReference (clb : ClbMeta) (s : Store) : Prop :=
  ∀ ref, DocRefDAO.read clb.md5 clb.size s.refs = some ref →
    ref.ref < 2147483647 ∧ ∃ name, NameFits clb.filename name

theorem Referred.refsExact (wf : Wf config s) (sound : RefsExact s) {clb : ClbMeta}
    {r : Except Fault Unit} (guard : ExactReference clb s)
    (referred : Referred session clb s r s') : RefsExact s' := by
  cases referred with
  | taken => exact sound
  | unknown => exact sound.addDoc _
  | counted fault ref noDoc read unnamed =>
    obtain ⟨-, name, named⟩ := guard ref read
    exact absurd named (unnamed name)
  | referred ref name noDoc read named =>
    have member := (docRef_read_some read).1
    have edits := DocRefDAO.raised_eq (sound.exact ref member ▸ Int.natCast_nonneg _)
      (guard ref read).1
    refine (sound.addDoc (docRow session clb.docid 0)).addCounted _ (wf.addDocRow 0 noDoc).wf edits rfl
      member rfl ?_ ?_
    · -- an upload has a document
      intro c memberC sameApp sameDoc
      obtain ⟨d, memberD, appD, docD⟩ := sound.documents c memberC
      exact noDoc d memberD (appD.trans sameApp) (docD.trans sameDoc)
    · intro r memberR
      rw [beq_iff_eq]
      exact ⟨wf.refsNumbered.eq_of_ident_eq memberR member, fun same => congrArg DocRef.id same⟩

theorem Saved.refsExact (sound : RefsExact s) {name : Text} {mf : MFile}
    {r : Except Fault Unit} (saved : Saved resource name mf s r s') : RefsExact s' := by
  obtain ⟨docs, versions, refs, chunkStatus⟩ := saved.tables
  unfold RefsExact
  rw [docs, versions, refs, chunkStatus]
  exact sound

theorem Advanced.refsExact (wf : Wf config s) (sound : RefsExact s)
    {r : Except Fault UpdateInfo} (member : dv ∈ s.versions.rows)
    (owner : dv.appid = session.appid) (nonzero : dv.docid ≠ 0)
    (once : (dv.isCompletedStatus = false ∧ CountsKey dv.storageKey s) ∨
      ∀ r ∈ s.refs.rows, r.storageKey ≠ dv.storageKey)
    (advanced : Advanced session resource dv dv.docid (countKey dv) s r s') : RefsExact s' := by
  cases advanced with
  | unsaved => exact sound
  | broken fault named stored saved => exact saved.refsExact sound
  | @done name filename key s₁ named stored saved =>
    obtain ⟨-, versions, refs, -⟩ := saved.tables
    have wf₁ := saved.wf wf (wf.versionKeys dv member key stored)
    have room : (s₁.complete session.appid dv.docid dv.version).HasRoom
        fun r => r.storageKey == dv.storageKey := by
      intro r memberR counted
      rw [show (s₁.complete session.appid dv.docid dv.version).refs = s.refs from refs] at memberR
      rcases once with ⟨-, counts⟩ | apart
      · exact counts r memberR counted
      · exact absurd (beq_iff_eq.mp counted) (apart r memberR)
    rw [show countKey dv _ = _ from incrRefOfKey_of_room room, ← owner]
    refine (saved.refsExact sound).completeCounted wf₁ (versions ▸ member) nonzero
      (refs ▸ once.imp_left And.left) ?_
    intro r memberR
    rw [beq_iff_eq]
    exact eq_comm

/-- The version of the document, if one is named, is not complete yet and can be counted, or no
reference row has its key. -/
def ExactJson (session : Session) (clbid : Int) (s : Store) : Prop :=
  clbid ≠ 0 → ∀ dv, DocVersionDAO.readLastVersion session.appid clbid s.versions = some dv →
    (dv.isCompletedStatus = false ∧ CountsKey dv.storageKey s) ∨
      ∀ r ∈ s.refs.rows, r.storageKey ≠ dv.storageKey

theorem JsonCreated.refsExact (wf : Wf config s) (sound : RefsExact s) {clbid isPub : Int}
    {r : Except Fault UpdateInfo} (guard : ExactJson session clbid s)
    (created : JsonCreated config session clbid isPub resource s r s') : RefsExact s' := by
  cases created with
  | refused => exact sound
  | created zero created =>
    cases created with
    | readonly => exact sound
    | refused fault waiting =>
      cases waiting with
      | refused => exact sound
      | unnamed => exact sound.addDoc _
    | advanced waiting advanced =>
      have wf₁ := waiting.wf wf
      cases waiting with
      | waiting name noDoc named =>
        have sound₁ := (sound.addDoc (docRow session (freshDocid config session s) isPub)).addVersion
          (v := firstVersion session (freshDocid config session s) name resource.length
            (some s.newKey) .waiting) rfl (wf.statusFree session)
        exact advanced.refsExact wf₁ sound₁
          (List.mem_append_right _ (List.mem_singleton_self _)) rfl
          (Int.ne_of_gt (config.nextID_pos _ _))
          (.inr fun r memberR owner => Nat.lt_irrefl _ (wf.refKeys r memberR _ owner))
  | advanced nonzero last advanced =>
    obtain ⟨member, appid, docid⟩ := readLastVersion_some last
    obtain rfl := docid nonzero
    exact advanced.refsExact wf sound member (appid (Int.ne_of_gt session.appid_pos)) nonzero
      (guard nonzero _ last)

/-! ## Runs -/

end Clb
