/-
# Document.Outcomes -- every way the calls of DocumentFacade can end

For each call an inductive relation lists the outcomes and the stores they leave, from a well formed
store: `Prepared`, `Written`, `Finished`, `Referred`. Faults are outcomes like any other, because a
call that raises keeps what it wrote. The invariants of the later modules are proved by cases on
these relations and never unfold a call again. -/
import Clb.Dao.Statements
import Clb.Document.Facade
import Clb.Document.WellFormed

set_option autoImplicit false

namespace Clb

open Clb.Lib Clb.Dao Clb.Lib.Action DocumentFacade

variable {r : Except Fault ChunkResponse} {s' : Store} {ref : DocRef} {filename : Option Text}

/-! ## Rows -/

def docRow (session : Session) (docid isPub : Int) : DocMeta :=
  { appid := session.appid, authId := some session.user, lastVersion := 1, isPub, docid }

def firstVersion (session : Session) (docid : Int) (name : Text) (size : Int)
    (storageKey : Option ObjectId) (status : UploadStatus) : DocVersion :=
  { appid := session.appid, docid, version := 1, filename := some name,
    fileExtension := some (getSuffix name), size, storageKey, uploadStatus := some status }

def statusRow (session : Session) (docid : Int) (param : PrepareChunkUploadParam) :
    DocChunkStatus :=
  { appid := session.appid, docid, chunkSize := param.chunkSize, version := 1,
    numOfChunk := numOfChunk param.size param.chunkSize, currentChunkIndex := -1,
    status := some "waiting".toList, chunkMap := none, md5 := param.md5, fileSize := param.size }

/-- A file name that is given and that the columns of a version hold. -/
def NameFits (filename : Option Text) (name : Text) : Prop :=
  filename = some name ∧ varchar .utf8 255 (some name) = true ∧
    varchar .utf8 20 (some (getSuffix name)) = true

theorem fits_docRow (session : Session) (docid isPub : Int) :
    docMetaDAO.fits (docRow session docid isPub) = true := by
  simp [docMetaDAO, docRow, session.user_fits]

theorem fits_firstVersion {session : Session} {docid size : Int} {name : Text}
    {storageKey : Option ObjectId} {status : UploadStatus} :
    docVersionDAO.fits (firstVersion session docid name size storageKey status) = true ↔
      varchar .utf8 255 (some name) = true ∧ varchar .utf8 20 (some (getSuffix name)) = true := by
  simp [docVersionDAO, firstVersion]

/-! ## The parts -/

variable {config : Config} {session : Session} {s : Store}

theorem createDocMeta_ends {docid isPub : Int} :
    Ends (createDocMeta session docid isPub) s fun r s' =>
      (∃ fault, r = .error fault ∧ s' = s) ∨
        (r = .ok docid ∧ s.NoDoc session.appid docid ∧ s' = s.addDoc (docRow session docid isPub)) := by
  unfold createDocMeta
  refine ends_bind (ends_within (ends_attempt ?_ fun _ => .inl ⟨_, rfl, rfl⟩))
  intro id table inserted
  obtain ⟨-, free, same⟩ := BaseDAO.insertObject_eq_some inserted
  obtain ⟨rfl, rfl⟩ := Prod.mk.inj same
  refine ends_pure (.inr ⟨rfl, fun d member sameApp sameDoc => ?_, rfl⟩)
  have apart := free d member
  simp [docMetaDAO, sameApp, sameDoc] at apart

/-- The id that the generator hands out next. -/
def freshDocid (config : Config) (session : Session) (s : Store) : Int :=
  config.nextID session.appid (s.docids session.appid)

abbrev withNewDoc (config : Config) (session : Session) (isPub : Int) (s : Store) : Store :=
  (s.issueDocid session.appid).addDoc (docRow session (freshDocid config session s) isPub)

theorem createNewDocMeta_ends {isPub : Int} :
    Ends (createNewDocMeta config session isPub) s fun r s' =>
      (∃ fault, r = .error fault ∧ s' = s.issueDocid session.appid) ∨
        (r = .ok (freshDocid config session s) ∧
          s.NoDoc session.appid (freshDocid config session s) ∧
          s' = withNewDoc config session isPub s) := by
  unfold createNewDocMeta
  exact ends_bind createDocMeta_ends

theorem createFirstDocVersion_ends {docid size : Int}
    {storageKey : Option ObjectId} {status : UploadStatus} :
    Ends (createFirstDocVersion session docid filename size storageKey status) s fun r s' =>
      (∃ fault, r = .error fault ∧ s' = s ∧ ∀ name, ¬NameFits filename name) ∨
        ∃ name, NameFits filename name ∧
          r = .ok { firstVersion session docid name size storageKey status with
            id := s.versions.next } ∧
          s' = s.addVersion (firstVersion session docid name size storageKey status) := by
  unfold createFirstDocVersion buildDocVersion
  refine ends_bind (ends_bind (ends_require ?_ ?_))
  · intro name given
    refine ends_pure (ends_within (ends_attempt ?_ ?_))
    · intro v table created
      unfold DocVersionDAO.createFirstVersion at created
      obtain ⟨out, inserted, same⟩ := Option.map_eq_some_iff.mp created
      obtain ⟨fits, -, rfl⟩ := BaseDAO.insertObject_eq_some inserted
      obtain ⟨rfl, rfl⟩ := Prod.mk.inj same
      exact .inr ⟨name, ⟨given, (@fits_firstVersion session docid size name storageKey status).mp fits⟩, rfl, rfl⟩
    · intro refused
      refine .inl ⟨_, rfl, rfl, fun name' named => ?_⟩
      obtain rfl : name' = name := Option.some.inj (named.1.symm.trans given)
      have refused : (docVersionDAO.insertObject
          (firstVersion session docid name' size storageKey status) s.versions).map _ = none := refused
      rw [BaseDAO.insertObject_of_fits (fits_firstVersion.mpr named.2) fun _ _ => rfl] at refused
      cases refused
  · intro absent
    refine .inl ⟨_, rfl, rfl, fun name named => ?_⟩
    rw [absent] at named
    cases named.1

/-- A generated id has no chunk status row yet. -/
theorem Wf.statusFree (wf : Wf config s) (session : Session) :
    ∀ c ∈ s.chunkStatus.rows, c.appid = session.appid →
      c.docid ≠ freshDocid config session s := by
  intro c member sameApp sameDoc
  obtain ⟨-, -, n, below, issued⟩ := wf.statusIssued c member
  rw [sameApp] at below issued
  have same := config.nextID_injective session.appid (issued.trans sameDoc)
  omega

theorem status_apart {docid : Int} {param : PrepareChunkUploadParam}
    (free : ∀ c ∈ s.chunkStatus.rows, c.appid = session.appid → c.docid ≠ docid) :
    ∀ c ∈ s.chunkStatus.rows, docChunkStatusDAO.clash (statusRow session docid param) c = false := by
  intro c member
  have apart := free c member
  simp only [docChunkStatusDAO, statusRow, Bool.and_eq_false_iff, beq_eq_false_iff_ne]
  by_cases sameApp : session.appid = c.appid
  · exact .inl (.inr fun sameDoc => apart sameApp.symm sameDoc.symm)
  · exact .inl (.inl sameApp)

theorem createStatus_ends {docid : Int} {param : PrepareChunkUploadParam}
    (free : ∀ c ∈ s.chunkStatus.rows, c.appid = session.appid → c.docid ≠ docid) :
    Ends (onChunkStatus (Action.attempt .dataIntegrity
        (DocChunkStatusDAO.create session.appid docid param.size param.md5 param.chunkSize))) s
      fun r s' =>
        (∃ fault, r = .error fault ∧ s' = s ∧
          docChunkStatusDAO.fits (statusRow session docid param) = false) ∨
        (r = .ok { statusRow session docid param with id := s.chunkStatus.next } ∧
          docChunkStatusDAO.fits (statusRow session docid param) = true ∧
          s' = s.addStatus (statusRow session docid param)) := by
  refine ends_within (ends_attempt ?_ ?_)
  · intro c table created
    unfold DocChunkStatusDAO.create at created
    obtain ⟨out, inserted, same⟩ := Option.map_eq_some_iff.mp created
    obtain ⟨fits, -, rfl⟩ := BaseDAO.insertObject_eq_some inserted
    obtain ⟨rfl, rfl⟩ := Prod.mk.inj same
    exact .inr ⟨rfl, fits, rfl⟩
  · intro refused
    refine .inl ⟨_, rfl, rfl, ?_⟩
    cases fits : docChunkStatusDAO.fits (statusRow session docid param) with
    | false => rfl
    | true =>
      have refused : (docChunkStatusDAO.insertObject (statusRow session docid param)
          s.chunkStatus).map _ = none := refused
      rw [BaseDAO.insertObject_of_fits fits (status_apart free)] at refused
      cases refused

/-- The chunk status row just inserted is the one read. -/
theorem read_addStatus {docid : Int} {param : PrepareChunkUploadParam} (positive : docid ≠ 0)
    (free : ∀ c ∈ s.chunkStatus.rows,
      docChunkStatusDAO.clash (statusRow session docid param) c = false) :
    DocChunkStatusDAO.read session.appid docid
        (s.addStatus (statusRow session docid param)).chunkStatus =
      some { statusRow session docid param with id := s.chunkStatus.next } := by
  have appid := session.appid_pos
  refine BaseDAO.findAndReturnOnly_of_unique (List.mem_append_right _ (List.mem_singleton_self _))
    (docChunkStatus_clause.mpr ⟨fun _ => rfl, fun _ => rfl, rfl⟩) fun c member chosen => ?_
  obtain ⟨sameApp, sameDoc, first⟩ := docChunkStatus_clause.mp chosen
  rcases List.mem_append.mp member with old | new
  · have apart := free c old
    simp [docChunkStatusDAO, statusRow, sameApp (by omega), sameDoc positive, first] at apart
  · exact List.mem_singleton.mp new

/-! ## Counters -/

/-- The action of the two `incrRef`. -/
theorem countUp_ends (s : Store) (selected : DocRef → Bool) :
    (s.HasRoom selected ∧ onRefs (Action.attempt .dataIntegrity fun table =>
        (DocRefDAO.countUp selected table).map fun table => ((), table)) s =
        (.ok (), s.countRefs selected)) ∨
      (¬s.HasRoom selected ∧ onRefs (Action.attempt .dataIntegrity fun table =>
        (DocRefDAO.countUp selected table).map fun table => ((), table)) s =
        (.error .dataIntegrity, s)) := by
  by_cases room : s.HasRoom selected
  · refine .inl ⟨room, within_eq ?_⟩
    simp only [Action.attempt, countUp_of_room room, Option.map_some]
  · refine .inr ⟨room, within_eq ?_⟩
    simp only [Action.attempt, countUp_of_full room, Option.map_none]

theorem incrRefOfKey_of_room {key : Option ObjectId} (room : s.HasRoom fun r => r.storageKey == key) :
    incrRefOfKey key s = (.ok (), s.countRefs fun r => r.storageKey == key) := by
  rcases countUp_ends s (fun r => r.storageKey == key) with
    ⟨-, counted⟩ | ⟨full, -⟩
  · exact counted
  · exact absurd room full

theorem updateRef_raised (numbered : Table.Numbered DocRef.id s.refs)
    (member : ref ∈ s.refs.rows) (fits : docRefDAO.fits ref = true) :
    updateRef ref s = (.ok (), s.editRefs (fun r => r.id == ref.id) DocRefDAO.raised) := by
  unfold updateRef
  refine within_eq ?_
  simp only [Action.attempt, updateRef_eq numbered member fits, Option.map_some]

/-! ## prepareUpload -/

/-- A reference row has a digest, so a digest that selects one is given. -/
theorem Wf.digest_ne_none (wf : Wf config s) {r : DocRef} (member : r ∈ s.refs.rows) :
    r.md5 ≠ none := by
  have fits := wf.refsFit r member
  simp only [docRefDAO, Bool.and_eq_true] at fits
  exact Option.isSome_iff_ne_none.mp fits.1.1

/-- The reference row that `found` counts is the one that was read. -/
theorem Wf.counted_eq_read (wf : Wf config s) {param : PrepareChunkUploadParam} {ref r : DocRef}
    (read : DocRefDAO.read param.md5 param.size s.refs = some ref) (size : 0 < param.size)
    (member : r ∈ s.refs.rows) (chosen : (r.md5 == param.md5 && r.size == param.size) = true) :
    r = ref := by
  simp only [Bool.and_eq_true, beq_iff_eq] at chosen
  obtain ⟨memberRef, digest, sized⟩ := docRef_read_some read
  have given : param.md5 ≠ none := chosen.1 ▸ wf.digest_ne_none member
  refine wf.refsUnique r member ref memberRef (Prod.ext ?_ ?_)
  · exact chosen.1.trans (digest given).symm
  · exact chosen.2.trans (sized (by omega)).symm

/-- The ways `prepareUpload` can end once the document `docid` has been added, giving `s`. -/
inductive Prepared (session : Session) (docid : Int) (param : PrepareChunkUploadParam) (s : Store) :
    Except Fault ChunkResponse → Store → Prop
  | exceeded (large : MAX_CHUNK_SIZE < param.chunkSize) :
      Prepared session docid param s
        (.ok ⟨.prepare, docid, 0, .EXCEED_MAX_CHUNK_SIZE, param.chunkSize, none,
          some [("currentChunkSize", param.chunkSize)]⟩) s
  | found (ref : DocRef) (name : Text) (read : DocRefDAO.read param.md5 param.size s.refs = some ref)
      (positive : 0 < ref.ref) (named : NameFits param.filename name)
      (room : s.HasRoom fun r => r.md5 == param.md5 && r.size == param.size) :
      Prepared session docid param s
        (.ok ⟨.prepare, docid, 0, .FOUND_THE_SAME_CONTENT, param.chunkSize, none, some []⟩)
        ((s.countRefs fun r => r.md5 == param.md5 && r.size == param.size).addVersion
          (firstVersion session docid name param.size ref.storageKey .complete))
  | foundFull (ref : DocRef) (fault : Fault)
      (read : DocRefDAO.read param.md5 param.size s.refs = some ref) (positive : 0 < ref.ref)
      (full : ¬s.HasRoom fun r => r.md5 == param.md5 && r.size == param.size) :
      Prepared session docid param s (.error fault) s
  | overflowed (ref : DocRef) (read : DocRefDAO.read param.md5 param.size s.refs = some ref)
      (negative : ref.ref < 0) :
      Prepared session docid param s
        (.ok ⟨.prepare, docid, 0, .SUCCESS, param.chunkSize, none, some []⟩) s
  | foundFault (ref : DocRef) (fault : Fault)
      (read : DocRefDAO.read param.md5 param.size s.refs = some ref) (positive : 0 < ref.ref)
      (unnamed : ∀ name, ¬NameFits param.filename name) :
      Prepared session docid param s (.error fault)
        (s.countRefs fun r => r.md5 == param.md5 && r.size == param.size)
  | resumedFault (ref : DocRef) (fault : Fault)
      (read : DocRefDAO.read param.md5 param.size s.refs = some ref) (zero : ref.ref = 0)
      (unnamed : ∀ name, ¬NameFits param.filename name) :
      Prepared session docid param s (.error fault) s
  | resumedVersion (ref : DocRef) (name : Text) (fault : Fault)
      (read : DocRefDAO.read param.md5 param.size s.refs = some ref) (zero : ref.ref = 0)
      (named : NameFits param.filename name)
      (unfit : docChunkStatusDAO.fits (statusRow session docid param) = false) :
      Prepared session docid param s (.error fault)
        (s.addVersion (firstVersion session docid name param.size ref.storageKey .waiting))
  | resumedStatus (ref : DocRef) (name : Text) (fault : Fault)
      (read : DocRefDAO.read param.md5 param.size s.refs = some ref) (zero : ref.ref = 0)
      (named : NameFits param.filename name)
      (fits : docChunkStatusDAO.fits (statusRow session docid param) = true)
      (small : param.chunkSize ≤ MAX_CHUNK_SIZE) :
      Prepared session docid param s (.error fault)
        ((s.addVersion (firstVersion session docid name param.size ref.storageKey .waiting)).addStatus
          (statusRow session docid param))
  | resumed (ref : DocRef) (name : Text) (key : ObjectId)
      (read : DocRefDAO.read param.md5 param.size s.refs = some ref) (zero : ref.ref = 0)
      (named : NameFits param.filename name) (stored : ref.storageKey = some key)
      (fits : docChunkStatusDAO.fits
        ((statusRow session docid param).updateChunkMap (s.mongo.queryChunkMap key)) = true)
      (small : param.chunkSize ≤ MAX_CHUNK_SIZE) :
      Prepared session docid param s
        (.ok ⟨.prepare, docid, 0, .SUCCESS, param.chunkSize,
          some ((statusRow session docid param).updateChunkMap
            (s.mongo.queryChunkMap key)).findEmptyChunk, some []⟩)
        ((s.addVersion (firstVersion session docid name param.size (some key) .waiting)).addStatus
          ((statusRow session docid param).updateChunkMap (s.mongo.queryChunkMap key)))
  | newKey (fault : Fault) (read : DocRefDAO.read param.md5 param.size s.refs = none)
      (unfit : docRefDAO.fits
        { md5 := param.md5, size := param.size, ref := 0, storageKey := some s.newKey } = false) :
      Prepared session docid param s (.error fault) s.issueKey
  | newRef (fault : Fault) (ref : DocRef)
      (read : DocRefDAO.read param.md5 param.size s.refs = none)
      (row : ref = { md5 := param.md5, size := param.size, ref := 0, storageKey := some s.newKey })
      (fits : docRefDAO.fits ref = true) (free : ∀ r ∈ s.refs.rows, docRefDAO.clash ref r = false)
      (unnamed : ∀ name, ¬NameFits param.filename name) :
      Prepared session docid param s (.error fault) (s.issueKey.addRef ref)
  | new (ref : DocRef) (name : Text) (read : DocRefDAO.read param.md5 param.size s.refs = none)
      (row : ref = { md5 := param.md5, size := param.size, ref := 0, storageKey := some s.newKey })
      (fits : docRefDAO.fits ref = true) (free : ∀ r ∈ s.refs.rows, docRefDAO.clash ref r = false)
      (named : NameFits param.filename name)
      (fitsStatus : docChunkStatusDAO.fits (statusRow session docid param) = true)
      (small : param.chunkSize ≤ MAX_CHUNK_SIZE) :
      Prepared session docid param s
        (.ok ⟨.prepare, docid, 0, .SUCCESS, param.chunkSize,
          some (statusRow session docid param).findEmptyChunk, some []⟩)
        (((s.issueKey.addRef ref).addVersion
          (firstVersion session docid name param.size (some s.newKey) .waiting)).addStatus
            (statusRow session docid param))

section Prepare

variable {docid : Int} {param : PrepareChunkUploadParam}

theorem prepareFound_ends
    (read : DocRefDAO.read param.md5 param.size s.refs = some ref) (positive : 0 < ref.ref) :
    Ends (prepareFound session docid param ref) s (Prepared session docid param s) := by
  unfold prepareFound
  rcases countUp_ends s (fun r => r.md5 == param.md5 && r.size == param.size) with
    ⟨room, counted⟩ | ⟨full, refused⟩
  · refine ends_bind (ends_of_eq counted (ends_bind (createFirstDocVersion_ends.mono ?_)))
    rintro _ _ (⟨fault, rfl, rfl, unnamed⟩ | ⟨name, named, rfl, rfl⟩)
    · exact .foundFault ref fault read positive unnamed
    · exact ends_pure (.found ref name read positive named room)
  · exact ends_bind (ends_of_eq refused (.foundFull ref _ read positive full))

/-- Adding a chunk status row and then setting its map adds the row with the map. -/
theorem replaceStatus_addStatus (numbered : Table.Numbered DocChunkStatus.id s.chunkStatus)
    (c : DocChunkStatus) (bitSet : Finset Nat) :
    (s.addStatus c).replaceStatus { c with id := s.chunkStatus.next }
        (({ c with id := s.chunkStatus.next } : DocChunkStatus).updateChunkMap bitSet) =
      s.addStatus (c.updateChunkMap bitSet) :=
  congrArg (fun t => { s with chunkStatus := t })
    (@Table.Numbered.replace_insert _ _ _ docChunkStatusDAO.setId numbered (fun _ _ => rfl) c
      (c.updateChunkMap bitSet))

theorem prepareResumed_ends (wf : Wf config s) (positive : docid ≠ 0)
    (free : ∀ c ∈ s.chunkStatus.rows, c.appid = session.appid → c.docid ≠ docid)
    (read : DocRefDAO.read param.md5 param.size s.refs = some ref) (zero : ref.ref = 0)
    (small : param.chunkSize ≤ MAX_CHUNK_SIZE) :
    Ends (prepareResumed session docid param ref) s (Prepared session docid param s) := by
  unfold prepareResumed
  refine ends_bind (createFirstDocVersion_ends.mono ?_)
  rintro _ _ (⟨fault, rfl, rfl, unnamed⟩ | ⟨name, named, rfl, rfl⟩)
  · exact .resumedFault ref fault read zero unnamed
  refine ends_bind ((createStatus_ends (s := s.addVersion _) free).mono ?_)
  rintro _ _ (⟨fault, rfl, rfl, unfit⟩ | ⟨rfl, fits, rfl⟩)
  · exact .resumedVersion ref name fault read zero named unfit
  refine ends_bind (ends_bind (ends_require ?_ fun _ => ?_))
  · intro key stored
    have numbered : Table.Numbered DocChunkStatus.id
        (s.chunkStatus.insert docChunkStatusDAO.setId (statusRow session docid param)) :=
      wf.statusNumbered.insert (fun _ _ => rfl) _
    have updated := @updateChunkStatusOfSet_eq _ _ (s.mongo.queryChunkMap key) _ _ numbered
      (read_addStatus positive (status_apart free)) fits
    have blank : ({ statusRow session docid param with id := s.chunkStatus.next } :
        DocChunkStatus).loadChunkMap = ∅ := rfl
    rw [blank, Finset.empty_union] at updated
    refine ends_read (ends_bind (ends_within ?_))
    split at updated
    · rename_i below
      have fitsMap := (fits_updateChunkMap fits (s.mongo.queryChunkMap key)).mpr below
      have ends := Prepared.resumed ref name key read zero named stored fitsMap small
      rw [← replaceStatus_addStatus (s := s.addVersion _) wf.statusNumbered, ← stored] at ends
      exact ends_of_eq updated (ends_pure ends)
    · exact ends_of_eq updated (.resumedStatus ref name _ read zero named fits small)
  · exact .resumedStatus ref name _ read zero named fits small

theorem fits_statusRow_of_ref (fits : docRefDAO.fits ref = true) (digest : ref.md5 = param.md5) :
    docChunkStatusDAO.fits (statusRow session docid param) = true := by
  rw [docRefDAO] at fits
  simp only [Bool.and_eq_true, digest] at fits
  simp only [docChunkStatusDAO, statusRow, Bool.and_eq_true]
  exact ⟨⟨⟨⟨rfl, by decide⟩, fits.1.1⟩, varchar_utf8_of_latin1 (by decide) fits.1.2⟩, rfl⟩

theorem prepareNew_ends (wf : Wf config s)
    (free : ∀ c ∈ s.chunkStatus.rows, c.appid = session.appid → c.docid ≠ docid)
    (read : DocRefDAO.read param.md5 param.size s.refs = none)
    (small : param.chunkSize ≤ MAX_CHUNK_SIZE) :
    Ends (prepareNew session docid param) s (Prepared session docid param s) := by
  unfold prepareNew
  refine ends_bind (ends_bind (ends_within (ends_attempt ?_ fun refused => .newKey _ read ?_)))
  case refine_2 =>
    -- nothing clashes with a digest that was not found and a new key
    by_contra fits
    have refused : docRefDAO.insertObject
        { md5 := param.md5, size := param.size, ref := 0, storageKey := some s.newKey } s.refs =
        none := refused
    rw [BaseDAO.insertObject_of_fits (Bool.eq_true_of_not_eq_false fits) fun r member => ?_] at refused
    · cases refused
    · simp only [docRefDAO, Bool.or_eq_false_iff, Bool.and_eq_false_iff, beq_eq_false_iff_ne]
      refine ⟨?_, fun same => Nat.lt_irrefl _ (wf.refKeys r member s.newKey same.symm)⟩
      by_cases digest : param.md5 = r.md5
      · exact .inr (docRef_read_none read member digest.symm).symm
      · exact .inl digest
  intro id table created
  obtain ⟨fits, unused, same⟩ := BaseDAO.insertObject_eq_some created
  obtain ⟨rfl, rfl⟩ := Prod.mk.inj same
  refine ends_bind ((createFirstDocVersion_ends (s := s.issueKey.addRef _)).mono ?_)
  rintro _ _ (⟨fault, rfl, rfl, unnamed⟩ | ⟨name, named, rfl, rfl⟩)
  · exact .newRef fault _ read rfl fits unused unnamed
  refine ends_bind ((createStatus_ends (s := (s.issueKey.addRef _).addVersion _) free).mono ?_)
  have fitsStatus : docChunkStatusDAO.fits (statusRow session docid param) = true :=
    fits_statusRow_of_ref fits rfl
  rintro _ _ (⟨fault, rfl, rfl, unfit⟩ | ⟨rfl, -, rfl⟩)
  · rw [fitsStatus] at unfit
    cases unfit
  · exact ends_pure (.new _ name read rfl fits unused named fitsStatus small)

end Prepare

theorem prepareUpload_ends (wf : Wf config s) {param : PrepareChunkUploadParam} :
    Ends (prepareUpload config session param) s fun r s' =>
      (∃ fault, r = .error fault ∧ s' = s.issueDocid session.appid) ∨
        (s.NoDoc session.appid (freshDocid config session s) ∧
          Prepared session (freshDocid config session s) param (withNewDoc config session 0 s) r s') := by
  unfold prepareUpload
  refine ends_bind (createNewDocMeta_ends.mono ?_)
  rintro _ _ (⟨fault, rfl, rfl⟩ | ⟨rfl, noDoc, rfl⟩)
  · exact .inl ⟨fault, rfl, rfl⟩
  have wf₁ := (wf.issueDocid session.appid).addDoc (fits_docRow session _ 0) noDoc
  have positive : freshDocid config session s ≠ 0 :=
    Int.ne_of_gt (config.nextID_pos session.appid _)
  refine (ends_bind (ends_read (ends_ite ?_ ?_))).mono fun _ _ ends => .inr ⟨noDoc, ends⟩
  · exact fun large => ends_pure (.exceeded large)
  intro small
  have small : param.chunkSize ≤ MAX_CHUNK_SIZE := Int.not_lt.mp small
  split
  · rename_i ref read
    refine ends_ite (prepareFound_ends read) fun notPositive => ends_ite (fun zero => ?_) fun nonzero => ?_
    · exact prepareResumed_ends wf₁ positive (wf.statusFree session) read zero small
    · exact ends_pure (.overflowed ref read (by omega))
  · rename_i read
    exact prepareNew_ends wf₁ (wf.statusFree session) read small

/-! ## writeChunkData -/

/-- The rows that `writeChunkData` and `finishUpload` work with. -/
structure Uploading (session : Session) (docid : Int) (s : Store) (dv : DocVersion)
    (key : ObjectId) (dcs : DocChunkStatus) : Prop where
  last : DocVersionDAO.readLastVersion session.appid docid s.versions = some dv
  stored : dv.storageKey = some key
  read : DocChunkStatusDAO.read session.appid docid s.chunkStatus = some dcs

/-- They belong to the document, if one is named. -/
theorem Uploading.owned {docid : Int} {dv : DocVersion} {key : ObjectId} {dcs : DocChunkStatus}
    (rows : Uploading session docid s dv key dcs) (nonzero : docid ≠ 0) :
    (dv ∈ s.versions.rows ∧ dv.appid = session.appid ∧ dv.docid = docid) ∧
      dcs ∈ s.chunkStatus.rows ∧ dcs.appid = session.appid ∧ dcs.docid = docid := by
  have appid_ne : session.appid ≠ 0 := Int.ne_of_gt session.appid_pos
  obtain ⟨memberV, appV, docV⟩ := readLastVersion_some rows.last
  obtain ⟨memberC, appC, docC, -⟩ := docChunkStatus_read_some rows.read
  exact ⟨⟨memberV, appV appid_ne, docV nonzero⟩, memberC, appC appid_ne, docC nonzero⟩

/-- The call of `chunkedUpload` that a chunk leads to. -/
abbrev uploadChunk (session : Session) (saves : Saves) (cup : ExecuteChunkUploadParam)
    (ins : InputStream) (dv : DocVersion) (key : ObjectId) (dcs : DocChunkStatus) :
    Action Mongo Fault Unit :=
  MongoStorageService.chunkedUpload saves cup.index.toNat dcs.numOfChunk ins cup.length
    { filename := dv.filename, storageKey := key, docid := dv.docid, vid := dv.version,
      appid := session.appid, length := dcs.fileSize } dcs.chunkSize

section Write

variable {saves : Saves} {cup : ExecuteChunkUploadParam} {ins : InputStream} {dv : DocVersion}
  {key : ObjectId} {dcs : DocChunkStatus} {name : Text}

/-- `writeChunkData` up to the decision what to do with the chunk. -/
theorem writeChunkData_eq (rows : Uploading session cup.docid s dv key dcs)
    (named : dv.filename = some name) :
    writeChunkData session saves cup ins s =
      if dcs.numOfChunk ≤ cup.index ∨ cup.index < 0 then
        (.ok ⟨.execute, cup.docid, cup.index, .CHUNK_INDEX_INVALID, dcs.chunkSize, none,
          some [("numOfChunk", dcs.numOfChunk)]⟩, s)
      else if dcs.chunkSize < cup.length then
        (.ok ⟨.execute, cup.docid, cup.index, .TOO_LARGE_CHUNK, dcs.chunkSize, none,
          some [("chunkSize", dcs.chunkSize), ("currentChunkSize", cup.length)]⟩, s)
      else if cup.index.toNat ∈ dcs.findEmptyChunk then
        writeEmptyChunk session saves cup ins
          { filename := dv.filename, storageKey := key, docid := dv.docid, vid := dv.version,
            appid := session.appid } dcs s
      else
        (.ok ⟨.execute, cup.docid, cup.index, .DUPLICATE_CHUNK, dcs.chunkSize,
          some dcs.findEmptyChunk, some []⟩, s) := by
  unfold writeChunkData getLastDocVersion buildMongoFile
  simp only [bind_assoc, pure_bind]
  rw [Action.read_bind, rows.last, Action.require_some_bind, named, Action.require_some_bind,
    rows.stored, Action.require_some_bind, Action.read_bind, rows.read, Action.require_some_bind]
  split_ifs <;> rfl

/-- The chunk is uploaded first and recorded in the map afterwards, whatever the upload did. -/
theorem writeEmptyChunk_eq (constrained : Constrained s)
    (rows : Uploading session cup.docid s dv key dcs) :
    writeEmptyChunk session saves cup ins
        { filename := dv.filename, storageKey := key, docid := dv.docid, vid := dv.version,
          appid := session.appid } dcs s =
      match uploadChunk session saves cup ins dv key dcs s.mongo with
      | (.error fault, m) => (.error fault, { s with mongo := m })
      | (.ok _, m) =>
        if ∀ i ∈ insert cup.index.toNat dcs.loadChunkMap, i < mapLimit then
          (.ok ⟨.execute, cup.docid, cup.index, .SUCCESS, dcs.chunkSize,
            some dcs.findEmptyChunk, some []⟩,
            ({ s with mongo := m }.replaceStatus dcs
              (DocChunkStatusDAO.recorded cup.index.toNat dcs)))
        else
          (.error .dataIntegrity, { s with mongo := m }) := by
  unfold writeEmptyChunk
  have fits := constrained.statusFit dcs (docChunkStatus_read_some rows.read).1
  have updated := @updateChunkStatus_eq _ _ cup.index.toNat _ _ constrained.statusNumbered
    rows.read fits
  rcases upload : uploadChunk session saves cup ins dv key dcs s.mongo with ⟨r, m⟩
  cases r with
  | error fault => exact bind_error (within_eq upload)
  | ok u =>
    refine (bind_ok (within_eq upload)).trans ?_
    dsimp only
    split at updated
    · rename_i below
      rw [if_pos below]
      exact bind_ok (within_eq updated)
    · rename_i above
      rw [if_neg above]
      exact bind_error (within_eq updated)

/-- The chunk is one that `writeChunkData` passes on to the storage. -/
structure Taken (session : Session) (cup : ExecuteChunkUploadParam) (s : Store) (dv : DocVersion)
    (key : ObjectId) (dcs : DocChunkStatus) : Prop extends
    Uploading session cup.docid s dv key dcs where
  nonneg : 0 ≤ cup.index
  empty : cup.index.toNat ∈ dcs.findEmptyChunk
  fits : cup.length ≤ dcs.chunkSize

/-- The ways `writeChunkData` can end. -/
inductive Written (session : Session) (saves : Saves) (cup : ExecuteChunkUploadParam)
    (ins : InputStream) (s : Store) : Except Fault ChunkResponse → Store → Prop
  | idle {r : Except Fault ChunkResponse} (code : ∀ res, r = .ok res → res.statusCode ≠ .SUCCESS) :
      Written session saves cup ins s r s
  | raised {dv : DocVersion} {key : ObjectId} {dcs : DocChunkStatus} {r : Except Fault Unit}
      {fault : Fault} {m : Mongo} (taken : Taken session cup s dv key dcs)
      (upload : uploadChunk session saves cup ins dv key dcs s.mongo = (r, m)) :
      Written session saves cup ins s (.error fault) { s with mongo := m }
  | written {dv : DocVersion} {key : ObjectId} {dcs : DocChunkStatus} {m : Mongo}
      (taken : Taken session cup s dv key dcs)
      (upload : uploadChunk session saves cup ins dv key dcs s.mongo = (.ok (), m))
      (below : ∀ i ∈ insert cup.index.toNat dcs.loadChunkMap, i < mapLimit) :
      Written session saves cup ins s
        (.ok ⟨.execute, cup.docid, cup.index, .SUCCESS, dcs.chunkSize, some dcs.findEmptyChunk,
          some []⟩)
        ({ s with mongo := m }.replaceStatus dcs (DocChunkStatusDAO.recorded cup.index.toNat dcs))

theorem Written.refused {fault : Fault} : Written session saves cup ins s (.error fault) s :=
  .idle fun _ returned => nomatch returned

theorem writeEmptyChunk_ends (wf : Wf config s) (taken : Taken session cup s dv key dcs) :
    Ends (writeEmptyChunk session saves cup ins
      { filename := dv.filename, storageKey := key, docid := dv.docid, vid := dv.version,
        appid := session.appid } dcs) s (Written session saves cup ins s) := by
  have written := @writeEmptyChunk_eq _ _ saves _ ins _ _ _ wf.constrained taken.toUploading
  rcases upload : uploadChunk session saves cup ins dv key dcs s.mongo with ⟨r, m⟩
  rw [upload] at written
  cases r with
  | error fault => exact ends_of_eq written (.raised taken upload)
  | ok u =>
    dsimp only at written
    split at written
    · exact ends_of_eq written (.written taken upload ‹_›)
    · exact ends_of_eq written (.raised taken upload)

theorem writeChunkData_ends (wf : Wf config s) :
    Ends (writeChunkData session saves cup ins) s (Written session saves cup ins s) := by
  unfold writeChunkData getLastDocVersion buildMongoFile
  refine ends_bind (ends_bind (ends_read (ends_require ?_ fun _ => .refused)))
  intro dv last
  refine ends_bind (ends_bind (ends_require ?_ fun _ => .refused))
  intro name named
  refine ends_bind (ends_require ?_ fun _ => .refused)
  intro key stored
  refine ends_pure (ends_bind (ends_read (ends_bind (ends_require ?_ fun _ => .refused))))
  intro dcs read
  refine ends_ite (fun _ => ends_pure (.idle (by rintro _ ⟨⟩ ⟨⟩))) fun valid => ?_
  refine ends_ite (fun _ => ends_pure (.idle (by rintro _ ⟨⟩ ⟨⟩))) fun fits => ?_
  refine ends_ite (fun empty => ?_) fun _ => ends_pure (.idle (by rintro _ ⟨⟩ ⟨⟩))
  rw [← named]
  exact writeEmptyChunk_ends wf ⟨⟨last, stored, read⟩, by omega, empty, by omega⟩

end Write

/-! ## finishUpload -/

/-- The ways `finishUpload` can end. -/
inductive Finished (session : Session) (docid : Int) (s : Store) :
    Except Fault ChunkResponse → Store → Prop
  | raised (fault : Fault) : Finished session docid s (.error fault) s
  | needMore {dv : DocVersion} {key : ObjectId} {dcs : DocChunkStatus}
      (rows : Uploading session docid s dv key dcs)
      (below : ∀ i ∈ dcs.loadChunkMap ∪ s.mongo.queryChunkMap key, i < mapLimit)
      (missing : (dcs.updateChunkMap (dcs.loadChunkMap ∪ s.mongo.queryChunkMap key)).findEmptyChunk
        ≠ []) :
      Finished session docid s
        (.ok ⟨.finish, docid, 0, .NEED_MORE_CHUNK, dcs.chunkSize,
          some (dcs.updateChunkMap (dcs.loadChunkMap ∪ s.mongo.queryChunkMap key)).findEmptyChunk,
          none⟩)
        (s.replaceStatus dcs (dcs.updateChunkMap (dcs.loadChunkMap ∪ s.mongo.queryChunkMap key)))
  | completed {dv : DocVersion} {key : ObjectId} {dcs : DocChunkStatus}
      (rows : Uploading session docid s dv key dcs)
      (below : ∀ i ∈ dcs.loadChunkMap ∪ s.mongo.queryChunkMap key, i < mapLimit)
      (full : (dcs.updateChunkMap (dcs.loadChunkMap ∪ s.mongo.queryChunkMap key)).findEmptyChunk
        = [])
      (room : s.HasRoom fun r => r.md5 == dcs.md5 && r.size == dcs.fileSize) :
      Finished session docid s
        (.ok ⟨.finish, docid, 0, .SUCCESS, dcs.chunkSize, some [], none⟩)
        (((s.replaceStatus dcs
          (dcs.updateChunkMap (dcs.loadChunkMap ∪ s.mongo.queryChunkMap key))).complete
            session.appid docid 1).countRefs fun r => r.md5 == dcs.md5 && r.size == dcs.fileSize)
  | uncounted {dv : DocVersion} {key : ObjectId} {dcs : DocChunkStatus} (fault : Fault)
      (rows : Uploading session docid s dv key dcs)
      (below : ∀ i ∈ dcs.loadChunkMap ∪ s.mongo.queryChunkMap key, i < mapLimit)
      (full : (dcs.updateChunkMap (dcs.loadChunkMap ∪ s.mongo.queryChunkMap key)).findEmptyChunk
        = [])
      (noRoom : ¬s.HasRoom fun r => r.md5 == dcs.md5 && r.size == dcs.fileSize) :
      Finished session docid s (.error fault)
        ((s.replaceStatus dcs
          (dcs.updateChunkMap (dcs.loadChunkMap ∪ s.mongo.queryChunkMap key))).complete
            session.appid docid 1)

theorem updateUploadStatus_eq (fits : ∀ v ∈ s.versions.rows, docVersionDAO.fits v = true)
    {appid docid version : Int} :
    updateUploadStatus appid docid version s = (.ok (), s.complete appid docid version) := by
  have selected : choseSelectedFieldsAsQueryClause docVersionDAO.fields
      { appid, docid, version, uploadStatus := some .complete } ["docid", "appid", "version"] =
      fun row => decide (Completes appid docid version row) := by
    funext row
    rw [Bool.eq_iff_iff, decide_eq_true_iff]
    exact updateStatus_clause
  have edit : getSetValuesClause docVersionDAO.fields
      { appid, docid, version, uploadStatus := some .complete } ["docid", "appid", "version"] =
      fun row => { row with uploadStatus := some .complete } :=
    funext fun _ => updateStatus_set
  unfold updateUploadStatus
  refine within_eq ?_
  unfold Action.attempt DocVersionDAO.updateStatus BaseDAO.updateObjectBy
  dsimp only
  rw [selected, edit, BaseDAO.updateRows_of_fits]
  · rfl
  · exact fun row member _ => fits row member

theorem finishUpload_eq (constrained : Constrained s) {docid : Int} {dv : DocVersion} {key : ObjectId}
    {dcs dcs' : DocChunkStatus} (rows : Uploading session docid s dv key dcs)
    (merged : dcs' = dcs.updateChunkMap (dcs.loadChunkMap ∪ s.mongo.queryChunkMap key)) :
    finishUpload session docid s =
      if ∀ i ∈ dcs.loadChunkMap ∪ s.mongo.queryChunkMap key, i < mapLimit then
        if dcs'.findEmptyChunk = [] then
          if s.HasRoom fun r => r.md5 == dcs.md5 && r.size == dcs.fileSize then
            (.ok ⟨.finish, docid, 0, .SUCCESS, dcs.chunkSize, some [], none⟩,
              ((s.replaceStatus dcs dcs').complete session.appid docid 1).countRefs
                fun r => r.md5 == dcs.md5 && r.size == dcs.fileSize)
          else
            (.error .dataIntegrity, (s.replaceStatus dcs dcs').complete session.appid docid 1)
        else
          (.ok ⟨.finish, docid, 0, .NEED_MORE_CHUNK, dcs.chunkSize, some dcs'.findEmptyChunk, none⟩,
            s.replaceStatus dcs dcs')
      else
        (.error .dataIntegrity, s) := by
  subst merged
  have fits := constrained.statusFit dcs (docChunkStatus_read_some rows.read).1
  have updated := @updateChunkStatusOfSet_eq _ _ (s.mongo.queryChunkMap key) _ _
    constrained.statusNumbered rows.read fits
  unfold finishUpload queryDocumentChunkSet
  rw [Action.read_bind, rows.last, Action.require_some_bind, bind_assoc, rows.stored,
    Action.require_some_bind, Action.read_bind]
  split at updated
  · rename_i below
    rw [if_pos below]
    refine (bind_ok (within_eq updated)).trans ?_
    split
    · refine (bind_ok
        (@updateUploadStatus_eq (s.replaceStatus _ _) constrained.versionsFit _ _ _)).trans ?_
      rcases countUp_ends ((s.replaceStatus dcs _).complete session.appid docid 1) _ with
        ⟨room, counted⟩ | ⟨full, refused⟩
      · exact (bind_ok counted).trans (if_pos room).symm
      · exact (bind_error refused).trans (if_neg full).symm
    · rfl
  · rename_i above
    rw [if_neg above]
    exact bind_error (within_eq updated)

theorem finishUpload_ends (wf : Wf config s) {docid : Int} :
    Ends (finishUpload session docid) s (Finished session docid s) := by
  by_cases rows : ∃ dv key dcs, Uploading session docid s dv key dcs
  · obtain ⟨dv, key, dcs, rows⟩ := rows
    have finished := finishUpload_eq wf.constrained rows rfl
    split at finished
    · split at finished
      · split at finished
        · exact ends_of_eq finished (.completed rows ‹_› ‹_› ‹_›)
        · exact ends_of_eq finished (.uncounted _ rows ‹_› ‹_› ‹_›)
      · exact ends_of_eq finished (.needMore rows ‹_› ‹_›)
    · exact ends_of_eq finished (.raised _)
  · unfold finishUpload queryDocumentChunkSet
    refine ends_bind (ends_read (ends_bind (ends_require ?_ fun _ => .raised _)))
    intro dv last
    refine ends_bind (ends_bind (ends_require ?_ fun _ => .raised _))
    intro key stored
    have missing : DocChunkStatusDAO.read session.appid docid s.chunkStatus = none := by
      cases read : DocChunkStatusDAO.read session.appid docid s.chunkStatus with
      | none => rfl
      | some dcs => exact absurd ⟨dv, key, dcs, last, stored, read⟩ rows
    exact ends_read (ends_bind (ends_within
      (ends_of_eq (updateChunkStatusOfSet_missing missing) (.raised _))))

/-! ## createClbRef -/

/-- The ways `createClbRef` can end. -/
inductive Referred (session : Session) (clb : ClbMeta) (s : Store) : Except Fault Unit → Store → Prop
  | taken (fault : Fault) : Referred session clb s (.error fault) s
  | unknown (fault : Fault) (noDoc : s.NoDoc session.appid clb.docid)
      (missing : DocRefDAO.read clb.md5 clb.size s.refs = none) :
      Referred session clb s (.error fault) (s.addDoc (docRow session clb.docid 0))
  | counted (fault : Fault) (ref : DocRef) (noDoc : s.NoDoc session.appid clb.docid)
      (read : DocRefDAO.read clb.md5 clb.size s.refs = some ref)
      (unnamed : ∀ name, ¬NameFits clb.filename name) :
      Referred session clb s (.error fault)
        ((s.addDoc (docRow session clb.docid 0)).editRefs (fun r => r.id == ref.id) DocRefDAO.raised)
  | referred (ref : DocRef) (name : Text) (noDoc : s.NoDoc session.appid clb.docid)
      (read : DocRefDAO.read clb.md5 clb.size s.refs = some ref)
      (named : NameFits clb.filename name) :
      Referred session clb s (.ok ())
        (((s.addDoc (docRow session clb.docid 0)).editRefs (fun r => r.id == ref.id)
          DocRefDAO.raised).addVersion
            (firstVersion session clb.docid name clb.size ref.storageKey .complete))

theorem createClbRef_ends (wf : Wf config s) {clb : ClbMeta} :
    Ends (createClbRef session clb) s (Referred session clb s) := by
  unfold createClbRef
  refine ends_bind (createDocMeta_ends.mono ?_)
  rintro _ _ (⟨fault, rfl, rfl⟩ | ⟨rfl, noDoc, rfl⟩)
  · exact .taken fault
  refine ends_bind (ends_read (ends_bind (ends_require ?_ fun missing => .unknown _ noDoc missing)))
  intro ref read
  obtain ⟨member, -⟩ := docRef_read_some read
  refine ends_bind (ends_of_eq (updateRef_raised (s := s.addDoc _) wf.refsNumbered member
    (wf.refsFit ref member)) ?_)
  refine ends_bind ((createFirstDocVersion_ends (s := (s.addDoc _).editRefs _ _)).mono ?_)
  rintro _ _ (⟨fault, rfl, rfl, unnamed⟩ | ⟨name, named, rfl, rfl⟩)
  · exact .counted fault ref noDoc read unnamed
  · exact ends_pure (.referred ref name noDoc read named)

/-! ## createDocVersion -/

/-- The row that proc_create_doc_version inserts. -/
def bareVersion (session : Session) (docid version : Int) : DocVersion :=
  { appid := session.appid, docid, version, uploadStatus := some .waiting }

def nextVersionRow (session : Session) (docid version : Int) (name : Text) (size : Int)
    (storageKey : ObjectId) : DocVersion :=
  { firstVersion session docid name size (some storageKey) .waiting with version }

/-- `updateDocMeta` for a version. -/
abbrev Store.setLastVersion (appid docid version : Int) (s : Store) : Store :=
  { s with
    docs := s.docs.update (fun d => decide (Selects appid d.appid ∧ Selects docid d.docid))
      fun d => { d with lastVersion := version } }

theorem updateDocMeta_eq (fits : ∀ d ∈ s.docs.rows, docMetaDAO.fits d = true) {ndv : DocVersion}
    (positive : 0 < ndv.version) :
    updateDocMeta ndv s = (.ok (), s.setLastVersion ndv.appid ndv.docid ndv.version) := by
  have selected : choseSelectedFieldsAsQueryClause docMetaDAO.fields
      { appid := ndv.appid, docid := ndv.docid, lastVersion := ndv.version } ["appid", "docid"] =
      fun d => decide (Selects ndv.appid d.appid ∧ Selects ndv.docid d.docid) := by
    funext d
    rw [Bool.eq_iff_iff, decide_eq_true_iff]
    exact updateDocMeta_clause
  have edit : getSetValuesClause docMetaDAO.fields
      { appid := ndv.appid, docid := ndv.docid, lastVersion := ndv.version } ["appid", "docid"] =
      fun d => { d with lastVersion := ndv.version } := by
    funext d
    rw [updateDocMeta_set, if_neg (by omega)]
  unfold updateDocMeta
  refine within_eq ?_
  unfold Action.attempt DocMetaDAO.update BaseDAO.updateObjectBy
  dsimp only
  rw [selected, edit, BaseDAO.updateRows_of_fits]
  · rfl
  · exact fun d member _ => fits d member

/-- The ways `createDocVersion` can end, where `version` is the next version of the document. -/
inductive Versioned (session : Session) (docid version : Int) (filename : Option Text) (size : Int)
    (s : Store) : Except Fault DocVersion → Store → Prop
  | refused (fault : Fault) (cause : filename = none ∨ 2147483647 < version) :
      Versioned session docid version filename size s (.error fault) s.issueKey
  | bare (fault : Fault) (name : Text) (given : filename = some name)
      (unfit : ¬NameFits filename name) :
      Versioned session docid version filename size s (.error fault)
        (s.issueKey.addVersion (bareVersion session docid version))
  | created (name : Text) (named : NameFits filename name) (small : version ≤ 2147483647) :
      Versioned session docid version filename size s
        (.ok { nextVersionRow session docid version name size s.newKey with id := s.versions.next })
        ((s.issueKey.addVersion
          (nextVersionRow session docid version name size s.newKey)).setLastVersion
            session.appid docid version)

theorem createDocVersion_ends (wf : Wf config s) {docid size : Int} :
    Ends (createDocVersion session docid filename size) s
      (Versioned session docid (DocVersionDAO.nextVersion session.appid docid s.versions)
        filename size s) := by
  obtain ⟨positive, -⟩ := @nextVersion_spec session.appid docid _
    fun row member => (wf.versionsPos row member).2
  unfold createDocVersion buildDocVersion
  refine ends_bind (ends_bind (ends_bind (ends_require ?_ fun absent => .refused _ (.inl absent))))
  intro name given
  refine ends_pure (ends_bind (ends_within ?_))
  refine (docVersion_create_ends wf.versionsNumbered rfl rfl rfl rfl).mono ?_
  rintro _ _ (⟨fault, rfl, large, rfl⟩ | ⟨fault, rfl, unfit, rfl⟩ | ⟨rfl, fits, small, rfl⟩)
  · exact .refused fault (.inr large)
  · refine .bare fault name given fun named => ?_
    have fits := (@fits_firstVersion session docid size name none .waiting).mpr named.2
    exact absurd (fits.symm.trans unfit) (by decide)
  · refine ends_bind (ends_of_eq (updateDocMeta_eq (s := s.issueKey.addVersion _) wf.docsFit positive)
      ?_)
    exact ends_pure (.created name
      ⟨given, (@fits_firstVersion session docid size name none .waiting).mp fits⟩ small)

/-! ## Every outcome leaves a well formed store -/

/-- A document was just added: it has a row, and nothing else names it. -/
structure NewDoc (config : Config) (session : Session) (docid : Int) (s : Store) : Prop where
  wf : Wf config s
  doc : ∃ d ∈ s.docs.rows, d.appid = session.appid ∧ d.docid = docid
  noVersion : s.NoVersion session.appid docid

theorem Wf.addDocRow (wf : Wf config s) {docid : Int} (isPub : Int)
    (noDoc : s.NoDoc session.appid docid) :
    NewDoc config session docid (s.addDoc (docRow session docid isPub)) where
  wf := wf.addDoc (fits_docRow session docid isPub) noDoc
  doc := ⟨_, List.mem_append_right _ (List.mem_singleton_self _), rfl, rfl⟩
  noVersion := wf.noVersion_of_noDoc noDoc

/-- The first version of a document that was just added. -/
theorem NewDoc.addFirstVersion {docid size : Int} (new : NewDoc config session docid s)
    {name : Text} (named : NameFits filename name)
    {storageKey : Option ObjectId} (issued : ∀ k, storageKey = some k → k.serial < s.mongo.issued)
    (status : UploadStatus) :
    Wf config (s.addVersion (firstVersion session docid name size storageKey status)) :=
  new.wf.addVersion (fits_firstVersion.mpr named.2) (fun _ => new.doc)
    ⟨session.appid_pos, Int.one_pos⟩
    (fun nonzero v member sameApp sameDoc => absurd sameDoc (new.noVersion nonzero v member sameApp))
    issued

theorem NewDoc.editRefs {docid : Int} (new : NewDoc config session docid s)
    (counted : DocRef → Bool) (edit : Int → Int) :
    NewDoc config session docid (s.editRefs counted edit) :=
  ⟨new.wf.editRefs counted edit, new.doc, new.noVersion⟩

theorem NewDoc.issueKey {docid : Int} (new : NewDoc config session docid s) :
    NewDoc config session docid s.issueKey :=
  ⟨new.wf.issueKey, new.doc, new.noVersion⟩

/-- A generated id is new to the chunk status rows and among the ids handed out. -/
structure NewUpload (config : Config) (session : Session) (docid : Int) (s : Store) : Prop extends
    NewDoc config session docid s where
  nonzero : docid ≠ 0
  statusFree : ∀ c ∈ s.chunkStatus.rows, c.appid = session.appid → c.docid ≠ docid
  issued : ∃ n < s.docids session.appid, config.nextID session.appid n = docid

theorem Wf.withNewDoc (wf : Wf config s) (isPub : Int)
    (noDoc : s.NoDoc session.appid (freshDocid config session s)) :
    NewUpload config session (freshDocid config session s) (withNewDoc config session isPub s) where
  toNewDoc := (wf.issueDocid session.appid).addDocRow isPub noDoc
  nonzero := Int.ne_of_gt (config.nextID_pos session.appid _)
  statusFree := wf.statusFree session
  issued := ⟨s.docids session.appid, by simp, rfl⟩

/-- The chunk status row of an upload, added in a state that differs from `s` elsewhere only. -/
theorem NewUpload.addStatus {docid : Int} (new : NewUpload config session docid s)
    (wf : Wf config s') (status : s'.chunkStatus = s.chunkStatus) (docids : s'.docids = s.docids)
    {c : DocChunkStatus} (fits : docChunkStatusDAO.fits c = true) (appid : c.appid = session.appid)
    (owner : c.docid = docid) (version : c.version = 1) : Wf config (s'.addStatus c) := by
  subst owner
  refine wf.addStatus fits ?_ version (appid ▸ session.appid_pos) ?_
  · rw [status, appid]
    exact new.statusFree
  · rw [docids, appid]
    exact new.issued

/-- The reference row of a new content, with the next storage key. -/
theorem Wf.addNewRef (wf : Wf config s) {md5 : Option Text} {size : Int}
    (row : ref = { md5 := md5, size := size, ref := 0, storageKey := some s.newKey })
    (fits : docRefDAO.fits ref = true) (free : ∀ r ∈ s.refs.rows, docRefDAO.clash ref r = false) :
    Wf config (s.issueKey.addRef ref) := by
  refine wf.issueKey.addRef fits free ?_
  rw [row]
  rintro k ⟨⟩
  exact Nat.lt_succ_self _

theorem Prepared.wf {docid : Int} {param : PrepareChunkUploadParam}
    (new : NewUpload config session docid s)
    (prepared : Prepared session docid param s r s') : Wf config s' := by
  have keys : ∀ {ref : DocRef}, DocRefDAO.read param.md5 param.size s.refs = some ref →
      ∀ k, ref.storageKey = some k → k.serial < s.mongo.issued :=
    fun read => new.wf.refKeys _ (docRef_read_some read).1
  cases prepared with
  | exceeded | foundFull | overflowed | resumedFault => exact new.wf
  | found ref name read positive named =>
    exact (new.editRefs _ _).addFirstVersion named (keys read) .complete
  | foundFault ref fault read => exact new.wf.editRefs _ _
  | resumedVersion ref name fault read zero named =>
    exact new.addFirstVersion named (keys read) .waiting
  | resumedStatus ref name fault read zero named fits =>
    exact new.addStatus (new.addFirstVersion named (keys read) .waiting) rfl rfl fits rfl rfl rfl
  | resumed ref name key read zero named stored fits =>
    exact new.addStatus (new.addFirstVersion named (stored ▸ keys read) .waiting) rfl rfl fits
      rfl rfl rfl
  | newKey => exact new.wf.issueKey
  | newRef fault ref read row fits free => exact new.wf.addNewRef row fits free
  | new ref name read row fits free named fitsStatus =>
    have newDoc : NewDoc config session docid (s.issueKey.addRef ref) :=
      ⟨new.wf.addNewRef row fits free, new.doc, new.noVersion⟩
    refine new.addStatus (newDoc.addFirstVersion named ?_ .waiting) rfl rfl fitsStatus rfl rfl rfl
    rintro k ⟨⟩
    exact Nat.lt_succ_self _

/-- `uploadChunk` works under the key of a version. -/
theorem Taken.mongoWf (wf : Wf config s) {saves : Saves} {cup : ExecuteChunkUploadParam}
    {ins : InputStream} {dv : DocVersion} {key : ObjectId} {dcs : DocChunkStatus}
    (taken : Taken session cup s dv key dcs) {r : Except Fault Unit} {m : Mongo}
    (upload : uploadChunk session saves cup ins dv key dcs s.mongo = (r, m)) :
    MongoWf m ∧ m.issued = s.mongo.issued := by
  obtain ⟨member, -⟩ := readLastVersion_some taken.last
  have issued : key.serial < s.mongo.issued := wf.versionKeys dv member key taken.stored
  have ends := @MongoWf.chunkedUpload s.mongo saves cup.index.toNat dcs.numOfChunk ins cup.length
    { filename := dv.filename, storageKey := key, docid := dv.docid, vid := dv.version,
      appid := session.appid, length := dcs.fileSize } dcs.chunkSize wf.mongo taken.fits issued
  exact ends.apply upload

theorem Written.wf (wf : Wf config s) {saves : Saves} {cup : ExecuteChunkUploadParam}
    {ins : InputStream}
    (written : Written session saves cup ins s r s') : Wf config s' := by
  cases written with
  | idle => exact wf
  | raised taken upload =>
    obtain ⟨mongo, issued⟩ := taken.mongoWf wf upload
    exact wf.withMongo mongo (Nat.le_of_eq issued.symm)
  | written taken upload below =>
    obtain ⟨mongo, issued⟩ := taken.mongoWf wf upload
    obtain ⟨member, -⟩ := docChunkStatus_read_some taken.read
    exact (wf.withMongo mongo (Nat.le_of_eq issued.symm)).replaceStatus member
      ((fits_recorded (wf.statusFit _ member) _).mpr below) rfl rfl rfl rfl

theorem Uploading.replaceStatus (wf : Wf config s) {docid : Int} {dv : DocVersion} {key : ObjectId}
    {dcs : DocChunkStatus} (rows : Uploading session docid s dv key dcs) {bitSet : Finset Nat}
    (below : ∀ i ∈ bitSet, i < mapLimit) :
    Wf config (s.replaceStatus dcs (dcs.updateChunkMap bitSet)) := by
  obtain ⟨member, -⟩ := docChunkStatus_read_some rows.read
  exact wf.replaceStatus member ((fits_updateChunkMap (wf.statusFit _ member) _).mpr below)
    rfl rfl rfl rfl

theorem Finished.wf (wf : Wf config s) {docid : Int}
    (finished : Finished session docid s r s') : Wf config s' := by
  cases finished with
  | raised => exact wf
  | needMore rows below => exact rows.replaceStatus wf below
  | completed rows below => exact ((rows.replaceStatus wf below).complete _ _ _).editRefs _ _
  | uncounted fault rows below => exact (rows.replaceStatus wf below).complete _ _ _

theorem Referred.wf (wf : Wf config s) {clb : ClbMeta} {r : Except Fault Unit}
    (referred : Referred session clb s r s') : Wf config s' := by
  cases referred with
  | taken => exact wf
  | unknown fault noDoc => exact (wf.addDocRow 0 noDoc).wf
  | counted fault ref noDoc => exact (wf.addDocRow 0 noDoc).wf.editRefs _ _
  | referred ref name noDoc read named =>
    exact ((wf.addDocRow 0 noDoc).editRefs _ _).addFirstVersion named
      (wf.refKeys ref (docRef_read_some read).1) .complete

theorem Wf.setLastVersion (wf : Wf config s) (appid docid version : Int) :
    Wf config (s.setLastVersion appid docid version) :=
  wf.updateDocs (fun _ => rfl) (fun _ fits => fits) fun _ => rfl

theorem Versioned.wf (wf : Wf config s) {docid size : Int} {r : Except Fault DocVersion}
    (doc : docid ≠ 0 → ∃ d ∈ s.docs.rows, d.appid = session.appid ∧ d.docid = docid)
    (versioned : Versioned session docid (DocVersionDAO.nextVersion session.appid docid s.versions)
      filename size s r s') : Wf config s' := by
  obtain ⟨positive, above⟩ := @nextVersion_spec session.appid docid _
    fun row member => (wf.versionsPos row member).2
  have fresh : ∀ v ∈ s.versions.rows, v.appid = session.appid → v.docid = docid →
      v.version ≠ DocVersionDAO.nextVersion session.appid docid s.versions :=
    fun v member sameApp sameDoc => Int.ne_of_lt (above v member sameApp sameDoc)
  cases versioned with
  | refused => exact wf.issueKey
  | bare =>
    exact wf.issueKey.addVersion rfl doc ⟨session.appid_pos, positive⟩ (fun _ => fresh) nofun
  | created name named =>
    have fits : docVersionDAO.fits (nextVersionRow session docid
        (DocVersionDAO.nextVersion session.appid docid s.versions) name size s.newKey) = true :=
      (@fits_firstVersion session docid size name none .waiting).mpr named.2
    refine (wf.issueKey.addVersion fits doc ⟨session.appid_pos, positive⟩
      (fun _ => fresh) ?_).setLastVersion _ _ _
    rintro k ⟨⟩
    exact Nat.lt_succ_self _

end Clb
