/-
# Document.Lookup -- the document that a hash is looked up to

`queryClbidForMd5` answers with the document of a version that carries the storage key of the reference
row for a digest and a size. The query names neither an application nor a status, and orders the rows
by version only. In every reachable state the versions that share the key of a reference row are first
versions (`Reachable.sharedFirst`), so the order does not tell them apart: the answer may be the
document of any of them (`lookup_usable_iff`). -/
import Clb.Document.VersionRows
import Clb.Document.Dedup

set_option autoImplicit false

namespace Clb

open Clb.Lib Clb.Dao Clb.Lib.Action DocumentFacade Handlers

variable {resource : Resource} {r : Except Fault UpdateInfo}
variable {config : Config} {session : Session} {s s' : Store}

/-- A way in which the database may order rows by version, the latest first. Rows of one version come in
any order. -/
def OrdersByVersion (order : List DocVersion → List DocVersion) : Prop :=
  ∀ rows, (order rows).Perm rows ∧ (order rows).Pairwise fun v w => w.version ≤ v.version

/-- `DocVersionDAO.read(storageKey)`. -/
def readByStorageKey (order : List DocVersion → List DocVersion) (storageKey : Option ObjectId)
    (table : Table DocVersion) : Option DocVersion :=
  (order (docVersionDAO.findByProperties { storageKey } table)).head?

/-- `DocumentFacade.queryClbidForMd5`. -/
def queryClbidForMd5 (order : List DocVersion → List DocVersion) (md5 : Option Text) (size : Int)
    (s : Store) : Option Int :=
  match DocRefDAO.read md5 size s.refs with
  | some ref =>
    if 0 < ref.ref then
      (readByStorageKey order ref.storageKey s.versions).map (·.docid)
    else
      none
  | none => none

/-! ## Versions that share a key with a reference row -/

/-- A version with the storage key of a reference row is the first one of its document. -/
def SharedFirst (s : Store) : Prop :=
  ∀ v ∈ s.versions.rows, ∀ r ∈ s.refs.rows, ∀ k, v.storageKey = some k → r.storageKey = some k →
    v.version = 1

namespace SharedFirst

theorem empty : SharedFirst Store.empty := by
  intro v member
  cases member

/-- No version and no reference was added. -/
theorem mono (shared : SharedFirst s) (versions : ∀ v ∈ s'.versions.rows, v ∈ s.versions.rows)
    (refs : s'.refs = s.refs) : SharedFirst s' := by
  intro v member r memberR
  rw [refs] at memberR
  exact shared v (versions v member) r memberR

theorem addVersion (shared : SharedFirst s) {v : DocVersion}
    (first : ∀ r ∈ s.refs.rows, ∀ k, v.storageKey = some k → r.storageKey = some k → v.version = 1) :
    SharedFirst (s.addVersion v) :=
  Table.forall_mem_insert shared first

theorem addFirst (shared : SharedFirst s) {docid size : Int} {name : Text}
    {storageKey : Option ObjectId} {status : UploadStatus} :
    SharedFirst (s.addVersion (firstVersion session docid name size storageKey status)) :=
  shared.addVersion fun _ _ _ _ _ => rfl

theorem addRef (shared : SharedFirst s) {ref : DocRef}
    (unused : ∀ v ∈ s.versions.rows, ∀ k, v.storageKey = some k → ref.storageKey ≠ some k) :
    SharedFirst (s.addRef ref) := fun v member =>
  Table.forall_mem_insert (shared v member) fun k used same => absurd same (unused v member k used)

theorem editRefs (shared : SharedFirst s) (counted : DocRef → Bool) (edit : Int → Int) :
    SharedFirst (s.editRefs counted edit) := fun v member =>
  Table.forall_mem_update (shared v member) fun _ _ first => first

theorem complete (shared : SharedFirst s) (appid docid version : Int) :
    SharedFirst (s.complete appid docid version) :=
  Table.forall_mem_update shared fun _ _ first => first

end SharedFirst

theorem Wf.newKey_free (wf : Wf config s) :
    (∀ v ∈ s.versions.rows, v.storageKey ≠ some s.newKey) ∧
      ∀ r ∈ s.refs.rows, r.storageKey ≠ some s.newKey :=
  ⟨fun v member used => Nat.lt_irrefl _ (wf.versionKeys v member _ used),
    fun r member used => Nat.lt_irrefl _ (wf.refKeys r member _ used)⟩

theorem Advanced.sharedFirst {dv : DocVersion} {docid : Int}
    {after : Act Unit} (shared : SharedFirst s)
    (after_shared : ∀ s, SharedFirst s → SharedFirst (after s).2)
    (advanced : Advanced session resource dv docid after s r s') : SharedFirst s' := by
  have stored : ∀ {name mf r s'}, Saved resource name mf s r s' → SharedFirst s' := by
    intro name mf r s' saved
    exact shared.mono (fun v member => saved.tables.2.1 ▸ member) saved.tables.2.2.1
  cases advanced with
  | unsaved => exact shared
  | broken fault named key saved => exact stored saved
  | done named key saved => exact after_shared _ ((stored saved).complete _ _ _)

theorem Waiting.sharedFirst {isPub : Int} {r : Except Fault DocVersion}
    (shared : SharedFirst s) (waiting : Waiting config session isPub resource s r s') :
    SharedFirst s' := by
  cases waiting with
  | refused | unnamed => exact shared
  | waiting => exact SharedFirst.addFirst (s := (withNewDoc config session isPub s).issueKey) shared

theorem Versioned.sharedFirst (wf : Wf config s) (shared : SharedFirst s) {docid version size : Int}
    {filename : Option Text} {r : Except Fault DocVersion}
    (versioned : Versioned session docid version filename size s r s') : SharedFirst s' := by
  cases versioned with
  | refused => exact shared
  | bare => exact SharedFirst.addVersion (s := s.issueKey) shared fun _ _ _ key => nomatch key
  | created =>
    refine SharedFirst.addVersion (s := s.issueKey) shared fun r member k key used => ?_
    obtain rfl : s.newKey = k := Option.some.inj key
    exact absurd used (wf.newKey_free.2 r member)

theorem Created.sharedFirst {isPub : Int} {after : DocVersion → Act Unit} (shared : SharedFirst s)
    (after_shared : ∀ dv s, SharedFirst s → SharedFirst (after dv s).2)
    (created : Created config session isPub resource after s r s') : SharedFirst s' := by
  cases created with
  | readonly => exact shared
  | refused fault waiting => exact waiting.sharedFirst shared
  | advanced waiting advanced => exact advanced.sharedFirst (waiting.sharedFirst shared) (after_shared _)

theorem JsonCreated.sharedFirst {clbid isPub : Int} (shared : SharedFirst s)
    (created : JsonCreated config session clbid isPub resource s r s') : SharedFirst s' := by
  have counted : ∀ dv s, SharedFirst s → SharedFirst (countKey dv s).2 := fun dv s shared =>
    countKey_keeps dv s fun _ => shared.editRefs _ _
  cases created with
  | refused => exact shared
  | created zero created => exact created.sharedFirst shared counted
  | advanced nonzero last advanced => exact advanced.sharedFirst shared (counted _)

theorem Updated.sharedFirst (wf : Wf config s) (shared : SharedFirst s) {docid : Int}
    (updated : Updated session docid resource s r s') : SharedFirst s' := by
  cases updated with
  | refused => exact shared
  | unversioned fault read versioned => exact versioned.sharedFirst wf shared
  | advanced read permitted versioned advanced =>
    exact advanced.sharedFirst (versioned.sharedFirst wf shared) fun _ shared => shared

theorem Entered.sharedFirst (wf : Wf config s) (shared : SharedFirst s) {isPub : Int} {name : Text}
    (entered : Entered config session isPub name resource s r s') : SharedFirst s' := by
  cases entered with
  | refused => exact shared
  | unversioned fault noDoc versioned =>
    exact versioned.sharedFirst (wf.withNewDoc isPub noDoc).wf shared
  | saved noDoc versioned saved =>
    have versions := versioned.sharedFirst (wf.withNewDoc isPub noDoc).wf shared
    rcases saved with ⟨-, rfl⟩ | ⟨title, key, -, -, saved⟩
    · exact versions
    · exact versions.mono (fun v member => saved.tables.2.1 ▸ member) saved.tables.2.2.1

theorem Referred.sharedFirst (shared : SharedFirst s) {clb : ClbMeta} {r : Except Fault Unit}
    (referred : Referred session clb s r s') : SharedFirst s' := by
  cases referred with
  | taken | unknown => exact shared
  | counted => exact shared.editRefs _ _
  | referred => exact (shared.editRefs _ _).addFirst

theorem Prepared.sharedFirst (wf : Wf config s) (shared : SharedFirst s) {docid : Int}
    {param : PrepareChunkUploadParam} {r : Except Fault ChunkResponse}
    (prepared : Prepared session docid param s r s') : SharedFirst s' := by
  have keyed : ∀ ref : DocRef, ref.storageKey = some s.newKey → SharedFirst (s.issueKey.addRef ref) := by
    intro ref key
    refine SharedFirst.addRef (s := s.issueKey) shared fun v member k used same => ?_
    rw [key] at same
    exact wf.newKey_free.1 v member (used.trans same.symm)
  cases prepared with
  | exceeded | foundFull | overflowed | resumedFault | newKey => exact shared
  | found => exact (shared.editRefs _ _).addFirst
  | foundFault => exact shared.editRefs _ _
  | resumedVersion | resumedStatus | resumed => exact shared.addFirst
  | newRef fault ref read row => exact keyed ref (by rw [row])
  | new ref name read row => exact (keyed ref (by rw [row])).addFirst

/-- **One request keeps the shared versions first.** -/
theorem exec_sharedFirst (request : Request) (wf : Wf config s) (shared : SharedFirst s) :
    SharedFirst (exec config request s) := by
  have removed : ∀ removal : Removal, SharedFirst (removal.after s) := fun removal =>
    shared.mono (fun v member => (((removal.after_spec wf).2 v).mp member).1) (removal.after_frame wf).1
  obtain ⟨session, call⟩ := request
  cases call with
  | prepareUpload param =>
    change Ends (prepareUpload config session param) s fun _ s' => SharedFirst s'
    refine (prepareUpload_ends wf).mono ?_
    rintro _ _ (⟨fault, -, rfl⟩ | ⟨noDoc, prepared⟩)
    · exact shared
    · exact prepared.sharedFirst (wf.withNewDoc 0 noDoc).wf shared
  | writeChunkData saves cup ins =>
    change Ends (writeChunkData session saves cup ins) s fun _ s' => SharedFirst s'
    refine (writeChunkData_ends wf).mono fun _ _ written => ?_
    cases written with
    | idle | raised | written => exact shared
  | finishUpload docid =>
    change Ends (finishUpload session docid) s fun _ s' => SharedFirst s'
    refine (finishUpload_ends wf).mono fun _ _ finished => ?_
    cases finished with
    | raised | needMore => exact shared
    | completed => exact (SharedFirst.complete (s := s.replaceStatus _ _) shared _ _ _).editRefs _ _
    | uncounted => exact SharedFirst.complete (s := s.replaceStatus _ _) shared _ _ _
  | createClbRef clb => exact Referred.sharedFirst shared (createClbRef_ends wf)
  | createDoc isPub resource =>
    exact Created.sharedFirst shared (fun _ _ shared => shared) (createDoc_ends wf)
  | createDocForJson clbid isPub resource =>
    exact JsonCreated.sharedFirst shared (createDocForJson_ends wf)
  | createMultiDocs isPub entries =>
    exact (createMultiDocs_ends wf shared fun _ _ _ wf shared _ _ entered =>
      entered.sharedFirst wf shared).2
  | updateDoc docid resource => exact Updated.sharedFirst wf shared (updateDoc_ends wf)
  | removeDoc docid =>
    change Ends (removeDoc session docid) s fun _ s' => SharedFirst s'
    refine removeDoc_ends.mono ?_
    rintro _ _ (rfl | rfl)
    · exact shared
    · exact removed (.document session.appid docid)
  | removeVersion dp =>
    change Ends (removeVersion session dp) s fun _ s' => SharedFirst s'
    refine removeVersion_ends.mono ?_
    rintro _ _ (rfl | ⟨p, dv, converted, read, rfl⟩)
    · exact shared
    · exact removed (.version dv)

theorem Reachable.sharedFirst (reachable : Reachable config s) : SharedFirst s :=
  reachable.invariant .empty fun request _ _ => exec_sharedFirst request

/-! ## The answer -/

theorem docVersionKey_clause {k : ObjectId} {row : DocVersion} :
    choseAllFieldsAsQueryClause docVersionDAO.fields { storageKey := some k } row = true ↔
      row.storageKey = some k := by
  rw [choseAllFieldsAsQueryClause_iff]
  cases stored : row.storageKey <;>
    simp [docVersionDAO, number, text, key, isUninitField, stored]

theorem mem_findByStorageKey {k : ObjectId} {table : Table DocVersion} {row : DocVersion} :
    row ∈ docVersionDAO.findByProperties { storageKey := some k } table ↔
      row ∈ table.rows ∧ row.storageKey = some k := by
  unfold BaseDAO.findByProperties
  rw [List.mem_filter]
  exact and_congr_right fun _ => docVersionKey_clause

theorem ordersByVersion_orderByVersionDesc : OrdersByVersion orderByVersionDesc := by
  intro rows
  have : Std.Total fun v w : DocVersion => w.version ≤ v.version :=
    ⟨fun v w => Int.le_total w.version v.version⟩
  have : IsTrans DocVersion fun v w => w.version ≤ v.version :=
    ⟨fun _ _ _ first second => Int.le_trans second first⟩
  exact ⟨List.perm_insertionSort _ _, List.pairwise_insertionSort _ _⟩

/-- The order of `orderByVersionDesc`, but for one row that comes first where it may. -/
def leading (v : DocVersion) (rows : List DocVersion) : List DocVersion :=
  if v ∈ rows ∧ ∀ w ∈ rows, w.version ≤ v.version then v :: orderByVersionDesc (rows.erase v)
  else orderByVersionDesc rows

theorem ordersByVersion_leading (v : DocVersion) : OrdersByVersion (leading v) := by
  intro rows
  unfold leading
  split
  · rename_i may
    obtain ⟨perm, sorted⟩ := ordersByVersion_orderByVersionDesc (rows.erase v)
    refine ⟨(perm.cons v).trans (List.perm_cons_erase may.1).symm, List.pairwise_cons.mpr ⟨?_, sorted⟩⟩
    intro w member
    exact may.2 w (List.mem_of_mem_erase (perm.mem_iff.mp member))
  · exact ordersByVersion_orderByVersionDesc rows

/-- The application has the document, with a complete version under the storage key. -/
def Usable (appid docid : Int) (storageKey : Option ObjectId) (s : Store) : Prop :=
  (∃ d ∈ s.docs.rows, d.appid = appid ∧ d.docid = docid) ∧
    ∃ v ∈ s.versions.rows, v.appid = appid ∧ v.docid = docid ∧ v.storageKey = storageKey ∧
      v.uploadStatus = some .complete

/-- Whatever document the lookup answers with, the application can use it. -/
def LooksUpUsable (appid : Int) (md5 : Option Text) (size : Int) (s : Store) : Prop :=
  ∀ order, OrdersByVersion order → ∀ docid, queryClbidForMd5 order md5 size s = some docid →
    ∃ ref, DocRefDAO.read md5 size s.refs = some ref ∧ Usable appid docid ref.storageKey s

/-- **When a lookup by hash names a usable document.** -/
theorem lookup_usable_iff (reachable : Reachable config s) (appid : Int) (md5 : Option Text)
    (size : Int) :
    LooksUpUsable appid md5 size s ↔
      ∀ ref, DocRefDAO.read md5 size s.refs = some ref → 0 < ref.ref →
        ∀ v ∈ s.versions.rows, v.storageKey = ref.storageKey →
          Usable appid v.docid ref.storageKey s := by
  have keyed : ∀ {ref}, DocRefDAO.read md5 size s.refs = some ref → ∃ k, ref.storageKey = some k := by
    intro ref read
    have fits := reachable.wf.refsFit ref (docRef_read_some read).1
    simp only [docRefDAO, Bool.and_eq_true] at fits
    exact Option.isSome_iff_exists.mp fits.2
  have first : ∀ {ref k}, DocRefDAO.read md5 size s.refs = some ref → ref.storageKey = some k →
      ∀ v ∈ docVersionDAO.findByProperties { storageKey := some k } s.versions, v.version = 1 := by
    intro ref k read stored v found
    obtain ⟨member, same⟩ := mem_findByStorageKey.mp found
    exact reachable.sharedFirst v member ref (docRef_read_some read).1 k same stored
  constructor
  · intro usable ref read counted v member shared
    obtain ⟨k, stored⟩ := keyed read
    have found := mem_findByStorageKey.mpr ⟨member, shared.trans stored⟩
    -- all candidates are first versions, so the database may put this one in front
    have may : v ∈ docVersionDAO.findByProperties { storageKey := some k } s.versions ∧
        ∀ w ∈ docVersionDAO.findByProperties { storageKey := some k } s.versions,
          w.version ≤ v.version :=
      ⟨found, fun w found' => by rw [first read stored w found', first read stored v found]⟩
    have answer : queryClbidForMd5 (leading v) md5 size s = some v.docid := by
      unfold queryClbidForMd5 readByStorageKey leading
      rw [read]
      dsimp only
      rw [if_pos counted, stored, if_pos may]
      rfl
    obtain ⟨ref', read', holds⟩ := usable _ (ordersByVersion_leading v) _ answer
    rwa [Option.some.inj (read.symm.trans read')]
  · intro all order orders docid answer
    unfold queryClbidForMd5 at answer
    split at answer
    · rename_i ref read
      refine ⟨ref, read, ?_⟩
      rw [Option.ite_none_right_eq_some] at answer
      obtain ⟨counted, answer⟩ := answer
      obtain ⟨v, head, rfl⟩ := Option.map_eq_some_iff.mp answer
      obtain ⟨k, stored⟩ := keyed read
      unfold readByStorageKey at head
      rw [stored] at head
      have found := (orders _).1.mem_iff.mp (List.mem_of_head? head)
      obtain ⟨member, shared⟩ := mem_findByStorageKey.mp found
      exact all ref read counted v member (shared.trans stored.symm)
    · cases answer

/-- The application that uploaded a file looks it up. -/
theorem lookup_usable_iff_uploader :
    Reachable countingConfig (storeAfter finishedUpload) ∧
      LooksUpUsable 1 oneByte.md5 1 (storeAfter finishedUpload) := by
  refine ⟨reachable_storeAfter _,
    (lookup_usable_iff (reachable_storeAfter finishedUpload) 1 oneByte.md5 1).mpr ?_⟩
  intro ref read counted v member shared
  have own : ∀ r ∈ (storeAfter finishedUpload).refs.rows, ∀ v ∈ (storeAfter finishedUpload).versions.rows,
      Usable 1 v.docid r.storageKey (storeAfter finishedUpload) := by
    unfold Usable
    decide +kernel
  exact own ref (docRef_read_some read).1 v member

/-- Another application is told the document of the first one, which it does not have. -/
theorem unusable_answer :
    Reachable countingConfig (storeAfter finishedUpload) ∧
      queryClbidForMd5 orderByVersionDesc oneByte.md5 1 (storeAfter finishedUpload) = some 1 ∧
      (∀ d ∈ (storeAfter finishedUpload).docs.rows, d.appid ≠ 2) ∧
      ¬LooksUpUsable 2 oneByte.md5 1 (storeAfter finishedUpload) := by
  have answer : queryClbidForMd5 orderByVersionDesc oneByte.md5 1 (storeAfter finishedUpload) = some 1 := by
    decide +kernel
  have none_ : ∀ d ∈ (storeAfter finishedUpload).docs.rows, d.appid ≠ 2 := by decide +kernel
  refine ⟨reachable_storeAfter _, answer, none_, fun usable => ?_⟩
  obtain ⟨ref, -, ⟨d, member, other, -⟩, -⟩ :=
    usable orderByVersionDesc ordersByVersion_orderByVersionDesc 1 answer
  exact none_ d member other

end Clb
