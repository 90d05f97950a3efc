/-
# Document.OneFile -- one fs.files entry for each storage key

Content written at once gets an entry with an _id of its own, content written in chunks one whose _id
is the storage key, and neither looks for an entry that is there. Keys are handed out once, so two
entries of a key come only from a create request that names an existing document, or from chunks for
a key whose content was written at once. `one_file_per_key` says that without these there is at most
one entry for each key, and `readFile` finds it. -/
import Clb.Document.System

set_option autoImplicit false

namespace Clb

open Clb.Lib Clb.Dao Clb.Lib.Action DocumentFacade Handlers MongoStorageService

variable {dv : DocVersion} {s' : Store} {resource : Resource} {r : Except Fault UpdateInfo}

variable {config : Config} {session : Session} {s : Store} {docid : Int}

/-- No two entries have the same storage key. -/
def OneFile (m : Mongo) : Prop :=
  ∀ f ∈ m.files, ∀ g ∈ m.files, f.storageKey = g.storageKey → f = g

/-- A key without an entry. -/
def NoFile (key : ObjectId) (m : Mongo) : Prop := ∀ f ∈ m.files, f.storageKey ≠ key

namespace OneFile

variable {m m' : Mongo}

theorem of_subset (one : OneFile m) (subset : ∀ f ∈ m'.files, f ∈ m.files) : OneFile m' :=
  fun f memberF g memberG => one f (subset f memberF) g (subset g memberG)

/-- An entry for a key that has none. -/
theorem add (one : OneFile m) (new : GridFSFile) (noFile : NoFile new.storageKey m)
    (added : ∀ f ∈ m'.files, f ∈ m.files ∨ f = new) : OneFile m' := by
  intro f memberF g memberG same
  rcases added f memberF with oldF | rfl
  · rcases added g memberG with oldG | rfl
    · exact one f oldF g oldG same
    · exact absurd same (noFile f oldF)
  · rcases added g memberG with oldG | rfl
    · exact absurd same.symm (noFile g oldG)
    · rfl

theorem driven (one : OneFile m) {mf : MFile} {bytes : Bytes} {r : Except Fault Unit}
    (noFile : NoFile mf.storageKey m) (wrote : Driven mf bytes m r m') : OneFile m' :=
  one.add (driverFile mf ⟨m.issued⟩ bytes) noFile fun _ => wrote.mem_files

/-- The entry of an upload in chunks takes the place of an earlier one. -/
theorem putFile (one : OneFile m) {new : GridFSFile}
    (own : ∀ f ∈ m.files, f.storageKey = new.storageKey → f.id = new.id) : OneFile (m.putFile new) := by
  intro f memberF g memberG same
  rcases Mongo.mem_putFile memberF with rfl | ⟨oldF, otherF⟩
  · rcases Mongo.mem_putFile memberG with rfl | ⟨oldG, otherG⟩
    · rfl
    · exact absurd (own g oldG same.symm) otherG
  · rcases Mongo.mem_putFile memberG with rfl | ⟨oldG, otherG⟩
    · exact absurd (own f oldF same) otherF
    · exact one f oldF g oldG same

theorem chunkedUpload (one : OneFile m) {saves : Saves} {chunkIndex : Nat} {chunkCount : Int}
    {data : InputStream} {dataLength : Int} {mf : MFile} {chunkSize : Int}
    (fits : dataLength ≤ chunkSize)
    (own : ∀ f ∈ m.files, f.storageKey = mf.storageKey → f.id = f.storageKey) :
    Ends (chunkedUpload saves chunkIndex chunkCount data dataLength mf chunkSize) m
      fun _ m' => OneFile m' := by
  have added : ∀ m₁, Adds mf.storageKey chunkIndex dataLength m m₁ → m₁.files = m.files := by
    rintro m₁ (rfl | ⟨bytes, -, -, -, rfl⟩)
    · rfl
    · rfl
  refine (chunkedUpload_ends fits).mono ?_
  rintro _ m' (adds | ⟨-, -, m₁, adds, rfl⟩)
  · exact one.of_subset fun f member => added m' adds ▸ member
  · refine (one.of_subset fun f member => added m₁ adds ▸ member).putFile fun f member owner => ?_
    rw [added m₁ adds] at member
    exact (own f member owner).trans owner

theorem deleteKeys (one : OneFile m) (keys : List ObjectId) : OneFile (deleteKeys keys m) := by
  induction keys generalizing m with
  | nil => exact one
  | cons key keys ih => exact ih (one.of_subset fun f => List.mem_of_mem_filter)

end OneFile

/-! ## The calls -/

theorem Saved.oneFile {name : Text} {mf : MFile} {r : Except Fault Unit}
    (one : OneFile s.mongo) (noFile : NoFile mf.storageKey s.mongo)
    (saved : Saved resource name mf s r s') : OneFile s'.mongo := by
  cases saved with
  | skipped | spoiled => exact one
  | driven opened temp wrote => exact one.driven noFile wrote

theorem Advanced.oneFile {after : Act Unit} (one : OneFile s.mongo)
    (noFile : ∀ key, dv.storageKey = some key → NoFile key s.mongo)
    (after_mongo : ∀ s, (after s).2.mongo = s.mongo)
    (advanced : Advanced session resource dv docid after s r s') : OneFile s'.mongo := by
  cases advanced with
  | unsaved => exact one
  | broken fault named stored saved => exact saved.oneFile one (noFile _ stored)
  | done named stored saved =>
    have kept := saved.oneFile one (noFile _ stored)
    rw [after_mongo]
    exact kept

/-- A version that waits for its content has a key without an entry. -/
theorem Waiting.noFile (wf : Wf config s) {isPub : Int}
    (waiting : Waiting config session isPub resource s (.ok dv) s') :
    s'.mongo.files = s.mongo.files ∧ ∀ key, dv.storageKey = some key → NoFile key s.mongo := by
  cases waiting with
  | waiting name noDoc named =>
    refine ⟨rfl, ?_⟩
    rintro _ ⟨⟩
    exact wf.newKey_unused.2

theorem Versioned.files {version size : Int} {filename : Option Text} {r : Except Fault DocVersion}
    (versioned : Versioned session docid version filename size s r s') :
    s'.mongo.files = s.mongo.files := by
  cases versioned with
  | refused | bare | created => rfl

theorem Versioned.noFile (wf : Wf config s) {version size : Int} {filename : Option Text}
    (versioned : Versioned session docid version filename size s (.ok dv) s') {key : ObjectId}
    (stored : dv.storageKey = some key) : NoFile key s.mongo := by
  cases versioned with
  | created name named small =>
    obtain rfl := Option.some.inj stored
    exact wf.newKey_unused.2

/-! ## Runs -/

/-- The calls that add no second entry: a create request that names a document is for a version whose
key has no entry, and a piece that is passed on to the storage is for a key whose entries, if any, were
written by an upload in chunks. -/
def keepsOneFile (request : Request) (s : Store) : Prop :=
  match request.call with
  | .writeChunkData _ cup _ => ∀ dv key dcs, Taken request.session cup s dv key dcs →
      ∀ f ∈ s.mongo.files, f.storageKey = key → f.id = f.storageKey
  | .createDocForJson clbid _ _ => clbid ≠ 0 → ∀ dv key,
      DocVersionDAO.readLastVersion request.session.appid clbid s.versions = some dv →
      dv.storageKey = some key → NoFile key s.mongo
  | _ => True

theorem Created.oneFile (wf : Wf config s) {isPub : Int} {after : DocVersion → Act Unit}
    (one : OneFile s.mongo) (after_mongo : ∀ dv s, (after dv s).2.mongo = s.mongo)
    (created : Created config session isPub resource after s r s') : OneFile s'.mongo := by
  cases created with
  | readonly => exact one
  | refused fault waiting =>
    cases waiting with
    | refused | unnamed => exact one
  | advanced waiting advanced =>
    obtain ⟨files, noFile⟩ := waiting.noFile wf
    refine advanced.oneFile (one.of_subset fun f member => files ▸ member) (fun key stored => ?_)
      (after_mongo _)
    exact fun f member => noFile key stored f (files ▸ member)

theorem Updated.oneFile (wf : Wf config s)
    (one : OneFile s.mongo) (updated : Updated session docid resource s r s') :
    OneFile s'.mongo := by
  cases updated with
  | refused => exact one
  | unversioned fault read versioned =>
    exact one.of_subset fun f member => versioned.files ▸ member
  | advanced read permitted versioned advanced =>
    refine advanced.oneFile (one.of_subset fun f member => versioned.files ▸ member)
      (fun key stored f member => ?_) fun _ => rfl
    exact versioned.noFile wf stored f (versioned.files ▸ member)

theorem Entered.oneFile (wf : Wf config s) {isPub : Int} {name : Text} (one : OneFile s.mongo)
    (entered : Entered config session isPub name resource s r s') : OneFile s'.mongo := by
  cases entered with
  | refused => exact one
  | unversioned fault noDoc versioned =>
    exact one.of_subset fun f member => versioned.files ▸ member
  | saved noDoc versioned saved =>
    have one₁ := one.of_subset fun f member => versioned.files ▸ member
    rcases saved with ⟨-, rfl⟩ | ⟨title, key, -, stored, saved⟩
    · exact one₁
    · refine saved.oneFile one₁ fun f member => ?_
      exact versioned.noFile (wf.withNewDoc isPub noDoc).wf stored f (versioned.files ▸ member)

/-- **One call adds no second entry.** -/
theorem exec_oneFile {request : Request} (keeps : keepsOneFile request s) (wf : Wf config s)
    (one : OneFile s.mongo) : OneFile (exec config request s).mongo := by
  obtain ⟨session, call⟩ := request
  cases call with
  | prepareUpload param =>
    change Ends (prepareUpload config session param) s fun _ s' => OneFile s'.mongo
    refine (prepareUpload_ends wf).mono ?_
    rintro _ _ (⟨fault, -, rfl⟩ | ⟨noDoc, prepared⟩)
    · exact one
    · cases prepared <;> exact one
  | writeChunkData saves cup ins =>
    change Ends (writeChunkData session saves cup ins) s fun _ s' => OneFile s'.mongo
    refine (writeChunkData_ends wf).mono fun _ _ written => ?_
    cases written with
    | idle => exact one
    | raised taken upload => exact (one.chunkedUpload taken.fits (keeps _ _ _ taken)).apply upload
    | written taken upload => exact (one.chunkedUpload taken.fits (keeps _ _ _ taken)).apply upload
  | finishUpload docid =>
    change Ends (finishUpload session docid) s fun _ s' => OneFile s'.mongo
    refine (finishUpload_ends wf).mono fun _ _ finished => ?_
    cases finished with
    | raised | needMore | completed | uncounted => exact one
  | createClbRef clb =>
    change Ends (createClbRef session clb) s fun _ s' => OneFile s'.mongo
    refine (createClbRef_ends wf).mono fun _ _ referred => ?_
    cases referred with
    | taken | unknown | counted | referred => exact one
  | createDoc isPub resource => exact Created.oneFile wf one (fun _ _ => rfl) (createDoc_ends wf)
  | createDocForJson clbid isPub resource =>
    change Ends (createDocForJson config session clbid isPub resource) s fun _ s' => OneFile s'.mongo
    have counted : ∀ dv s, (countKey dv s).2.mongo = s.mongo := fun _ _ => rfl
    refine (createDocForJson_ends wf).mono fun _ _ created => ?_
    cases created with
    | refused => exact one
    | created zero created => exact created.oneFile wf one counted
    | advanced nonzero last advanced =>
      exact advanced.oneFile one (fun key => keeps nonzero _ key last) (counted _)
  | createMultiDocs isPub entries =>
    exact (@createMultiDocs_ends _ _ _ (fun s => OneFile s.mongo) _ _ wf one
      fun _ _ _ wf one _ _ entered => entered.oneFile wf one).2
  | updateDoc docid resource => exact Updated.oneFile wf one (updateDoc_ends wf)
  | removeDoc docid =>
    change Ends (removeDoc session docid) s fun _ s' => OneFile s'.mongo
    refine removeDoc_ends.mono ?_
    rintro _ _ (rfl | rfl)
    · exact one
    · rw [removeDocument_eq]
      dsimp only
      split
      · exact one.deleteKeys _
      · exact one.deleteKeys _
  | removeVersion dp =>
    change Ends (removeVersion session dp) s fun _ s' => OneFile s'.mongo
    refine removeVersion_ends.mono ?_
    rintro _ _ (rfl | ⟨p, dv, -, -, rfl⟩)
    · exact one
    · rw [removeDocVersion_eq wf]
      split
      · exact one
      · rename_i key stored
        obtain ⟨docs, same⟩ := Store.follow_eq dv.appid dv.docid
          ({ s with mongo := deleteMetaAndContent key s.mongo }.deleteVersions dv.appid dv.docid
            dv.version)
        rw [same]
        exact one.of_subset fun f => List.mem_of_mem_filter

/-- **One file for each storage key.** In every state of a run of such calls there is at most one
entry for each storage key, and `readFile` returns it. -/
theorem one_file_per_key (run : ReachableUnder config keepsOneFile s) (key : ObjectId) :
    (s.mongo.files.filter fun f => f.storageKey == key).length ≤ 1 ∧
      ∀ f ∈ s.mongo.files, f.storageKey = key → s.mongo.readFile key = some f := by
  have one : OneFile s.mongo :=
    @ReachableUnder.invariant _ _ _ (fun s => OneFile s.mongo) run
      (fun _ member => absurd member List.not_mem_nil) fun _ _ => exec_oneFile
  constructor
  · have distinct := (List.Nodup.of_map _ run.wf.mongo.filesDistinct).filter
      fun f => f.storageKey == key
    have equal : ∀ f ∈ s.mongo.files.filter fun f => f.storageKey == key,
        ∀ g ∈ s.mongo.files.filter fun f => f.storageKey == key, f = g := by
      intro f memberF g memberG
      obtain ⟨insideF, ownerF⟩ := List.mem_filter.mp memberF
      obtain ⟨insideG, ownerG⟩ := List.mem_filter.mp memberG
      exact one f insideF g insideG ((beq_iff_eq.mp ownerF).trans (beq_iff_eq.mp ownerG).symm)
    cases entries : s.mongo.files.filter fun f => f.storageKey == key with
    | nil => exact Nat.zero_le _
    | cons f rest =>
      cases rest with
      | nil => exact Nat.le_refl _
      | cons g rest =>
        rw [entries] at distinct equal
        have same := equal f List.mem_cons_self g (List.mem_cons_of_mem _ List.mem_cons_self)
        exact absurd (same ▸ List.mem_cons_self) (List.nodup_cons.mp distinct).1
  · intro f member owner
    obtain ⟨g, found⟩ := Option.isSome_iff_exists.mp (Mongo.readFile_isSome_iff.mpr ⟨f, member, owner⟩)
    obtain ⟨inside, same⟩ := Mongo.readFile_eq_some found
    rw [found, one g inside f member (same.trans owner.symm)]

/-- A file of one byte. -/
def byteFile : Resource := { filename := some "a".toList, length := 1, stream := { reads := [[7]] } }

/-- A content written at once, and one written in chunks. -/
def plainAndChunked : List Call :=
  [.createDoc 0 byteFile, .prepareUpload ⟨some "a".toList, some "m".toList, 1, 1⟩,
    .writeChunkData {} ⟨2, 0, 1⟩ { reads := [[7]] }, .finishUpload 2]

theorem one_file_per_key_plainAndChunked :
    (∃ f ∈ (storeAfter plainAndChunked).mongo.files, f.storageKey = ⟨0⟩) ∧
      ((storeAfter plainAndChunked).mongo.files.filter fun f => f.storageKey == ⟨0⟩).length ≤ 1 := by
  have run : ReachableUnder countingConfig keepsOneFile (storeAfter plainAndChunked) := by
    refine Reaches.append .refl ⟨trivial, trivial, fun dv key dcs taken => ?_, trivial, trivial⟩
    have none_ : ∀ v ∈ (storeAfter (plainAndChunked.take 2)).versions.rows,
        v.docid = 2 → ∀ f ∈ (storeAfter (plainAndChunked.take 2)).mongo.files,
          v.storageKey ≠ some f.storageKey := by
      decide +kernel
    obtain ⟨⟨member, -, sameDoc⟩, -⟩ := taken.owned (by decide)
    intro f inside owner
    exact absurd (taken.stored.trans (congrArg some owner.symm)) (none_ dv member sameDoc f inside)
  exact ⟨by decide +kernel, (one_file_per_key run ⟨0⟩).1⟩

/-- A create request that names an existing document, and a piece for a version whose content such a
request has written, each leave two entries of one key. -/
theorem two_files_per_key :
    let plain := storeAfter [.createDoc 0 byteFile, .createDocForJson 1 0 byteFile]
    let chunked := storeAfter [.prepareUpload ⟨some "a".toList, some "m".toList, 1, 1⟩,
      .createDocForJson 1 0 byteFile, .writeChunkData {} ⟨1, 0, 1⟩ { reads := [[7]] }]
    (plain.mongo.files.filter fun f => f.storageKey == ⟨0⟩).length = 2 ∧
      (chunked.mongo.files.filter fun f => f.storageKey == ⟨0⟩).length = 2 := by
  decide +kernel

end Clb
