/-
# Document.Honest -- does the content have the digest it is stored under

A clb_doc_ref row names a content by the digest and the size that a client gave to `prepareUpload`.
No call computes a digest: what is found under the row is whatever the uploads sent. For any hash
function, `content_honest` says that the rows are honest if the clients are: each digest is that of a
content of the given size, all uploads that name it send the pieces of that content, and the calls are
sound. Then a document that was made from stored content reads back with the digest its creator named.
One client that is not honest is enough, whatever the hash function is: `content_dishonest`. -/
import Clb.Document.Dedup
import Clb.Document.Readable

set_option autoImplicit false

namespace Clb

open Clb.Lib Clb.Dao Clb.Lib.Action DocumentFacade Handlers MongoStorageService

variable {resource : Resource} {r : Except Fault UpdateInfo} {docid : Int}
variable {config : Config} {session : Session} {s s' : Store}

section Honest

variable (hash : Bytes → Text) (contents : Option Text → Int → Bytes)

/-- The content that clients mean by a digest and a size is of that size and has that digest. -/
def Genuine (md5 : Option Text) (size : Int) : Prop :=
  ((contents md5 size).length : Int) = size ∧ md5 = some (hash (contents md5 size))

/-- The reference rows are genuine, and what is stored under their keys are pieces of their contents,
cut as the uploads cut them. -/
structure Honest (s : Store) : Prop where
  genuine : ∀ r ∈ s.refs.rows, Genuine hash contents r.md5 r.size
  data : ∀ r ∈ s.refs.rows, ∀ k, r.storageKey = some k → ∀ chunkSize : Int, 0 < chunkSize →
    (∀ c ∈ s.chunkStatus.rows, SameContent c r → c.chunkSize = chunkSize) →
    ∀ chunk ∈ s.mongo.chunks, chunk.filesId = k →
      chunk.data = piece chunkSize.toNat chunk.n (contents r.md5 r.size)

end Honest

/-! ## Calls that bring no content -/

/-- From `s` to `s'` no content was named, and nothing was stored under the keys that were issued. -/
structure BringsNothing (s s' : Store) : Prop where
  refs : ∀ r' ∈ s'.refs.rows, ∃ r ∈ s.refs.rows,
    r'.md5 = r.md5 ∧ r'.size = r.size ∧ r'.storageKey = r.storageKey
  status : ∀ c ∈ s.chunkStatus.rows, ∃ c' ∈ s'.chunkStatus.rows, uploadOf c' = uploadOf c
  issued : s.mongo.issued ≤ s'.mongo.issued
  chunks : ∀ chunk ∈ s'.mongo.chunks, chunk.filesId.serial < s.mongo.issued → chunk ∈ s.mongo.chunks

namespace BringsNothing

/-- The tables of the uploads are as they were. -/
theorem of_same (refs : s'.refs = s.refs) (status : s'.chunkStatus = s.chunkStatus)
    (issued : s.mongo.issued ≤ s'.mongo.issued)
    (chunks : ∀ chunk ∈ s'.mongo.chunks, chunk.filesId.serial < s.mongo.issued →
      chunk ∈ s.mongo.chunks) : BringsNothing s s' where
  refs := fun r member => ⟨r, refs ▸ member, rfl, rfl, rfl⟩
  status := fun c member => ⟨c, status ▸ member, rfl⟩
  issued := issued
  chunks := chunks

theorem of_tables (refs : s'.refs = s.refs) (status : s'.chunkStatus = s.chunkStatus)
    (mongo : s'.mongo = s.mongo) : BringsNothing s s' :=
  of_same refs status (mongo ▸ Nat.le_refl _) fun _ member _ => mongo ▸ member

theorem refl (s : Store) : BringsNothing s s := of_tables rfl rfl rfl

theorem trans {s'' : Store} (first : BringsNothing s s') (second : BringsNothing s' s'') :
    BringsNothing s s'' where
  refs := by
    intro r'' member
    obtain ⟨r', member', md5', size', key'⟩ := second.refs r'' member
    obtain ⟨r, member, md5, size, key⟩ := first.refs r' member'
    exact ⟨r, member, md5'.trans md5, size'.trans size, key'.trans key⟩
  status := by
    intro c member
    obtain ⟨c', member', same⟩ := first.status c member
    obtain ⟨c'', member'', same'⟩ := second.status c' member'
    exact ⟨c'', member'', same'.trans same⟩
  issued := Nat.le_trans first.issued second.issued
  chunks := fun chunk member below =>
    first.chunks chunk (second.chunks chunk member (Nat.lt_of_lt_of_le below first.issued)) below

theorem editRefs (s : Store) (selected : DocRef → Bool) (edit : Int → Int) :
    BringsNothing s (s.editRefs selected edit) :=
  { refl s with
    refs := by
      intro r' member'
      obtain ⟨r, member, rfl⟩ := List.mem_map.mp member'
      refine ⟨r, member, ?_⟩
      split <;> exact ⟨rfl, rfl, rfl⟩ }

theorem addStatus (s : Store) (c : DocChunkStatus) : BringsNothing s (s.addStatus c) :=
  { refl s with status := fun c member => ⟨c, List.mem_append_left _ member, rfl⟩ }

theorem replaceStatus (wf : Wf config s) {old new : DocChunkStatus}
    (member : old ∈ s.chunkStatus.rows) (same : uploadOf new = uploadOf old) :
    BringsNothing s (s.replaceStatus old new) :=
  { refl s with
    status := by
      have mem_iff : ∀ {c}, c ∈ (s.replaceStatus old new).chunkStatus.rows ↔
          c = new ∨ (c ∈ s.chunkStatus.rows ∧ c ≠ old) := wf.statusNumbered.mem_replace member
      intro c memberC
      by_cases equal : c = old
      · exact ⟨new, mem_iff.mpr (.inl rfl), equal ▸ same⟩
      · exact ⟨c, mem_iff.mpr (.inr ⟨memberC, equal⟩), rfl⟩ }

theorem issueKey (s : Store) : BringsNothing s s.issueKey :=
  of_same rfl rfl (Nat.le_succ _) fun _ member _ => member

theorem addDoc (s : Store) (d : DocMeta) : BringsNothing s (s.addDoc d) := of_tables rfl rfl rfl

theorem addVersion (s : Store) (v : DocVersion) : BringsNothing s (s.addVersion v) :=
  of_tables rfl rfl rfl

theorem complete (s : Store) (appid docid version : Int) :
    BringsNothing s (s.complete appid docid version) := of_tables rfl rfl rfl

end BringsNothing

theorem Saved.bringsNothing {name : Text} {mf : MFile}
    {r : Except Fault Unit} (saved : Saved resource name mf s r s') : BringsNothing s s' := by
  cases saved with
  | skipped | spoiled => exact .of_tables rfl rfl rfl
  | driven opened temp wrote =>
    refine .of_same rfl rfl (Nat.le_trans (Nat.le_succ _) (Nat.le_of_eq wrote.issued.symm)) ?_
    -- the driver numbers its chunks by an id that was not issued before
    have old : ∀ {bytes count}, ∀ chunk ∈ s.mongo.chunks ++ driverChunks ⟨s.mongo.issued⟩ bytes count,
        chunk.filesId.serial < s.mongo.issued → chunk ∈ s.mongo.chunks := by
      intro bytes count chunk member below
      refine (List.mem_append.mp member).resolve_right fun new => ?_
      obtain ⟨n, -, rfl⟩ := MongoWf.mem_driverChunks.mp new
      exact Nat.lt_irrefl _ below
    cases wrote with
    | broken | whole => exact old

theorem Advanced.bringsNothing {dv : DocVersion} {after : Act Unit}
    (after_brings : ∀ s, BringsNothing s (after s).2)
    (advanced : Advanced session resource dv docid after s r s') : BringsNothing s s' := by
  cases advanced with
  | unsaved => exact .refl s
  | broken fault named stored saved => exact saved.bringsNothing
  | done named stored saved =>
    exact (saved.bringsNothing.trans (.complete _ _ _ _)).trans (after_brings _)

theorem Waiting.bringsNothing {isPub : Int} {r : Except Fault DocVersion}
    (waiting : Waiting config session isPub resource s r s') : BringsNothing s s' := by
  cases waiting with
  | refused => exact .of_tables rfl rfl rfl
  | unnamed | waiting => exact .of_same rfl rfl (Nat.le_succ _) fun _ member _ => member

theorem Versioned.bringsNothing {docid version size : Int} {filename : Option Text}
    {r : Except Fault DocVersion}
    (versioned : Versioned session docid version filename size s r s') : BringsNothing s s' := by
  cases versioned with
  | refused | bare | created => exact .of_same rfl rfl (Nat.le_succ _) fun _ member _ => member

theorem Created.bringsNothing {isPub : Int} {after : DocVersion → Act Unit}
    (after_brings : ∀ dv s, BringsNothing s (after dv s).2)
    (created : Created config session isPub resource after s r s') : BringsNothing s s' := by
  cases created with
  | readonly => exact .refl s
  | refused fault waiting => exact waiting.bringsNothing
  | advanced waiting advanced => exact waiting.bringsNothing.trans (advanced.bringsNothing (after_brings _))

theorem JsonCreated.bringsNothing {clbid isPub : Int}
    (created : JsonCreated config session clbid isPub resource s r s') :
    BringsNothing s s' := by
  have counted : ∀ dv s, BringsNothing s (countKey dv s).2 := fun dv s =>
    countKey_keeps dv s fun _ => .editRefs s _ _
  cases created with
  | refused => exact .refl s
  | created zero created => exact created.bringsNothing counted
  | advanced nonzero last advanced => exact advanced.bringsNothing (counted _)

theorem Updated.bringsNothing
    (updated : Updated session docid resource s r s') : BringsNothing s s' := by
  cases updated with
  | refused => exact .refl s
  | unversioned fault read versioned => exact versioned.bringsNothing
  | advanced read permitted versioned advanced =>
    exact versioned.bringsNothing.trans (advanced.bringsNothing .refl)

theorem Entered.bringsNothing {isPub : Int} {name : Text}
    (entered : Entered config session isPub name resource s r s') :
    BringsNothing s s' := by
  have newDoc : BringsNothing s (withNewDoc config session isPub s) := .of_tables rfl rfl rfl
  cases entered with
  | refused => exact .of_tables rfl rfl rfl
  | unversioned fault noDoc versioned => exact newDoc.trans versioned.bringsNothing
  | saved noDoc versioned saved =>
    refine (newDoc.trans versioned.bringsNothing).trans ?_
    rcases saved with ⟨-, rfl⟩ | ⟨title, key, -, -, saved⟩
    · exact .refl s'
    · exact saved.bringsNothing

theorem Referred.bringsNothing {clb : ClbMeta} {r : Except Fault Unit}
    (referred : Referred session clb s r s') : BringsNothing s s' := by
  have counted : ∀ selected edit,
      BringsNothing s ((s.addDoc (docRow session clb.docid 0)).editRefs selected edit) :=
    fun selected edit => .trans (.addDoc s _) (.editRefs _ selected edit)
  cases referred with
  | taken => exact .refl s
  | unknown => exact .addDoc s _
  | counted => exact counted _ _
  | referred => exact (counted _ _).trans (.addVersion _ _)

theorem Finished.bringsNothing (wf : Wf config s) (nonzero : docid ≠ 0)
    {r : Except Fault ChunkResponse} (finished : Finished session docid s r s') :
    BringsNothing s s' := by
  cases finished with
  | raised => exact .refl s
  | needMore rows => exact .replaceStatus wf (rows.owned nonzero).2.1 rfl
  | completed rows =>
    refine .trans (.trans (.replaceStatus wf (rows.owned nonzero).2.1 ?_) (.complete _ _ _ _))
      (.editRefs _ _ _)
    rfl
  | uncounted fault rows =>
    refine .trans (.replaceStatus wf (rows.owned nonzero).2.1 ?_) (.complete _ _ _ _)
    rfl

theorem mem_chunks_deleteKeys {keys : List ObjectId} {m : Mongo} {chunk : GridFSChunk}
    (member : chunk ∈ (deleteKeys keys m).chunks) : chunk ∈ m.chunks := by
  induction keys generalizing m with
  | nil => exact member
  | cons key keys ih => exact List.mem_of_mem_filter (ih member)

theorem Removal.bringsNothing (wf : Wf config s) (removal : Removal) :
    BringsNothing s (removal.after s) := by
  obtain ⟨refs, status⟩ := removal.after_frame wf
  obtain ⟨mongo, -⟩ := removal.after_spec wf
  refine .of_same refs status ?_ fun chunk member _ => ?_
  · rw [mongo, (wf.mongo.deleteKeys _).2]
  · rw [mongo] at member
    exact mem_chunks_deleteKeys member

/-! ## One call -/

section Calls

variable {hash : Bytes → Text} {contents : Option Text → Int → Bytes}

namespace Honest

theorem empty : Honest hash contents Store.empty where
  genuine := fun _ => Wf.absent
  data := fun _ => Wf.absent

theorem of_bringsNothing (honest : Honest hash contents s) (wf : Wf config s)
    (brings : BringsNothing s s') : Honest hash contents s' where
  genuine := by
    intro r' member'
    obtain ⟨r, member, md5, size, -⟩ := brings.refs r' member'
    rw [md5, size]
    exact honest.genuine r member
  data := by
    intro r' member' k owner' chunkSize positive cut chunk stored own
    obtain ⟨r, member, md5, size, key⟩ := brings.refs r' member'
    have owner : r.storageKey = some k := key.symm.trans owner'
    rw [md5, size]
    refine honest.data r member k owner chunkSize positive (fun c memberC content => ?_) chunk ?_ own
    · obtain ⟨c', memberC', same⟩ := brings.status c memberC
      rw [← (uploadOf_eq.mp same).2.2.2.2.1]
      have content' := content.of_uploadOf same.symm
      exact cut c' memberC' ⟨md5.trans content'.1, size.trans content'.2⟩
    · exact brings.chunks chunk stored (own ▸ wf.refKeys r member k owner)

/-- A new content, under a key that nothing is stored under. -/
theorem addRef (honest : Honest hash contents s) {r : DocRef} {k : ObjectId}
    (genuine : Genuine hash contents r.md5 r.size) (owner : r.storageKey = some k)
    (unused : ∀ chunk ∈ s.mongo.chunks, chunk.filesId ≠ k) : Honest hash contents (s.addRef r) where
  genuine := Table.forall_mem_insert honest.genuine genuine
  data := by
    refine Table.forall_mem_insert honest.data fun k' owner' _ _ _ chunk stored own => ?_
    obtain rfl : k = k' := Option.some.inj (owner.symm.trans owner')
    exact absurd own (unused chunk stored)

/-- **A content that was counted is stored as its uploads mean it.** -/
theorem content_eq (honest : Honest hash contents s) (wf : Wf config s) (sound : UploadsSound s)
    {r : DocRef} (member : r ∈ s.refs.rows) (positive : 0 < r.ref) :
    ∃ k f, r.storageKey = some k ∧ s.mongo.readFile k = some f ∧
      s.mongo.content f = some (contents r.md5 r.size) := by
  obtain ⟨c, memberC, same, few, all⟩ := sound.counted r member positive
  obtain ⟨size_pos, k, owner, part⟩ := sound.stored r member
  have chunkSize_pos := (sound.declared c memberC).1.chunkSize
  have cut : ∀ c' ∈ s.chunkStatus.rows, SameContent c' r → c'.chunkSize = c.chunkSize :=
    fun c' memberC' same' =>
      sound.oneSize c memberC c' memberC' (same'.1.symm.trans same.1) (same'.2.symm.trans same.2)
  have data := honest.data r member k owner c.chunkSize chunkSize_pos cut
  have pieces : ∀ n < pieceCount r.size.toNat c.chunkSize.toNat, ∃ chunk ∈ s.mongo.chunks,
      chunk.filesId = k ∧ chunk.n = n ∧
        chunk.data = piece c.chunkSize.toNat n (contents r.md5 r.size) := by
    intro n within
    obtain ⟨chunk, stored, own, rfl⟩ := Mongo.hasChunk_iff.mp (all k owner n within)
    exact ⟨chunk, stored, own, rfl, data chunk stored own⟩
  obtain ⟨f, found, -, content⟩ := (part c.chunkSize chunkSize_pos cut).content_eq wf.mongo (by omega)
    (by omega) few pieces
  have length : (contents r.md5 r.size).length = r.size.toNat := by
    have sized := (honest.genuine r member).1
    omega
  refine ⟨k, f, owner, found, ?_⟩
  rw [content, ← length]
  exact congrArg some (flatten_pieces (by omega) _)

end Honest

theorem Prepared.honest {param : PrepareChunkUploadParam}
    {r : Except Fault ChunkResponse} (new : NewUpload config session docid s)
    (genuine : Genuine hash contents param.md5 param.size) (honest : Honest hash contents s)
    (prepared : Prepared session docid param s r s') : Honest hash contents s' := by
  have quiet : ∀ {s'}, BringsNothing s s' → Honest hash contents s' := honest.of_bringsNothing new.wf
  have added : ∀ {ref : DocRef},
      ref = { md5 := param.md5, size := param.size, ref := 0, storageKey := some s.newKey } →
      Honest hash contents (s.issueKey.addRef ref) := by
    rintro _ rfl
    exact (honest.of_bringsNothing new.wf (.issueKey s)).addRef genuine rfl new.wf.newKey_unused.1
  cases prepared with
  | exceeded | foundFull | overflowed | resumedFault => exact honest
  | found => exact quiet (.trans (.editRefs s _ _) (.addVersion _ _))
  | foundFault => exact quiet (.editRefs s _ _)
  | resumedVersion => exact quiet (.addVersion s _)
  | resumedStatus | resumed => exact quiet (.trans (.addVersion s _) (.addStatus _ _))
  | newKey => exact quiet (.issueKey s)
  | newRef fault ref read row => exact added row
  | new ref name read row fits free =>
    exact (added row).of_bringsNothing (new.wf.addNewRef row fits free)
      (.trans (.addVersion _ _) (.addStatus _ _))

/-- What a sound piece adds to the chunks. -/
theorem Taken.mem_chunks {saves : Saves} {cup : ExecuteChunkUploadParam} {ins : InputStream}
    {dv : DocVersion} {key : ObjectId} {dcs : DocChunkStatus}
    (guard : SoundPiece session saves cup ins s) (taken : Taken session cup s dv key dcs)
    {r : Except Fault Unit} {m : Mongo}
    (upload : uploadChunk session saves cup ins dv key dcs s.mongo = (r, m)) {chunk : GridFSChunk}
    (stored : chunk ∈ m.chunks) :
    chunk ∈ s.mongo.chunks ∨ (s.mongo.hasChunk key cup.index.toNat = false ∧
      chunk = ⟨key, cup.index.toNat, ins.reads.flatten⟩) := by
  rcases guard.2 dv key dcs taken with present | ⟨delivered, header, -⟩
  · have same : ∀ m₁, Adds key cup.index.toNat cup.length s.mongo m₁ → m₁ = s.mongo := by
      rintro m₁ (rfl | ⟨-, -, -, free, -⟩)
      · rfl
      · rw [present] at free
        cases free
    rcases (chunkedUpload_ends taken.fits).apply upload with added | ⟨-, -, m₁, added, rfl⟩
    · exact .inl (same m added ▸ stored)
    · exact .inl (same m₁ added ▸ stored)
  · rw [taken.received delivered header upload] at stored
    exact mem_chunks_received stored

theorem Written.honest (wf : Wf config s) (sound : UploadsSound s) {saves : Saves}
    {cup : ExecuteChunkUploadParam} {ins : InputStream} {r : Except Fault ChunkResponse}
    (guard : SoundPiece session saves cup ins s)
    (pieces : ∀ dv key dcs, Taken session cup s dv key dcs →
      s.mongo.hasChunk key cup.index.toNat = true ∨
        ins.reads.flatten = piece dcs.chunkSize.toNat cup.index.toNat (contents dcs.md5 dcs.fileSize))
    (honest : Honest hash contents s) (written : Written session saves cup ins s r s') :
    Honest hash contents s' := by
  have stored : ∀ {dv key dcs r m}, Taken session cup s dv key dcs →
      uploadChunk session saves cup ins dv key dcs s.mongo = (r, m) →
      Honest hash contents { s with mongo := m } := by
    intro dv key dcs r m taken upload
    refine ⟨honest.genuine, fun ref member k owner chunkSize positive cut chunk stored own => ?_⟩
    rcases taken.mem_chunks guard upload stored with old | ⟨absent, rfl⟩
    · exact honest.data ref member k owner chunkSize positive cut chunk old own
    · -- the new chunk is a piece of the content that the upload named
      obtain ⟨-, memberC, -⟩ := taken.owned guard.1
      obtain ⟨ref', member', tracks⟩ := sound.tracks taken.toUploading guard.1
      obtain rfl : key = k := own
      obtain rfl := wf.refKeysUnique ref member ref' member' (owner.trans tracks.refKey.symm)
      rw [← cut dcs memberC tracks.content, tracks.content.1, tracks.content.2]
      refine (pieces dv key dcs taken).resolve_left fun present => ?_
      rw [present] at absent
      cases absent
  cases written with
  | idle => exact honest
  | raised taken upload => exact stored taken upload
  | written taken upload below =>
    obtain ⟨mongoWf, issued⟩ := taken.mongoWf wf upload
    have wf' := wf.withMongo mongoWf (Nat.le_of_eq issued.symm)
    exact (stored taken upload).of_bringsNothing wf'
      (.replaceStatus wf' (taken.owned guard.1).2.1 rfl)

end Calls

/-! ## Runs -/

section Runs

variable (hash : Bytes → Text) (contents : Option Text → Int → Bytes)

/-- Sound calls of honest clients: a digest that an upload names is genuine, and a chunk that is passed
on is there already or is the piece of the content that its upload named. -/
def honestCalls (request : Request) (s : Store) : Prop :=
  soundCalls request s ∧
    match request.call with
    | .prepareUpload param => Genuine hash contents param.md5 param.size
    | .writeChunkData _ cup ins => ∀ dv key dcs, Taken request.session cup s dv key dcs →
        s.mongo.hasChunk key cup.index.toNat = true ∨
          ins.reads.flatten = piece dcs.chunkSize.toNat cup.index.toNat (contents dcs.md5 dcs.fileSize)
    | _ => True

variable {hash contents}

/-- **One call of an honest client keeps the contents honest.** -/
theorem exec_honest {request : Request} (guard : honestCalls hash contents request s)
    (wf : Wf config s) (sound : UploadsSound s) (honest : Honest hash contents s) :
    Honest hash contents (exec config request s) := by
  obtain ⟨session, call⟩ := request
  obtain ⟨soundCall, honestCall⟩ := guard
  have quiet : ∀ {s'}, BringsNothing s s' → Honest hash contents s' := honest.of_bringsNothing wf
  cases call with
  | prepareUpload param =>
    change Ends (prepareUpload config session param) s fun _ s' => Honest hash contents s'
    refine (prepareUpload_ends wf).mono ?_
    rintro _ _ (⟨fault, -, rfl⟩ | ⟨noDoc, prepared⟩)
    · exact quiet (.of_tables rfl rfl rfl)
    · exact prepared.honest (wf.withNewDoc 0 noDoc) honestCall ⟨honest.genuine, honest.data⟩
  | writeChunkData saves cup ins =>
    exact Written.honest wf sound soundCall honestCall honest (writeChunkData_ends wf)
  | finishUpload docid => exact quiet (Finished.bringsNothing wf soundCall (finishUpload_ends wf))
  | createClbRef clb => exact quiet (Referred.bringsNothing (createClbRef_ends wf))
  | createDoc isPub resource => exact quiet (Created.bringsNothing (fun _ => .refl) (createDoc_ends wf))
  | createDocForJson clbid isPub resource =>
    exact quiet (JsonCreated.bringsNothing (createDocForJson_ends wf))
  | createMultiDocs isPub entries =>
    exact (createMultiDocs_ends wf honest fun _ _ _ wf honest _ _ entered =>
      honest.of_bringsNothing wf entered.bringsNothing).2
  | updateDoc docid resource => exact quiet (Updated.bringsNothing (updateDoc_ends wf))
  | removeDoc docid =>
    change Ends (removeDoc session docid) s fun _ s' => Honest hash contents s'
    refine removeDoc_ends.mono ?_
    rintro _ _ (rfl | rfl)
    · exact honest
    · exact quiet (Removal.bringsNothing wf (.document session.appid docid))
  | removeVersion dp =>
    change Ends (removeVersion session dp) s fun _ s' => Honest hash contents s'
    refine removeVersion_ends.mono ?_
    rintro _ _ (rfl | ⟨p, dv, -, -, rfl⟩)
    · exact honest
    · exact quiet (Removal.bringsNothing wf (.version dv))

/-- The first version of a document of the session, made from a counted reference row, reads as a
content with the digest of the row. -/
theorem Honest.reads (honest : Honest hash contents s) (wf : Wf config s) (sound : UploadsSound s)
    {ref : DocRef} (member : ref ∈ s.refs.rows) (positive : 0 < ref.ref) {docid size : Int}
    {name : Text}
    (wf' : Wf config (s'.addVersion (firstVersion session docid name size ref.storageKey .complete)))
    (mongo : s'.mongo = s.mongo) (docid_pos : 0 < docid) (permitted : Permitted session docid s') :
    ∃ bytes, (getDocContent session ⟨docid, "1".toList⟩
      (s'.addVersion (firstVersion session docid name size ref.storageKey .complete))).1 = .ok bytes ∧
      ref.md5 = some (hash bytes) := by
  obtain ⟨k, f, owner, found, content⟩ := honest.content_eq wf sound member positive
  obtain ⟨dv, memberV, app, doc, version, status, key⟩ : ∃ dv ∈ (s'.addVersion (firstVersion session
      docid name size ref.storageKey .complete)).versions.rows, dv.appid = session.appid ∧
      dv.docid = docid ∧ dv.version = 1 ∧ dv.uploadStatus = some .complete ∧
      dv.storageKey = ref.storageKey :=
    ⟨_, List.mem_append_right _ (List.mem_singleton_self _), rfl, rfl, rfl, rfl, rfl⟩
  have read := getDocContent_eq wf' memberV app (by omega) (by omega) (doc ▸ permitted)
  have text : decimalText 1 = "1".toList := by decide
  have found' : (s'.addVersion (firstVersion session docid name size ref.storageKey
      .complete)).mongo.readFile k = some f := mongo ▸ found
  rw [doc, version, text, if_neg (by simp [DocVersion.isCompletedStatus, status]), key.trans owner,
    Option.bind_some, found'] at read
  have content' : (s'.addVersion (firstVersion session docid name size ref.storageKey
      .complete)).mongo.content f = some (contents ref.md5 ref.size) := mongo ▸ content
  refine ⟨contents ref.md5 ref.size, ?_, (honest.genuine ref member).2⟩
  exact read.trans (congrArg Except.ok (writeTo_of_content content'))

theorem permitted_addDoc (session : Session) (docid isPub : Int) (s : Store) :
    Permitted session docid (s.addDoc (docRow session docid isPub)) :=
  ⟨_, List.mem_append_right _ (List.mem_singleton_self _), rfl, rfl, fun denied => denied.2 rfl⟩

/-- **The contents are honest if the clients are.** For every hash function and every assignment of
contents, in every run of sound calls of honest clients, a content that is counted and stored has the
digest of its reference row; and whenever `prepareUpload` answers FOUND_THE_SAME_CONTENT or
`createClbRef` returns, for a document with a positive id, the new document reads back as a content
with the digest that was named. -/
theorem content_honest (run : ReachableUnder config (honestCalls hash contents) s) :
    (∀ r ∈ s.refs.rows, 0 < r.ref → ∀ k bytes, r.storageKey = some k →
      s.mongo.storedBytes k = some bytes → r.md5 = some (hash bytes)) ∧
    (∀ param res s', honestCalls hash contents ⟨session, .prepareUpload param⟩ s →
      prepareUpload config session param s = (.ok res, s') →
      res.statusCode = .FOUND_THE_SAME_CONTENT →
      ∃ bytes, (getDocContent session ⟨res.docid, "1".toList⟩ s').1 = .ok bytes ∧
        param.md5 = some (hash bytes)) ∧
    (∀ clb digest s', honestCalls hash contents ⟨session, .createClbRef clb⟩ s → 0 < clb.docid →
      clb.md5 = some digest → createClbRef session clb s = (.ok (), s') →
      ∃ bytes, (getDocContent session ⟨clb.docid, "1".toList⟩ s').1 = .ok bytes ∧
        hash bytes = digest) := by
  have wf := run.wf
  obtain ⟨sound, honest⟩ : UploadsSound s ∧ Honest hash contents s :=
    @ReachableUnder.invariant _ _ _ (fun s => UploadsSound s ∧ Honest hash contents s) run
      ⟨.empty, .empty⟩ fun _ _ guard wf both =>
        ⟨exec_uploadsSound_of_soundCalls guard.1 wf both.1, exec_honest guard wf both.1 both.2⟩
  refine ⟨?_, ?_, ?_⟩
  · intro r member positive k bytes owner stored
    obtain ⟨k', f, owner', found, content⟩ := honest.content_eq wf sound member positive
    obtain rfl : k = k' := Option.some.inj (owner.symm.trans owner')
    unfold Mongo.storedBytes at stored
    rw [found, Option.bind_some, content] at stored
    rw [← Option.some.inj stored]
    exact (honest.genuine r member).2
  · intro param res s' guard answered code
    rcases (prepareUpload_ends wf).apply answered with ⟨fault, raised, -⟩ | ⟨noDoc, prepared⟩
    · cases raised
    · have wf' := prepared.wf (wf.withNewDoc 0 noDoc)
      have size : 0 < param.size := guard.1.1
      cases prepared with
      | found ref name read positive named =>
        obtain ⟨member, digest, -⟩ := docRef_read_some read
        have given : param.md5 ≠ none := by
          rw [guard.2.2]
          nofun
        obtain ⟨bytes, content, hashed⟩ := honest.reads wf sound member positive wf' rfl
          (config.nextID_pos _ _) (permitted_addDoc session _ 0 _)
        exact ⟨bytes, content, (digest given).symm.trans hashed⟩
      | exceeded | overflowed | resumed | new => cases code
  · intro clb digest s' guard docid_pos named created
    have referred := (createClbRef_ends wf).apply created
    have wf' := referred.wf wf
    cases referred with
    | referred ref name noDoc read =>
      obtain ⟨member, same, -⟩ := docRef_read_some read
      obtain ⟨bytes, content, hashed⟩ := honest.reads wf sound member (guard.1.2.1 ref read) wf' rfl
        docid_pos (permitted_addDoc session _ 0 _)
      refine ⟨bytes, content, ?_⟩
      rw [same (by rw [named]; nofun), named] at hashed
      exact (Option.some.inj hashed).symm

end Runs

/-- Every digest means the byte that `wholeChunk` sends. -/
def oneByteContents (_ : Option Text) (_ : Int) : Bytes := [7]

/-- A hash function that gives this byte the digest of `oneByte`. -/
def oneByteHash (bytes : Bytes) : Text := if bytes = [7] then "m".toList else "n".toList

/-- An honest client uploads one byte; a second upload of it is answered from the first. -/
theorem content_honest_finishedUpload :
    ∃ bytes, (getDocContent someSession ⟨2, "1".toList⟩
        (storeAfter (finishedUpload ++ [.prepareUpload oneByte]))).1 = .ok bytes ∧
      oneByte.md5 = some (oneByteHash bytes) := by
  have genuine : Genuine oneByteHash oneByteContents oneByte.md5 oneByte.size := ⟨rfl, rfl⟩
  have run : ReachableUnder countingConfig (honestCalls oneByteHash oneByteContents)
      (storeAfter finishedUpload) := by
    refine Reaches.tail (Request.mk someSession (.finishUpload 1))
      (Reaches.tail (Request.mk someSession wholeChunk)
        (Reaches.tail (Request.mk someSession (.prepareUpload oneByte)) .refl ?_) ?_) ?_
    · exact ⟨⟨by decide, by decide, nofun⟩, genuine⟩
    · refine ⟨soundUploads_wholeChunk, fun dv key dcs taken => .inr ?_⟩
      rw [(sized_oneByte dcs (docChunkStatus_read_some taken.read).1).2]
      rfl
    · exact ⟨show (1 : Int) ≠ 0 by decide, trivial⟩
  exact (content_honest run).2.1 _ _ _ ⟨soundCalls_oneByte_again, genuine⟩
    prepareUpload_oneByte_again rfl

/-- The finished upload of the byte under a digest. -/
def uploadUnder (digest : Text) : List Call :=
  [.prepareUpload { oneByte with md5 := some digest }, wholeChunk, .finishUpload 1]

/-- For no hash function are the contents honest in every run, nor the documents that are made from
them: the same byte can be uploaded under two digests. -/
theorem content_dishonest :
    (¬∃ hash : Bytes → Text, ∀ s, Reachable countingConfig s → ∀ r ∈ s.refs.rows, 0 < r.ref →
      ∀ k bytes, r.storageKey = some k → s.mongo.storedBytes k = some bytes →
        r.md5 = some (hash bytes)) ∧
    (¬∃ hash : Bytes → Text, ∀ s, Reachable countingConfig s → ∀ param res s',
      prepareUpload countingConfig someSession param s = (.ok res, s') →
      res.statusCode = .FOUND_THE_SAME_CONTENT →
      ∀ bytes, (getDocContent someSession ⟨res.docid, "1".toList⟩ s').1 = .ok bytes →
        param.md5 = some (hash bytes)) := by
  have apart : ∀ hashed : Text, ¬∀ digest ∈ ["m".toList, "n".toList], some digest = some hashed := by
    intro hashed named
    have same := (named "m".toList (by decide)).trans (named "n".toList (by decide)).symm
    exact absurd same (by decide)
  constructor
  · rintro ⟨hash, honest⟩
    have stored : ∀ digest ∈ ["m".toList, "n".toList],
        ∃ r ∈ (storeAfter (uploadUnder digest)).refs.rows, 0 < r.ref ∧ r.md5 = some digest ∧
          r.storageKey = some ⟨0⟩ ∧
          (storeAfter (uploadUnder digest)).mongo.storedBytes ⟨0⟩ = some [7] := by
      decide +kernel
    refine apart (hash [7]) fun digest given => ?_
    obtain ⟨r, member, positive, md5, owner, bytes⟩ := stored digest given
    exact md5.symm.trans (honest _ (reachable_storeAfter _) r member positive _ _ owner bytes)
  · rintro ⟨hash, honest⟩
    have found : ∀ digest ∈ ["m".toList, "n".toList],
        let answer := prepareUpload countingConfig someSession { oneByte with md5 := some digest }
          (storeAfter (uploadUnder digest))
        answer.1 = .ok ⟨.prepare, 2, 0, .FOUND_THE_SAME_CONTENT, 1, none, some []⟩ ∧
          (getDocContent someSession ⟨2, "1".toList⟩ answer.2).1 = .ok [7] := by
      decide +kernel
    refine apart (hash [7]) fun digest given => ?_
    obtain ⟨answered, content⟩ := found digest given
    rcases served : prepareUpload countingConfig someSession { oneByte with md5 := some digest }
      (storeAfter (uploadUnder digest)) with ⟨r, s'⟩
    rw [served] at answered content
    obtain rfl : r = .ok _ := answered
    exact honest _ (reachable_storeAfter _) _ _ _ served rfl _ content

end Clb
