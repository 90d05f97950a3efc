/-
# Document.Steps -- the calls of the facade, database step by database step

The calls of `DocumentFacade` that several clients make at the same time, cut into the statements
they send to the databases. Each statement is atomic; between two of them the other calls may run.
The `run` lemmas say that a call that is alone does what the facade's call does in one piece.

The procedure proc_create_doc_version is a transaction on a snapshot. What it inserts takes a number
from the table at once, but the row is seen by the others from the commit on. -/
import Clb.Document.Facade
import Clb.Lib.Interleave

set_option autoImplicit false

namespace Clb

open Clb.Lib Clb.Dao

/-- The steps of the calls, with the row they are about where the order of the calls depends on it. -/
inductive DbStep where
  | nextID
  | newObjectId
  | createDocMeta
  | updateDocMeta (appid docid version : Int)
  | readLastVersion
  | createCompletedDocVersion
  | createWaitingDocVersion
  | selectMaxVersion (appid docid : Int)
  | insertVersion (appid docid version : Int)
  | selectInserted (appid docid id version : Int)
  | commitVersion (appid docid id version : Int)
  | updateVersion (appid docid id version : Int)
  | updateUploadStatus
  | readRef
  | createRef
  | updateRef
  | incrRef
  | createChunkStatus
  | readChunkStatus
  | updateChunkStatus
  | writeIndexZero
  | queryChunkMap
  | chunkedUpload
deriving DecidableEq

/-- A call as the steps it takes. -/
abbrev DbCall := Steps DbStep Store Fault

namespace Stepwise

open Steps

/-! ## References -/

def createClbRef (session : Session) (clb : ClbMeta) : DbCall Unit := do
  let _ ← statement .createDocMeta (DocumentFacade.createDocMeta session clb.docid 0)
  let ref ← statement .readRef (Action.read fun s => DocRefDAO.read clb.md5 clb.size s.refs)
  let ref ← require .nullPointer ref
  statement .updateRef (DocumentFacade.updateRef ref)
  let _ ← statement .createCompletedDocVersion (DocumentFacade.createFirstDocVersion session
    clb.docid clb.filename clb.size ref.storageKey .complete)

/-! ## Chunked uploads -/

/-- `updateChunkStatus(appid, docid, chunkSet)`. -/
def updateChunkStatusOfSet (appid docid : Int) (chunkSet : Finset Nat) : DbCall DocChunkStatus := do
  let old ← statement .readChunkStatus (Action.read fun s =>
    DocChunkStatusDAO.read appid docid s.chunkStatus)
  let old ← require .nullPointer old
  let old := old.updateChunkMap (old.loadChunkMap ∪ chunkSet)
  statement .updateChunkStatus (onChunkStatus (DocChunkStatusDAO.updateObject old))
  return old

/-- `updateChunkStatus(appid, docid, chunkIndex)`. -/
def updateChunkStatus (appid docid : Int) (chunkIndex : Nat) : DbCall DocChunkStatus := do
  let old ← statement .readChunkStatus (Action.read fun s =>
    DocChunkStatusDAO.read appid docid s.chunkStatus)
  let old ← require .nullPointer old
  statement .updateChunkStatus
    (onChunkStatus (DocChunkStatusDAO.updateObject (DocChunkStatusDAO.recorded chunkIndex old)))
  statement .writeIndexZero (onChunkStatus (DocChunkStatusDAO.writeIndexZero old.id chunkIndex))
  return DocChunkStatusDAO.recorded chunkIndex old

def createChunkStatus (session : Session) (docid : Int) (param : PrepareChunkUploadParam) :
    DbCall DocChunkStatus :=
  statement .createChunkStatus (onChunkStatus (Action.attempt .dataIntegrity
    (DocChunkStatusDAO.create session.appid docid param.size param.md5 param.chunkSize)))

def prepareFound (session : Session) (docid : Int) (param : PrepareChunkUploadParam) (ref : DocRef) :
    DbCall ChunkResponse := do
  statement .incrRef (DocumentFacade.incrRef param.md5 param.size)
  let _ ← statement .createCompletedDocVersion (DocumentFacade.createCompletedDocVersion session
    docid param.filename param.size ref.storageKey)
  return ⟨.prepare, docid, 0, .FOUND_THE_SAME_CONTENT, param.chunkSize, none, some []⟩

def prepareResumed (session : Session) (docid : Int) (param : PrepareChunkUploadParam)
    (ref : DocRef) : DbCall ChunkResponse := do
  let _ ← statement .createWaitingDocVersion (DocumentFacade.createWaitingDocVersion session docid
    param.filename param.size ref.storageKey)
  let _ ← createChunkStatus session docid param
  let existSet ← statement .queryChunkMap (DocumentFacade.queryDocumentChunkSet ref.storageKey)
  let dcs ← updateChunkStatusOfSet session.appid docid existSet
  return ⟨.prepare, docid, 0, .SUCCESS, param.chunkSize, some dcs.findEmptyChunk, some []⟩

def prepareNew (session : Session) (docid : Int) (param : PrepareChunkUploadParam) :
    DbCall ChunkResponse := do
  let storageKey ← statement .newObjectId (onMongo MongoStorageService.newObjectId)
  let _ ← statement .createRef (onRefs (Action.attempt .dataIntegrity (DocRefDAO.create
    { md5 := param.md5, size := param.size, ref := 0, storageKey := some storageKey })))
  let _ ← statement .createWaitingDocVersion (DocumentFacade.createWaitingDocVersion session docid
    param.filename param.size (some storageKey))
  let dcs ← createChunkStatus session docid param
  return ⟨.prepare, docid, 0, .SUCCESS, param.chunkSize, some dcs.findEmptyChunk, some []⟩

def prepareUpload (config : Config) (session : Session) (param : PrepareChunkUploadParam) :
    DbCall ChunkResponse := do
  let docid ← statement .nextID (DocumentFacade.getNextID config session.appid)
  let docid ← statement .createDocMeta (DocumentFacade.createDocMeta session docid 0)
  let ref ← statement .readRef (Action.read fun s => DocRefDAO.read param.md5 param.size s.refs)
  if MAX_CHUNK_SIZE < param.chunkSize then
    return ⟨.prepare, docid, 0, .EXCEED_MAX_CHUNK_SIZE, param.chunkSize, none,
      some [("currentChunkSize", param.chunkSize)]⟩
  else
    match ref with
    | some ref =>
      if 0 < ref.ref then
        prepareFound session docid param ref
      else if ref.ref = 0 then
        prepareResumed session docid param ref
      else
        return ⟨.prepare, docid, 0, .SUCCESS, param.chunkSize, none, some []⟩
    | none => prepareNew session docid param

def writeEmptyChunk (session : Session) (saves : Saves) (cup : ExecuteChunkUploadParam)
    (ins : InputStream) (mf : MFile) (dcs : DocChunkStatus) : DbCall ChunkResponse := do
  statement .chunkedUpload (onMongo (MongoStorageService.chunkedUpload saves cup.index.toNat
    dcs.numOfChunk ins cup.length { mf with length := dcs.fileSize } dcs.chunkSize))
  let _ ← updateChunkStatus session.appid cup.docid cup.index.toNat
  return ⟨.execute, cup.docid, cup.index, .SUCCESS, dcs.chunkSize, some dcs.findEmptyChunk, some []⟩

def writeChunkData (session : Session) (saves : Saves) (cup : ExecuteChunkUploadParam)
    (ins : InputStream) : DbCall ChunkResponse := do
  let mf ← statement .readLastVersion do
    let dv ← DocumentFacade.getLastDocVersion session.appid cup.docid
    DocumentFacade.buildMongoFile session.appid dv dv.filename
  let dcs ← statement .readChunkStatus (Action.read fun s =>
    DocChunkStatusDAO.read session.appid cup.docid s.chunkStatus)
  let dcs ← require .nullPointer dcs
  if dcs.numOfChunk ≤ cup.index ∨ cup.index < 0 then
    return ⟨.execute, cup.docid, cup.index, .CHUNK_INDEX_INVALID, dcs.chunkSize, none,
      some [("numOfChunk", dcs.numOfChunk)]⟩
  else if dcs.chunkSize < cup.length then
    return ⟨.execute, cup.docid, cup.index, .TOO_LARGE_CHUNK, dcs.chunkSize, none,
      some [("chunkSize", dcs.chunkSize), ("currentChunkSize", cup.length)]⟩
  else if cup.index.toNat ∈ dcs.findEmptyChunk then
    writeEmptyChunk session saves cup ins mf dcs
  else
    return ⟨.execute, cup.docid, cup.index, .DUPLICATE_CHUNK, dcs.chunkSize,
      some dcs.findEmptyChunk, some []⟩

def finishUpload (session : Session) (docid : Int) : DbCall ChunkResponse := do
  let docVersion ← statement .readLastVersion (Action.read fun s =>
    DocVersionDAO.readLastVersion session.appid docid s.versions)
  let docVersion ← require .nullPointer docVersion
  let existSet ← statement .queryChunkMap
    (DocumentFacade.queryDocumentChunkSet docVersion.storageKey)
  let dcs ← updateChunkStatusOfSet session.appid docid existSet
  if dcs.findEmptyChunk = [] then do
    statement .updateUploadStatus (DocumentFacade.updateUploadStatus session.appid docid 1)
    statement .incrRef (DocumentFacade.incrRef dcs.md5 dcs.fileSize)
    return ⟨.finish, docid, 0, .SUCCESS, dcs.chunkSize, some [], none⟩
  else
    return ⟨.finish, docid, 0, .NEED_MORE_CHUNK, dcs.chunkSize, some dcs.findEmptyChunk, none⟩

/-! ## New versions -/

/-- The transaction of proc_create_doc_version. -/
def getNewDocVersionId (appid docid : Int) : DbCall DocVersion := do
  let snapshot ← statement (.selectMaxVersion appid docid) (Action.read Store.versions)
  let version := DocVersionDAO.nextVersion appid docid snapshot
  let id ← statement (.insertVersion appid docid version)
    (onVersions (Action.attempt .dataIntegrity fun table =>
      if version ≤ 2147483647 then some (table.next, { table with next := table.next + 1 })
      else none))
  let row : DocVersion := { id, appid, docid, version, uploadStatus := some .waiting }
  -- `select ... into` fails unless it finds exactly one row
  let inserted ← statement (.selectInserted appid docid id version) (Action.read fun _ =>
    (snapshot.rows ++ [row]).filter fun r =>
      r.appid == appid && r.docid == docid && r.version == version)
  let inserted ← require .dataIntegrity (if inserted.length = 1 then inserted.head? else none)
  statement (.commitVersion appid docid id version)
    (onVersions (Action.write fun table => { table with rows := table.rows ++ [row] }))
  return { appid, docid, id := inserted.id, version := inserted.version }

def createDocVersion (session : Session) (docid : Int) (filename : Option Text) (size : Int) :
    DbCall DocVersion := do
  let storageKey ← statement .newObjectId (onMongo MongoStorageService.newObjectId)
  let name ← require .nullPointer filename
  let dv : DocVersion :=
    { appid := session.appid, docid, filename := some name, size, storageKey := some storageKey,
      fileExtension := some (getSuffix name), uploadStatus := some .waiting }
  let nv ← getNewDocVersionId session.appid docid
  let ndv := DocVersionDAO.newVersion dv nv
  statement (.updateVersion session.appid docid ndv.id ndv.version)
    (onVersions (Action.attempt .dataIntegrity fun table =>
      (docVersionDAO.updateObject ndv table).map fun table => ((), table)))
  statement (.updateDocMeta session.appid docid ndv.version) (DocumentFacade.updateDocMeta ndv)
  return ndv

/-! ## A call that is alone -/

theorem createClbRef_run (session : Session) (clb : ClbMeta) :
    (createClbRef session clb).run = DocumentFacade.createClbRef session clb := by
  simp only [createClbRef, DocumentFacade.createClbRef, run_bind, run_statement, run_require,
    run_pure]

theorem onChunkStatus_bind {α β : Type} (act : Action (Table DocChunkStatus) Fault β)
    (next : β → Action (Table DocChunkStatus) Fault α) :
    onChunkStatus (act >>= next) = onChunkStatus act >>= fun b => onChunkStatus (next b) :=
  Action.within_bind (fun _ _ => rfl) fun _ _ _ => rfl

theorem onVersions_bind {α β : Type} (act : Action (Table DocVersion) Fault β)
    (next : β → Action (Table DocVersion) Fault α) :
    onVersions (act >>= next) = onVersions act >>= fun b => onVersions (next b) :=
  Action.within_bind (fun _ _ => rfl) fun _ _ _ => rfl

theorem onChunkStatus_require {α : Type} (fault : Fault) (o : Option α) :
    onChunkStatus (Action.require fault o) = Action.require fault o := by
  cases o with
  | none => rfl
  | some a => rfl

theorem updateChunkStatusOfSet_run (appid docid : Int) (chunkSet : Finset Nat) :
    (updateChunkStatusOfSet appid docid chunkSet).run =
      onChunkStatus (DocChunkStatusDAO.updateChunkStatusOfSet appid docid chunkSet) := by
  unfold updateChunkStatusOfSet DocChunkStatusDAO.updateChunkStatusOfSet
  simp only [run_bind, run_statement, run_require, run_pure, onChunkStatus_bind,
    onChunkStatus_require]
  rfl

theorem updateChunkStatus_run (appid docid : Int) (chunkIndex : Nat) :
    (updateChunkStatus appid docid chunkIndex).run =
      onChunkStatus (DocChunkStatusDAO.updateChunkStatus appid docid chunkIndex) := by
  unfold updateChunkStatus DocChunkStatusDAO.updateChunkStatus
  simp only [run_bind, run_statement, run_require, run_pure, onChunkStatus_bind,
    onChunkStatus_require]
  rfl

theorem prepareUpload_run (config : Config) (session : Session) (param : PrepareChunkUploadParam) :
    (prepareUpload config session param).run =
      DocumentFacade.prepareUpload config session param := by
  have found : ∀ docid ref, (prepareFound session docid param ref).run =
      DocumentFacade.prepareFound session docid param ref := by
    intro docid ref
    simp only [prepareFound, DocumentFacade.prepareFound, run_bind, run_statement, run_pure]
  have resumed : ∀ docid ref, (prepareResumed session docid param ref).run =
      DocumentFacade.prepareResumed session docid param ref := by
    intro docid ref
    simp only [prepareResumed, DocumentFacade.prepareResumed, createChunkStatus, run_bind,
      run_statement, run_pure, updateChunkStatusOfSet_run]
  have new : ∀ docid, (prepareNew session docid param).run =
      DocumentFacade.prepareNew session docid param := by
    intro docid
    simp only [prepareNew, DocumentFacade.prepareNew, createChunkStatus, run_bind, run_statement,
      run_pure]
  simp only [prepareUpload, DocumentFacade.prepareUpload, DocumentFacade.createNewDocMeta, run_bind,
    run_statement, bind_assoc]
  refine bind_congr fun docid => bind_congr fun docid => bind_congr fun ref => ?_
  rw [run_ite]
  refine if_congr Iff.rfl rfl ?_
  cases ref with
  | none => exact new docid
  | some ref => simp only [run_ite, found, resumed, run_pure]

theorem writeChunkData_run (session : Session) (saves : Saves) (cup : ExecuteChunkUploadParam)
    (ins : InputStream) :
    (writeChunkData session saves cup ins).run =
      DocumentFacade.writeChunkData session saves cup ins := by
  have written : ∀ mf dcs, (writeEmptyChunk session saves cup ins mf dcs).run =
      DocumentFacade.writeEmptyChunk session saves cup ins mf dcs := by
    intro mf dcs
    simp only [writeEmptyChunk, DocumentFacade.writeEmptyChunk, run_bind, run_statement, run_pure,
      updateChunkStatus_run]
  simp only [writeChunkData, DocumentFacade.writeChunkData, run_bind, run_statement, run_require,
    run_ite, run_pure, written, bind_assoc]

theorem finishUpload_run (session : Session) (docid : Int) :
    (finishUpload session docid).run = DocumentFacade.finishUpload session docid := by
  simp only [finishUpload, DocumentFacade.finishUpload, run_bind, run_statement, run_require,
    run_ite, run_pure, updateChunkStatusOfSet_run]

/-- The version that the procedure computes is not among those of its snapshot. -/
theorem nextVersion_new {appid docid : Int} {table : Table DocVersion} {row : DocVersion}
    (member : row ∈ table.rows) (sameApp : row.appid = appid) (sameDoc : row.docid = docid) :
    row.version ≠ DocVersionDAO.nextVersion appid docid table := by
  have inside : row.version ∈
      (table.rows.filter fun r => r.docid == docid && r.appid == appid).map (·.version) :=
    List.mem_map.mpr ⟨row, List.mem_filter.mpr ⟨member, by simp [sameApp, sameDoc]⟩, rfl⟩
  unfold DocVersionDAO.nextVersion
  dsimp only
  split
  · rename_i none_
    rw [List.max?_eq_none_iff.mp none_] at inside
    exact absurd inside List.not_mem_nil
  · rename_i last greatest
    have := (List.max?_eq_some_iff.mp greatest).2 _ inside
    split <;> omega

theorem inserted_eq (appid docid : Int) (table : Table DocVersion) {row : DocVersion}
    (sameApp : row.appid = appid) (sameDoc : row.docid = docid)
    (next : row.version = DocVersionDAO.nextVersion appid docid table) :
    ((table.rows ++ [row]).filter fun r => r.appid == appid && r.docid == docid &&
      r.version == DocVersionDAO.nextVersion appid docid table) = [row] := by
  have none_ : (table.rows.filter fun r => r.appid == appid && r.docid == docid &&
      r.version == DocVersionDAO.nextVersion appid docid table) = [] := by
    refine List.filter_eq_nil_iff.mpr fun r member chosen => ?_
    simp only [Bool.and_eq_true, beq_iff_eq] at chosen
    exact nextVersion_new member chosen.1.1 chosen.1.2 chosen.2
  rw [List.filter_append, none_]
  simp [sameApp, sameDoc, next]

theorem getNewDocVersionId_run (appid docid : Int) :
    (getNewDocVersionId appid docid).run =
      onVersions (Action.attempt .dataIntegrity (DocVersionDAO.getNewDocVersionId appid docid)) := by
  funext s
  simp only [getNewDocVersionId, run_bind, run_statement, run_require, run_pure, Action.read_bind]
  by_cases small : DocVersionDAO.nextVersion appid docid s.versions ≤ 2147483647
  · have numbered : onVersions (Action.attempt .dataIntegrity fun table : Table DocVersion =>
        if DocVersionDAO.nextVersion appid docid s.versions ≤ 2147483647 then
          some (table.next, ({ table with next := table.next + 1 } : Table DocVersion))
        else none) s =
        (.ok s.versions.next,
          { s with versions := { s.versions with next := s.versions.next + 1 } }) := by
      simp only [onVersions, Action.within, Action.attempt, small, if_true]
    rw [Action.bind_ok numbered, inserted_eq appid docid s.versions rfl rfl rfl]
    simp only [onVersions, Action.within, Action.attempt, DocVersionDAO.getNewDocVersionId, small,
      if_true]
    rw [BaseDAO.insertObject_of_fits (by rfl) fun _ _ => rfl]
    rfl
  · have refused : onVersions (Action.attempt .dataIntegrity fun table : Table DocVersion =>
        if DocVersionDAO.nextVersion appid docid s.versions ≤ 2147483647 then
          some (table.next, ({ table with next := table.next + 1 } : Table DocVersion))
        else none) s = (.error .dataIntegrity, s) := by
      simp only [onVersions, Action.within, Action.attempt, small, if_false]
    rw [Action.bind_error refused]
    simp only [onVersions, Action.within, Action.attempt, DocVersionDAO.getNewDocVersionId, small,
      if_false]

theorem createDocVersion_run (session : Session) (docid : Int) (filename : Option Text)
    (size : Int) :
    (createDocVersion session docid filename size).run =
      DocumentFacade.createDocVersion session docid filename size := by
  simp only [createDocVersion, DocumentFacade.createDocVersion, DocumentFacade.buildDocVersion,
    DocVersionDAO.create, run_bind, run_statement, run_require, run_pure, getNewDocVersionId_run,
    bind_assoc, pure_bind, onVersions_bind]
  rfl

end Stepwise

end Clb
