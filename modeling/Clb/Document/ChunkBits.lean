/-
# Document.ChunkBits -- chunk maps written by concurrent calls

Every `writeChunkData` reads the row of the upload, sets one bit in memory and writes the whole map
back. `bits_kept` says that in every interleaving the map ends with the bits of all calls that
answered SUCCESS, if no map is written between the read and the write of another call. `bit_lost` is
a client that sends two chunks in parallel: both calls answer SUCCESS and one chunk is reported as
missing. -/
import Mathlib.Data.Fintype.Basic
import Clb.Document.Outcomes
import Clb.Document.Steps
import Clb.Document.System

set_option autoImplicit false

namespace Clb

open Clb.Lib Clb.Dao Clb.Lib.Action

/-! ## The map of an upload -/

/-- The received chunks of a document, as its row records them. -/
def mapOf (appid docid : Int) (s : Store) : Finset Nat :=
  ((DocChunkStatusDAO.read appid docid s.chunkStatus).map DocChunkStatus.loadChunkMap).getD ∅

/-- The row with the number `id` is the one that is read for the document. -/
structure MapRow (appid docid id : Int) (s : Store) : Prop where
  numbered : Table.Numbered DocChunkStatus.id s.chunkStatus
  found : ∃ c, DocChunkStatusDAO.read appid docid s.chunkStatus = some c ∧ c.id = id

theorem mapOf_eq {appid docid : Int} {s : Store} {c : DocChunkStatus}
    (found : DocChunkStatusDAO.read appid docid s.chunkStatus = some c) :
    mapOf appid docid s = c.loadChunkMap := by
  unfold mapOf
  rw [found]
  rfl

namespace MapRow

variable {appid docid id : Int} {s : Store}

theorem congr {s' : Store} (row : MapRow appid docid id s)
    (same : s'.chunkStatus = s.chunkStatus) : MapRow appid docid id s' := by
  obtain ⟨numbered, found⟩ := row
  rw [← same] at numbered found
  exact ⟨numbered, found⟩

/-- A change of the row that leaves it selected. -/
theorem update {edit : DocChunkStatus → DocChunkStatus} (row : MapRow appid docid id s)
    (ids : ∀ c, (edit c).id = c.id)
    (selected : ∀ c, Selects appid c.appid → Selects docid c.docid → c.version = 1 →
      Selects appid (edit c).appid ∧ Selects docid (edit c).docid ∧ (edit c).version = 1) :
    MapRow appid docid id
        { s with chunkStatus := s.chunkStatus.update (fun c => c.id == id) edit } ∧
      DocChunkStatusDAO.read appid docid (s.chunkStatus.update (fun c => c.id == id) edit) =
        (DocChunkStatusDAO.read appid docid s.chunkStatus).map edit := by
  obtain ⟨c, found, rfl⟩ := row.found
  obtain ⟨member, sameApp, sameDoc, first⟩ := docChunkStatus_read_some found
  have read : DocChunkStatusDAO.read appid docid
      (s.chunkStatus.update (fun r => r.id == c.id) edit) = some (edit c) := by
    unfold DocChunkStatusDAO.read at found ⊢
    rw [BaseDAO.findAndReturnOnly_update, found]
    · simp
    · intro r inside same
      rw [row.numbered.eq_of_ident_eq inside member (beq_iff_eq.mp same),
        docChunkStatus_clause.mpr ⟨sameApp, sameDoc, first⟩,
        docChunkStatus_clause.mpr (selected c sameApp sameDoc first)]
  rw [found]
  exact ⟨⟨row.numbered.update ids, edit c, read, ids c⟩, read⟩

/-- The write of a call, as long as the map is the one it read: it adds its bit. -/
theorem record {old : DocChunkStatus} {chunkIndex : Nat} (row : MapRow appid docid id s)
    (numbered : old.id = id) (sameApp : Selects appid old.appid) (sameDoc : Selects docid old.docid)
    (first : old.version = 1) (same : old.loadChunkMap = mapOf appid docid s) :
    Ends (onChunkStatus (DocChunkStatusDAO.updateObject
        (DocChunkStatusDAO.recorded chunkIndex old))) s fun r s' =>
      (∃ fault, r = .error fault ∧ s' = s) ∨
        (r = .ok () ∧ MapRow appid docid id s' ∧
          mapOf appid docid s' = insert chunkIndex (mapOf appid docid s)) := by
  refine ends_within (ends_attempt ?_ fun _ => .inl ⟨_, rfl, rfl⟩)
  intro _ table done
  obtain ⟨written, updated, equal⟩ := Option.map_eq_some_iff.mp done
  obtain ⟨-, rfl⟩ := Prod.mk.inj equal
  obtain ⟨-, rfl⟩ := BaseDAO.updateRows_eq_some updated
  have kept := @update _ _ _ _
    (getSetValuesClause docChunkStatusDAO.fields (DocChunkStatusDAO.recorded chunkIndex old) []) row
    (fun c => chunkStatus_set_id) fun c => chunkStatus_set_selected sameApp sameDoc first
  refine .inr ⟨rfl, ?_, ?_⟩
  · have := kept.1
    rw [← numbered] at this
    exact numbered ▸ this
  · obtain ⟨c, found, -⟩ := row.found
    have read := kept.2
    rw [found] at read
    rw [← numbered] at read
    refine (mapOf_eq (s := { s with chunkStatus := _ }) read).trans ?_
    rw [← same]
    have mapped := @chunkStatus_set_map (DocChunkStatusDAO.recorded chunkIndex old) c _ rfl
    unfold DocChunkStatus.loadChunkMap
    rw [mapped]
    exact BitSetUtil.deserialize_serialize _

/-- The statement for the index zero writes another column. -/
theorem indexZero {chunkIndex : Nat} (row : MapRow appid docid id s) :
    Ends (onChunkStatus (DocChunkStatusDAO.writeIndexZero id chunkIndex)) s fun r s' =>
      r = .ok () ∧ MapRow appid docid id s' ∧ mapOf appid docid s' = mapOf appid docid s := by
  refine ends_within (ends_write ⟨rfl, ?_⟩)
  split
  · obtain ⟨kept, read⟩ := @update _ _ _ _
      (fun c => { c with currentChunkIndex := chunkIndex }) row (fun _ => rfl)
      fun _ sameApp sameDoc first => ⟨sameApp, sameDoc, first⟩
    refine ⟨kept, ?_⟩
    unfold mapOf
    rw [read, Option.map_map]
    rfl
  · exact ⟨row, rfl⟩

end MapRow

/-! ## The calls -/

/-- A call of `writeChunkData`. -/
structure ChunkCall where
  session : Session
  saves : Saves
  cup : ExecuteChunkUploadParam
  ins : InputStream

def ChunkCall.steps (call : ChunkCall) : DbCall ChunkResponse :=
  Stepwise.writeChunkData call.session call.saves call.cup call.ins

/-- No map is written while another call stands between its read and its write. -/
def recording (appid docid id : Int) : Discipline DbStep Store Fault ChunkResponse where
  allowed step q := step = .updateChunkStatus → q ≠ .before .updateChunkStatus
  rely q s s' :=
    (MapRow appid docid id s → MapRow appid docid id s') ∧
      mapOf appid docid s ⊆ mapOf appid docid s' ∧
      (q = .before .updateChunkStatus → mapOf appid docid s' = mapOf appid docid s)
  guarantee step _ s s' :=
    MapRow appid docid id s' ∧ mapOf appid docid s ⊆ mapOf appid docid s' ∧
      (step ≠ .updateChunkStatus → mapOf appid docid s' = mapOf appid docid s)
  rely_refl _ _ := ⟨fun row => row, Finset.Subset.refl _, fun _ => rfl⟩
  rely_trans _ _ _ _ first second :=
    ⟨fun row => second.1 (first.1 row), first.2.1.trans second.2.1,
      fun waits => (second.2.2 waits).trans (first.2.2 waits)⟩
  compatible allowed guaranteed :=
    ⟨fun _ => guaranteed.1, guaranteed.2.1,
      fun waits => guaranteed.2.2 fun writes => allowed writes waits⟩

/-- A call that answered SUCCESS has its bit in the map. -/
def Recorded (appid docid : Int) (index : Nat) (r : Except Fault ChunkResponse) (s : Store) : Prop :=
  ∀ res, r = .ok res → res.statusCode = .SUCCESS → index ∈ mapOf appid docid s

section Outline

variable {appid docid id : Int} {s s' : Store} {index : Nat}

/-- A statement that leaves the chunk status rows alone. -/
theorem guarantee_same {step : DbStep} {p : Point DbStep Fault ChunkResponse}
    (row : MapRow appid docid id s) (same : s'.chunkStatus = s.chunkStatus) :
    (recording appid docid id).guarantee step p s s' := by
  have equal : mapOf appid docid s' = mapOf appid docid s := by
    unfold mapOf
    rw [same]
  exact ⟨row.congr same, equal.symm.subset, fun _ => equal⟩

theorem stands_fault {fault : Fault} :
    (recording appid docid id).Stands (Recorded appid docid index) (.done (.error fault)) s :=
  fun _ _ _ => nofun

theorem stands_refusal {res : ChunkResponse} (refused : res.statusCode ≠ .SUCCESS) :
    (recording appid docid id).Stands (Recorded appid docid index) (pure res) s := by
  intro s' _ res' same success
  obtain rfl := Except.ok.inj same
  exact absurd success refused

/-- The second half of `writeChunkData`: the row is read again and written with one more bit. -/
theorem stands_updateChunkStatus {res : ChunkResponse} (row : MapRow appid docid id s) :
    (recording appid docid id).Stands (Recorded appid docid index) (do
      let _ ← Stepwise.updateChunkStatus appid docid index
      return res) s := by
  unfold Stepwise.updateChunkStatus
  simp only [bind_assoc, pure_bind]
  refine Discipline.stands_bind fun s₁ moved₁ => ends_read ?_
  have row₁ := moved₁.1 row
  obtain ⟨old, found, numbered⟩ := row₁.found
  rw [found]
  refine ⟨guarantee_same row₁ rfl, ?_⟩
  obtain ⟨-, sameApp, sameDoc, first⟩ := docChunkStatus_read_some found
  refine Discipline.stands_bind fun s₂ moved₂ => ?_
  have row₂ := moved₂.1 row₁
  -- nobody wrote the map since it was read
  have same : old.loadChunkMap = mapOf appid docid s₂ :=
    (mapOf_eq found).symm.trans (moved₂.2.2 rfl).symm
  refine (row₂.record numbered sameApp sameDoc first same).mono ?_
  rintro _ s₃ (⟨fault, rfl, rfl⟩ | ⟨rfl, row₃, added⟩)
  · exact ⟨guarantee_same row₂ rfl, stands_fault⟩
  refine ⟨⟨row₃, ?_, fun other => absurd rfl other⟩, ?_⟩
  · rw [added]
    exact Finset.subset_insert _ _
  rw [numbered]
  refine Discipline.stands_bind fun s₄ moved₄ => (moved₄.1 row₃).indexZero.mono ?_
  rintro _ s₅ ⟨rfl, row₅, equal⟩
  refine ⟨⟨row₅, equal.symm.subset, fun _ => equal⟩, ?_⟩
  intro s₆ moved₆ _ _ _
  refine moved₆.2.1 ?_
  rw [equal]
  refine moved₄.2.1 ?_
  rw [added]
  exact Finset.mem_insert_self _ _

theorem stands_writeChunkData {call : ChunkCall} (row : MapRow call.session.appid call.cup.docid id s) :
    (recording call.session.appid call.cup.docid id).Stands
      (Recorded call.session.appid call.cup.docid call.cup.index.toNat) call.steps s := by
  unfold ChunkCall.steps Stepwise.writeChunkData Stepwise.writeEmptyChunk
    DocumentFacade.getLastDocVersion DocumentFacade.buildMongoFile
  refine Discipline.stands_bind fun s₁ moved₁ => ?_
  have row₁ := moved₁.1 row
  refine ends_bind (ends_bind (ends_read (ends_require ?_ fun _ =>
    ⟨guarantee_same row₁ rfl, stands_fault⟩)))
  intro dv _
  refine ends_bind (ends_require ?_ fun _ => ⟨guarantee_same row₁ rfl, stands_fault⟩)
  intro name _
  refine ends_bind (ends_require ?_ fun _ => ⟨guarantee_same row₁ rfl, stands_fault⟩)
  intro key _
  refine ends_pure ⟨guarantee_same row₁ rfl, ?_⟩
  refine Discipline.stands_bind fun s₂ moved₂ => ends_read ?_
  have row₂ := moved₂.1 row₁
  obtain ⟨dcs, found, -⟩ := row₂.found
  rw [found]
  refine ⟨guarantee_same row₂ rfl, ?_⟩
  change (recording _ _ id).Stands _ (if _ then _ else _) s₂
  split
  · exact stands_refusal nofun
  split
  · exact stands_refusal nofun
  split
  · -- whatever the collections become, the call goes on with the row
    refine Discipline.stands_bind fun s₃ moved₃ => ends_within (ends_any fun r m => ?_)
    have row₃ := moved₃.1 row₂
    cases r with
    | ok _ => exact ⟨guarantee_same row₃ rfl, stands_updateChunkStatus (row₃.congr rfl)⟩
    | error fault => exact ⟨guarantee_same row₃ rfl, stands_fault⟩
  · exact stands_refusal nofun

end Outline

section Run

variable {ι : Type} [DecidableEq ι]

def ChunkCall.pool (calls : ι → ChunkCall) (start : Store) :
    Lib.Pool ι DbStep Store Fault ChunkResponse :=
  ⟨fun i => (calls i).steps, start⟩

/-- **No bit is lost.** Any number of calls of `writeChunkData` for one document, with whatever
indices, are interleaved step by step so that no map is written while another call stands between its
read and its write. When all have answered SUCCESS, the map holds all their indices and
`queryEmptyChunks` reports none of them. -/
theorem bits_kept {calls : ι → ChunkCall} {appid docid id : Int} {start : Store}
    (row : MapRow appid docid id start)
    (document : ∀ i, (calls i).session.appid = appid ∧ (calls i).cup.docid = docid)
    {pool : Lib.Pool ι DbStep Store Fault ChunkResponse}
    (run : Reaches Lib.Pool.turn (Lib.Pool.Spaced (recording appid docid id).allowed)
      (ChunkCall.pool calls start) pool)
    {results : ι → ChunkResponse} (ended : ∀ i, pool.Returned i (.ok (results i)))
    (succeeded : ∀ i, (results i).statusCode = .SUCCESS) :
    ∃ dcs missing, DocChunkStatusDAO.read appid docid pool.shared.chunkStatus = some dcs ∧
      DocumentFacade.queryEmptyChunks appid docid pool.shared = (.ok (some missing), pool.shared) ∧
      ∀ i, (calls i).cup.index.toNat ∈ dcs.loadChunkMap ∧ (calls i).cup.index.toNat ∉ missing := by
  have outlines : (recording appid docid id).Outlined
      (fun i => Recorded appid docid (calls i).cup.index.toNat) (ChunkCall.pool calls start) := by
    intro i
    obtain ⟨rfl, rfl⟩ := document i
    exact stands_writeChunkData row
  obtain ⟨stands, last⟩ := Lib.Pool.outlined (fun pool => MapRow appid docid id pool.shared) run
    (fun _ _ spaced _ => spaced) outlines row fun _ _ _ _ _ _ _ guaranteed _ => guaranteed.1
  obtain ⟨dcs, found, -⟩ := last.found
  refine ⟨dcs, dcs.findEmptyChunk, found, ?_, fun i => ?_⟩
  · unfold DocumentFacade.queryEmptyChunks
    rw [Action.read_bind, found]
    rfl
  · have inside := (stands i).ended (ended i) _ rfl (succeeded i)
    rw [mapOf_eq found] at inside
    exact ⟨inside, fun missing => (DocChunkStatus.mem_findEmptyChunk.mp missing).2 inside⟩

end Run

/-! ## A client that sends two chunks in parallel -/

instance (appid docid id : Int) (step : DbStep) (q : Point DbStep Fault ChunkResponse) :
    Decidable ((recording appid docid id).allowed step q) :=
  inferInstanceAs (Decidable (step = .updateChunkStatus → q ≠ .before .updateChunkStatus))

/-- The upload of two bytes in two chunks. -/
def preparedPair : List Call := [.prepareUpload ⟨some "a".toList, some "m".toList, 2, 1⟩]

def bothChunks (i : Fin 2) : ChunkCall := ⟨someSession, {}, ⟨1, i.val, 1⟩, { reads := [[7]] }⟩

/-- Both chunks are new to the calls when they start. -/
def bothStored (i : Fin 2) : ChunkResponse :=
  ⟨.execute, 1, i.val, .SUCCESS, 1, some [0, 1], some []⟩

theorem bits_kept_bothChunks :
    let start := storeAfter preparedPair
    let pool := run Lib.Pool.turn [0, 1, 0, 1, 0, 1, 1, 1, 0, 1, 0, 0] (ChunkCall.pool bothChunks start)
    ∃ dcs missing, DocChunkStatusDAO.read 1 1 pool.shared.chunkStatus = some dcs ∧
      DocumentFacade.queryEmptyChunks 1 1 pool.shared = (.ok (some missing), pool.shared) ∧
      ∀ i, (bothChunks i).cup.index.toNat ∈ dcs.loadChunkMap ∧
        (bothChunks i).cup.index.toNat ∉ missing := by
  intro start pool
  have row : MapRow 1 1 1 start := by
    refine ⟨(reachable_storeAfter preparedPair).wf.statusNumbered, ?_⟩
    have found : (DocChunkStatusDAO.read 1 1 start.chunkStatus).map (·.id) = some 1 := by
      decide +kernel
    exact Option.map_eq_some_iff.mp found
  have admitted : Admits Lib.Pool.turn (Lib.Pool.Spaced (recording 1 1 1).allowed)
      [0, 1, 0, 1, 0, 1, 1, 1, 0, 1, 0, 0] (ChunkCall.pool bothChunks start) := by
    decide +kernel
  have ended : ∀ i, pool.Returned i (.ok (bothStored i)) := by
    unfold Lib.Pool.Returned
    decide +kernel
  exact bits_kept row (fun _ => ⟨rfl, rfl⟩) (Reaches.append .refl admitted) ended fun _ => rfl

/-- Both calls read the row before either of them writes it: both answer SUCCESS, and the map that is
written last lacks the chunk 0, which `queryEmptyChunks` reports as missing. -/
theorem bit_lost :
    let start := storeAfter preparedPair
    let pool := run Lib.Pool.turn [0, 0, 0, 0, 1, 1, 1, 1, 0, 0, 1, 1] (ChunkCall.pool bothChunks start)
    Reachable countingConfig start ∧ (∀ i, pool.Returned i (.ok (bothStored i))) ∧
      0 ∉ mapOf 1 1 pool.shared ∧
      (DocumentFacade.queryEmptyChunks 1 1 pool.shared).1 = .ok (some [0]) := by
  refine ⟨reachable_storeAfter _, ?_, by decide +kernel, by decide +kernel⟩
  unfold Lib.Pool.Returned
  decide +kernel

end Clb
