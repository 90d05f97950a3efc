/-
# Derived.System -- the whole server as a state machine

An `Event` is a request to a handler, or what happens without one: the conversion service answers, a
worker takes an event from the queue, the cleaner deletes a temp file. Events are executed one at a
time, in any order. `serve_cases` says once what an event can do: it changes the document store and
keeps the version rows that it does not remove, or it takes steps of the two derivations. -/
import Clb.Derived.Resizing
import Clb.Document.VersionRows

set_option autoImplicit false

namespace Clb

open Clb.Lib Clb.Dao Clb.Lib.Action DocumentFacade Handlers ImageFacade ImageHandlers PdfHandlers

variable {precise : Prop}

inductive Event where
  | document (request : Request)
  | getDocMetaInfo (digest : GridFSFile → Option Text) (session : Session) (dp : DocPair)
  | convertDocument (session : Session) (now : Int) (dp : DocPair)
  | queryPdfStatus (session : Session) (now : Int) (dp : DocPair)
  | createResizeCopy (session : Session) (rzp : ResizeParam)
  | queryResizeStatus (session : Session) (dp : DocPair)
  | getResizeImageInfo (session : Session) (dp : DocPair)
  | getImageContent (session : Session) (q : ImageQuery)
  | converted (r : ConvertRequest) (length : Int)
  | conversionFailed (r : ConvertRequest)
  | worker (e : ResizeEvent) (outcome : ResizeOutcome)
  | cleaned (key : ObjectId)

namespace Server

/-- The service has converted a source: the PDF is stored under the target key. -/
def converted (r : ConvertRequest) (length : Int) (s : Server) : Server :=
  match r.source, r.target with
  | some source, some target =>
    { s with
      converter :=
        { s.converter with
          pending := s.converter.pending.erase r
          pdfs := s.converter.pdfs ++ [⟨target, length, source⟩] } }
  | _, _ => s

/-- The service could not convert: an error is logged for the target key. -/
def conversionFailed (r : ConvertRequest) (s : Server) : Server :=
  { s with
    converter :=
      { s.converter with
        pending := s.converter.pending.erase r, errors := s.converter.errors ++ [r.target] } }

def cleaned (key : ObjectId) (s : Server) : Server :=
  { s with
    store :=
      { s.store with
        cache :=
          { s.store.cache with
            tempFiles := s.store.cache.tempFiles.filter fun entry => entry.1 != key } } }

end Server

def serve (config : ServerConfig) (event : Event) (s : Server) : Server :=
  match event with
  | .document request => { s with store := exec config.toConfig request s.store }
  | .getDocMetaInfo digest session dp => (onStore (getDocMetaInfo digest session dp) s).2
  | .convertDocument session now dp => (convertDocument config session now dp s).2
  | .queryPdfStatus session now dp => (queryPdfStatus config session now dp s).2
  | .createResizeCopy session rzp => (createResizeCopy config session rzp s).2
  | .queryResizeStatus session dp => (queryResizeStatus session dp s).2
  | .getResizeImageInfo session dp => (getResizeImageInfo session dp s).2
  | .getImageContent session q => (getImageContent session q s).2
  | .converted r length => if r ∈ s.converter.pending then s.converted r length else s
  | .conversionFailed r => if r ∈ s.converter.pending then s.conversionFailed r else s
  | .worker e outcome => if e ∈ s.queue then (runWorker e outcome s).2 else s
  | .cleaned key => s.cleaned key

/-- The states of the runs in which every event meets a condition. -/
def ServesUnder (config : ServerConfig) (guard : Event → Server → Prop) : Server → Prop :=
  Reaches (serve config) guard Server.empty

def Serves (config : ServerConfig) : Server → Prop := ServesUnder config fun _ _ => True

namespace Event

/-- The version rows that an event deletes. -/
def Removes (event : Event) (s : Store) (v : DocVersion) : Prop :=
  match event with
  | .document request => Clb.Removes request s v
  | _ => False

/-- The event names no document 0 and no version 0. -/
def Precise : Event → Prop
  | .convertDocument _ _ dp => parseInt dp.version ≠ some 0
  | .queryResizeStatus _ dp => parseInt dp.version ≠ some 0
  | .createResizeCopy _ rzp => rzp.docid ≠ 0
  | .getImageContent _ q => q.docid ≠ 0
  | _ => True

end Event

/-- A change of the document store that keeps the version rows it does not remove. -/
structure Restores (config : Config) (removes : DocVersion → Prop) (s : Server) (t : Store) :
    Prop where
  wf : Wf config t
  issued : s.store.mongo.issued ≤ t.mongo.issued
  small : SmallVersions s.store → SmallVersions t
  rows : ∀ v ∈ s.store.versions.rows, ¬ removes v → ∃ v' ∈ t.versions.rows,
    v'.pair = v.pair ∧ v'.storageKey = v.storageKey

section Steps

variable {config : ServerConfig} {s : Server}

/-! ## Metadata -/

/-- A size written to a version row. -/
theorem docVersion_set_size {row : DocVersion} {size : Int} :
    getSetValuesClause docVersionDAO.fields { row with size } [] row =
      { row with size := if size = 0 then row.size else size } := by
  rw [getSetValuesClause_eq]
  rcases row with ⟨id, docid, appid, version, filename, fileExtension, old, storageKey, uploadStatus⟩
  cases filename <;> cases fileExtension <;> cases storageKey <;> cases uploadStatus <;>
    by_cases empty : size = 0 <;>
    simp [docVersionDAO, number, text, key, isUninitField, empty]

theorem updateMetaSize_ends {config : Config} {t : Store} {dv : DocVersion} (wf : Wf config t)
    (member : dv ∈ t.versions.rows) :
    Ends (updateMetaSize dv) t fun _ t' => t' = t ∨ ∃ size,
      t' = { t with versions := t.versions.replace DocVersion.id dv { dv with size } } := by
  unfold updateMetaSize
  refine ends_bind (ends_require (fun key _ => ?_) fun _ => .inl rfl)
  refine ends_bind (ends_read (ends_bind (ends_require (fun f _ => ?_) fun _ => .inl rfl)))
  refine ends_bind (ends_within (ends_attempt ?_ fun _ => .inl rfl))
  rintro ⟨⟩ table updated
  obtain ⟨table', done, same⟩ := Option.map_eq_some_iff.mp updated
  obtain rfl : table' = table := (Prod.mk.inj same).2
  rw [@BaseDAO.updateObject_eq _ docVersionDAO { dv with size := f.length } _ wf.versionsNumbered dv
    member rfl, docVersion_set_size, Option.ite_none_right_eq_some] at done
  obtain rfl := Option.some.inj done.2
  exact .inr ⟨_, rfl⟩

theorem getDocMetaInfo_ends {config : Config} {t : Store} {session : Session} {dp : DocPair}
    {digest : GridFSFile → Option Text} (wf : Wf config t) :
    Ends (getDocMetaInfo digest session dp) t fun _ t' => t' = t ∨ ∃ dv ∈ t.versions.rows, ∃ size,
      t' = { t with versions := t.versions.replace DocVersion.id dv { dv with size } } := by
  unfold getDocMetaInfo
  refine ends_bind ((readOnly_openDocument _ _).ends ?_)
  split
  · refine ends_bind ((readOnly_getDocMetaByDocid _ _).ends ?_)
    split
    · refine ends_bind (getDocVersion_ends.mono ?_)
      rintro (fault | dv) _ ⟨rfl, read⟩
      · exact .inl rfl
      · obtain ⟨member, -⟩ := docVersion_read_some (read dv rfl)
        have digested : ReadOnly (queryMd5 digest dv.storageKey) := by
          refine (readOnly_require _ _).bind fun key => (readOnly_read _).bind fun f => ?_
          cases f with
          | none => exact readOnly_pure _
          | some f => exact readOnly_require _ _
        refine ends_bind (digested.ends ?_)
        split
        · refine ends_ite (fun _ => ends_bind ?_) fun _ => ends_bind (.inl rfl)
          refine (updateMetaSize_ends wf member).mono ?_
          rintro (fault | _) _ (rfl | ⟨size, rfl⟩)
          · exact .inl rfl
          · exact .inr ⟨dv, member, size, rfl⟩
          · exact .inl rfl
          · exact .inr ⟨dv, member, size, rfl⟩
        · exact .inl rfl
    · exact .inl rfl
  · exact .inl rfl

/-! ## What an event does -/

theorem Restores.resize {dv : DocVersion} {size : Int} (wf : Wf config.toConfig s.store)
    (member : dv ∈ s.store.versions.rows) (removes : DocVersion → Prop) :
    Restores config.toConfig removes s
      { s.store with versions := s.store.versions.replace DocVersion.id dv { dv with size } } where
  wf := wf.replaceVersion member (wf.versionsFit dv member) rfl rfl (wf.versionKeys dv member)
  issued := Nat.le_refl _
  small small := Table.forall_mem_replace small (small dv member)
  rows v inside _ := by
    have mem_iff : ∀ {v}, v ∈ (s.store.versions.replace DocVersion.id dv { dv with size }).rows ↔
        v = { dv with size } ∨ (v ∈ s.store.versions.rows ∧ v ≠ dv) :=
      wf.versionsNumbered.mem_replace member
    by_cases same : v = dv
    · refine ⟨_, mem_iff.mpr (.inl rfl), ?_⟩
      rw [same]
      exact ⟨rfl, rfl⟩
    · exact ⟨v, mem_iff.mpr (.inr ⟨inside, same⟩), rfl, rfl⟩

theorem Evolves.converted {r : ConvertRequest} {length : Int}
    (pending : r ∈ s.converter.pending) : Evolves precise s (s.converted r length) := by
  obtain ⟨source, target⟩ := r
  unfold Server.converted
  cases source with
  | none => exact .refl s
  | some source =>
    cases target with
    | none => exact .refl s
    | some target =>
      have files : ({ s with
          converter := { s.converter with
            pdfs := s.converter.pdfs ++ [⟨target, length, source⟩] } } : Server).pdfs.files =
          insert (target, some source) s.pdfs.files := artifacts_append s.converter.pdfs _
      have finished := @Derivation.Step.finish _ _ _ _ pdfLedger (Owners precise s.store)
        (Issued s.store) (fun p source => precise → Current s.store p source) s.pdfs target
        (some source) ⟨_, pending, rfl, rfl⟩
      rw [← files] at finished
      refine .of_rows (Lends.refl _) rfl rfl ((Derivation.Steps.single finished).trans ?_) .refl
      exact .single (.forget _ fun _ ⟨r', inside, wanted⟩ => ⟨r', List.mem_of_mem_erase inside, wanted⟩)

theorem Evolves.conversionFailed {r : ConvertRequest} :
    Evolves precise s (s.conversionFailed r) := by
  refine .of_rows (Lends.refl _) rfl rfl ?_ .refl
  exact .single (.forget _ fun _ ⟨r', inside, wanted⟩ => ⟨r', List.mem_of_mem_erase inside, wanted⟩)

theorem Evolves.cleaned {key : ObjectId} : Evolves precise s (s.cleaned key) :=
  .ofStore ⟨rfl, rfl, rfl, rfl, rfl, rfl, rfl, Nat.le_refl _,
    fun temp entry member => temp entry (List.mem_of_mem_filter member)⟩

/-- **What an event does.** -/
theorem serve_cases (event : Event) (wf : ServerWf config.toConfig s) :
    (∃ t, serve config event s = { s with store := t } ∧
      Restores config.toConfig (event.Removes s.store) s t) ∨
    Evolves event.Precise s (serve config event s) := by
  cases event with
  | document request =>
    obtain ⟨issued, small, rows⟩ := exec_keepsVersions request wf.store
    exact .inl ⟨_, rfl, exec_wf request wf.store, issued, small, rows⟩
  | getDocMetaInfo digest session dp =>
    have ends := @getDocMetaInfo_ends _ _ session dp digest wf.store
    rcases served : getDocMetaInfo digest session dp s.store with ⟨r, t⟩
    have after : serve config (.getDocMetaInfo digest session dp) s = { s with store := t } := by
      change (onStore (getDocMetaInfo digest session dp) s).2 = _
      unfold onStore
      rw [within_eq served]
    rcases ends.apply served with rfl | ⟨dv, member, size, rfl⟩
    · rw [after]
      exact .inr (.refl s)
    · exact .inl ⟨_, after, .resize wf.store member _⟩
  | convertDocument session now dp => exact .inr (convertDocument_evolves wf)
  | queryPdfStatus session now dp => exact .inr (queryPdfStatus_evolves wf)
  | createResizeCopy session rzp => exact .inr (createResizeCopy_evolves wf)
  | queryResizeStatus session dp => exact .inr (queryResizeStatus_evolves wf)
  | getResizeImageInfo session dp => exact .inr (getResizeImageInfo_evolves wf)
  | getImageContent session q => exact .inr (getImageContent_evolves wf)
  | converted r length =>
    refine .inr ?_
    unfold serve
    dsimp only
    split
    · rename_i pending
      exact .converted pending
    · exact .refl s
  | conversionFailed r =>
    refine .inr ?_
    unfold serve
    dsimp only
    split
    · exact .conversionFailed
    · exact .refl s
  | worker e outcome =>
    refine .inr ?_
    unfold serve
    dsimp only
    split
    · rename_i queued
      exact runWorker_evolves wf queued
    · exact .refl s
  | cleaned key => exact .inr .cleaned

/-! ## Runs -/

theorem ServerWf.empty : ServerWf config.toConfig Server.empty where
  store := Wf.empty
  pdfNumbered := Table.Numbered.empty
  imageNumbered := Table.Numbered.empty
  pdfFit := fun _ => Wf.absent
  pdfWithin := ⟨fun _ => Wf.absent, by
    rintro key (⟨_, member, -⟩ | ⟨_, _, member, -⟩ | ⟨_, _, member, -⟩) <;> cases member⟩
  imageWithin := ⟨fun _ => Wf.absent, by
    rintro key (⟨_, member, -⟩ | ⟨_, _, member, -⟩ | ⟨_, _, member, -⟩) <;> cases member⟩

theorem ServerWf.restores {removes : DocVersion → Prop} {t : Store} (wf : ServerWf config.toConfig s)
    (restores : Restores config.toConfig removes s t) :
    ServerWf config.toConfig { s with store := t } where
  store := restores.wf
  pdfNumbered := wf.pdfNumbered
  imageNumbered := wf.imageNumbered
  pdfFit := wf.pdfFit
  pdfWithin := wf.pdfWithin.mono fun _ issued => Nat.lt_of_lt_of_le issued restores.issued
  imageWithin := wf.imageWithin.mono fun _ issued => Nat.lt_of_lt_of_le issued restores.issued

/-- **One event keeps the server well formed.** -/
theorem serve_wf (event : Event) (wf : ServerWf config.toConfig s) :
    ServerWf config.toConfig (serve config event s) := by
  rcases serve_cases event wf with ⟨t, after, restores⟩ | evolves
  · rw [after]
    exact wf.restores restores
  · exact evolves.wf wf

theorem ServesUnder.wf {guard : Event → Server → Prop} (run : ServesUnder config guard s) :
    ServerWf config.toConfig s :=
  run.invariant ServerWf.empty fun event _ _ => serve_wf event

/-- What holds at first and is kept by every admitted event, in well formed states, holds in every
state of the runs. -/
theorem ServesUnder.invariant {guard : Event → Server → Prop} {holds : Server → Prop}
    (run : ServesUnder config guard s) (initial : holds Server.empty)
    (kept : ∀ event s, guard event s → ServerWf config.toConfig s → holds s →
      holds (serve config event s)) : holds s :=
  (@Reaches.invariant _ _ _ _ _ _ (fun s => ServerWf config.toConfig s ∧ holds s) run
    ⟨ServerWf.empty, initial⟩ fun event s admitted both =>
      ⟨serve_wf event both.1, kept event s admitted both.1 both.2⟩).2

/-- Every version number of a reachable state is an `int`. -/
theorem ServesUnder.small {guard : Event → Server → Prop} (run : ServesUnder config guard s) :
    SmallVersions s.store := by
  have initial : SmallVersions Server.empty.store := fun _ => Wf.absent
  refine @ServesUnder.invariant config s guard (fun s => SmallVersions s.store) run initial
    fun event s _ wf small => ?_
  rcases serve_cases event wf with ⟨t, after, restores⟩ | evolves
  · rw [after]
    exact restores.small small
  · intro v member
    rw [evolves.store.versions] at member
    exact small v member

end Steps

/-! ## Runs given by their events -/

def countingServer : ServerConfig := { countingConfig with }

def serverAfter (events : List Event) : Server := run (serve countingServer) events Server.empty

theorem serves_serverAfter (events : List Event) : Serves countingServer (serverAfter events) :=
  Reaches.append .refl (admits_always _ _)

def wordFile (bytes : Bytes) : Resource :=
  { filename := some "a.doc".toList, length := bytes.length, stream := { reads := [bytes] } }

end Clb
