/-
# Document.Tenants -- an application changes no row of another one

Every table of the metadata is shared by the applications, and the statements of the DAOs select rows
by the fields that are set in an example. `exec_spares` says that what a request selects or adds is
nevertheless a row of the application of its session: the documents, versions and uploads of every
other application stay as they are, and so does their id generator; `tenant_rows_kept` says so of
whole runs. What the applications do share is the reference table and the collections of GridFS, which
are no part of `Holdings`. -/
import Clb.Document.OneFile
import Clb.Document.QueryExact

set_option autoImplicit false

namespace Clb

open Clb.Lib Clb.Dao Clb.Lib.Action DocumentFacade Handlers MongoStorageService

variable {dv : DocVersion} {resource : Resource} {isPub : Int} {r : Except Fault UpdateInfo}

/-- What the tables hold of an application, and how many document ids it was given. -/
structure Holdings where
  docs : List DocMeta
  versions : List DocVersion
  uploads : List DocChunkStatus
  docids : Nat
deriving DecidableEq, Repr

def Store.holdings (appid : Int) (s : Store) : Holdings where
  docs := s.docs.rows.filter (·.appid == appid)
  versions := s.versions.rows.filter (·.appid == appid)
  uploads := s.chunkStatus.rows.filter (·.appid == appid)
  docids := s.docids appid

/-- The other applications have what they had. -/
def Spares (appid : Int) (s s' : Store) : Prop :=
  ∀ other, other ≠ appid → s'.holdings other = s.holdings other

namespace Spares

variable {appid : Int} {start s s' : Store}

theorem refl : Spares appid start start := fun _ _ => rfl

theorem trans (first : Spares appid start s) (second : Spares appid s s') : Spares appid start s' :=
  fun other apart => (second other apart).trans (first other apart)

/-- A change of what the applications share. -/
theorem shared (before : Spares appid start s)
    (same : (s'.docs, s'.versions, s'.chunkStatus, s'.docids) =
      (s.docs, s.versions, s.chunkStatus, s.docids)) : Spares appid start s' := by
  simp only [Prod.mk.injEq] at same
  exact before.trans fun other _ => by simp only [Store.holdings, same]

theorem ne_beq {row other : Int} (own : row = appid) (apart : other ≠ appid) :
    (row == other) = false := by
  rw [own]
  exact beq_eq_false_iff_ne.mpr apart.symm

/-! ## Changes of one table -/

theorem onDocs (before : Spares appid start s) {docs : Table DocMeta}
    (same : ∀ other, other ≠ appid →
      docs.rows.filter (·.appid == other) = s.docs.rows.filter (·.appid == other)) :
    Spares appid start { s with docs := docs } :=
  before.trans fun other apart => by simp only [Store.holdings, same other apart]

theorem onVersions (before : Spares appid start s) {versions : Table DocVersion}
    (same : ∀ other, other ≠ appid →
      versions.rows.filter (·.appid == other) = s.versions.rows.filter (·.appid == other)) :
    Spares appid start { s with versions := versions } :=
  before.trans fun other apart => by simp only [Store.holdings, same other apart]

theorem onUploads (before : Spares appid start s) {uploads : Table DocChunkStatus}
    (same : ∀ other, other ≠ appid →
      uploads.rows.filter (·.appid == other) = s.chunkStatus.rows.filter (·.appid == other)) :
    Spares appid start { s with chunkStatus := uploads } :=
  before.trans fun other apart => by simp only [Store.holdings, same other apart]

theorem issueDocid (before : Spares appid start s) : Spares appid start (s.issueDocid appid) := by
  refine before.trans fun other apart => ?_
  simp [Store.holdings, Function.update_of_ne apart]

theorem addDoc (before : Spares appid start s) {d : DocMeta} (own : d.appid = appid) :
    Spares appid start (s.addDoc d) :=
  before.onDocs fun _ apart => Table.filter_insert_apart (ne_beq own apart)

theorem addVersion (before : Spares appid start s) {v : DocVersion} (own : v.appid = appid) :
    Spares appid start (s.addVersion v) :=
  before.onVersions fun _ apart => Table.filter_insert_apart (ne_beq own apart)

theorem addStatus (before : Spares appid start s) {c : DocChunkStatus} (own : c.appid = appid) :
    Spares appid start (s.addStatus c) :=
  before.onUploads fun _ apart => Table.filter_insert_apart (ne_beq own apart)

/-- The row that an upload is recorded in. -/
theorem replaceStatus (before : Spares appid start s) {old new : DocChunkStatus}
    (numbered : Table.Numbered DocChunkStatus.id s.chunkStatus) (member : old ∈ s.chunkStatus.rows)
    (ownOld : old.appid = appid) (ownNew : new.appid = appid) :
    Spares appid start (s.replaceStatus old new) := by
  refine before.onUploads fun other apart => Table.filter_update_apart fun c inside chosen => ?_
  have same : c = old :=
    List.inj_on_of_nodup_map numbered.distinct inside member (beq_iff_eq.mp chosen)
  exact ⟨ne_beq (same ▸ ownOld) apart, ne_beq ownNew apart⟩

theorem complete (before : Spares appid start s) (positive : 0 < appid) (docid version : Int) :
    Spares appid start (s.complete appid docid version) := by
  refine before.onVersions fun other apart => Table.filter_update_apart fun v _ chosen => ?_
  have own : v.appid = appid := (of_decide_eq_true chosen).1 (by omega)
  exact ⟨ne_beq own apart, ne_beq own apart⟩

theorem setLastVersion (before : Spares appid start s) (positive : 0 < appid) (docid version : Int) :
    Spares appid start (s.setLastVersion appid docid version) := by
  refine before.onDocs fun other apart => Table.filter_update_apart fun d _ chosen => ?_
  have own : d.appid = appid := (of_decide_eq_true chosen).1 (by omega)
  exact ⟨ne_beq own apart, ne_beq own apart⟩

theorem deleteVersions (before : Spares appid start s) (positive : 0 < appid) (docid version : Int) :
    Spares appid start (s.deleteVersions appid docid version) := by
  refine before.onVersions fun other apart => Table.filter_delete fun v _ chosen => ?_
  exact ne_beq ((of_decide_eq_true chosen).1 (by omega)) apart

theorem deleteDocs (before : Spares appid start s) (positive : 0 < appid) (docid : Int) :
    Spares appid start (s.deleteDocs appid docid) := by
  refine before.onDocs fun other apart => Table.filter_delete fun d _ chosen => ?_
  exact ne_beq ((of_decide_eq_true chosen).1 (by omega)) apart

theorem follow (before : Spares appid start s) (positive : 0 < appid) (docid : Int) :
    Spares appid start (s.follow appid docid) := by
  unfold Store.follow
  split
  · rename_i ndv last
    rw [(readLastVersion_some last).2.1 (by omega)]
    exact before.setLastVersion positive _ _
  · exact before.deleteDocs positive docid

end Spares

/-! ## The calls -/

section Calls

variable {config : Config} {session : Session} {s s' : Store} {docid : Int}

theorem spares_withNewDoc :
    Spares session.appid s (withNewDoc config session isPub s) :=
  Spares.refl.issueDocid.addDoc rfl

theorem Prepared.spares {param : PrepareChunkUploadParam} {r : Except Fault ChunkResponse}
    (prepared : Prepared session docid param s r s') : Spares session.appid s s' := by
  cases prepared with
  | exceeded | foundFull | overflowed | resumedFault => exact .refl
  | foundFault | newKey | newRef => exact .shared .refl rfl
  | found => exact .addVersion (.shared .refl rfl) rfl
  | resumedVersion => exact .addVersion .refl rfl
  | resumedStatus | resumed =>
    refine .addStatus (.addVersion .refl ?_) ?_
    · rfl
    · rfl
  | new =>
    refine .addStatus (.addVersion (.shared .refl rfl) ?_) ?_
    · rfl
    · rfl

theorem Uploading.own {key : ObjectId} {dcs : DocChunkStatus}
    (rows : Uploading session docid s dv key dcs) :
    dcs ∈ s.chunkStatus.rows ∧ dcs.appid = session.appid := by
  have positive := session.appid_pos
  obtain ⟨member, own, -⟩ := docChunkStatus_read_some rows.read
  exact ⟨member, own (by omega)⟩

theorem Written.spares {saves : Saves} {cup : ExecuteChunkUploadParam} {ins : InputStream}
    {r : Except Fault ChunkResponse} (wf : Wf config s) (written : Written session saves cup ins s r s') :
    Spares session.appid s s' := by
  cases written with
  | idle => exact .refl
  | raised => exact .shared .refl rfl
  | written taken =>
    obtain ⟨member, own⟩ := taken.toUploading.own
    exact .replaceStatus (.shared .refl rfl) wf.statusNumbered member own own

theorem Finished.spares {r : Except Fault ChunkResponse} (wf : Wf config s)
    (finished : Finished session docid s r s') : Spares session.appid s s' := by
  cases finished with
  | raised => exact .refl
  | needMore rows =>
    obtain ⟨member, own⟩ := rows.own
    exact .replaceStatus .refl wf.statusNumbered member own own
  | completed rows | uncounted _ rows =>
    obtain ⟨member, own⟩ := rows.own
    have replaced : ∀ bits, Spares session.appid s
        (s.replaceStatus _ (DocChunkStatus.updateChunkMap bits _)) :=
      fun _ => .replaceStatus .refl wf.statusNumbered member own own
    exact .shared (.complete (replaced _) session.appid_pos docid 1) rfl

theorem Referred.spares {clb : ClbMeta} {r : Except Fault Unit} (referred : Referred session clb s r s') :
    Spares session.appid s s' := by
  have added : Spares session.appid s (s.addDoc (docRow session clb.docid 0)) := .addDoc .refl rfl
  cases referred with
  | taken => exact .refl
  | unknown => exact added
  | counted => exact added.shared rfl
  | referred => exact .addVersion (added.shared rfl) rfl

theorem Saved.spares {name : Text} {mf : MFile} {r : Except Fault Unit}
    (saved : Saved resource name mf s r s') : Spares session.appid s s' := by
  cases saved <;> exact .shared .refl rfl

theorem Advanced.spares {after : Act Unit} (after_spares : ∀ s, Spares session.appid s (after s).2)
    (advanced : Advanced session resource dv docid after s r s') : Spares session.appid s s' := by
  cases advanced with
  | unsaved => exact .refl
  | broken fault named stored saved => exact saved.spares
  | done named stored saved =>
    exact (saved.spares.complete session.appid_pos _ _).trans (after_spares _)

theorem Waiting.spares {r : Except Fault DocVersion}
    (waiting : Waiting config session isPub resource s r s') : Spares session.appid s s' := by
  cases waiting with
  | refused => exact .issueDocid .refl
  | unnamed => exact spares_withNewDoc.shared rfl
  | waiting => exact .addVersion (spares_withNewDoc.shared rfl) rfl

theorem Created.spares {after : DocVersion → Act Unit}
    (after_spares : ∀ dv s, Spares session.appid s (after dv s).2)
    (created : Created config session isPub resource after s r s') : Spares session.appid s s' := by
  cases created with
  | readonly => exact .refl
  | refused fault waiting => exact waiting.spares
  | advanced waiting advanced => exact waiting.spares.trans (advanced.spares (after_spares _))

theorem Versioned.spares {version size : Int} {filename : Option Text} {r : Except Fault DocVersion}
    (versioned : Versioned session docid version filename size s r s') : Spares session.appid s s' := by
  cases versioned with
  | refused => exact .shared .refl rfl
  | bare => exact .addVersion (.shared .refl rfl) rfl
  | created =>
    refine .setLastVersion (.addVersion (.shared .refl rfl) ?_) session.appid_pos _ _
    rfl

theorem Updated.spares
    (updated : Updated session docid resource s r s') : Spares session.appid s s' := by
  cases updated with
  | refused => exact .refl
  | unversioned fault read versioned => exact versioned.spares
  | advanced read permitted versioned advanced =>
    exact versioned.spares.trans (advanced.spares fun _ => .refl)

theorem Entered.spares {name : Text}
    (entered : Entered config session isPub name resource s r s') : Spares session.appid s s' := by
  cases entered with
  | refused => exact .issueDocid .refl
  | unversioned fault noDoc versioned => exact spares_withNewDoc.trans versioned.spares
  | saved noDoc versioned saved =>
    refine (spares_withNewDoc.trans versioned.spares).trans ?_
    rcases saved with ⟨-, rfl⟩ | ⟨title, key, -, -, saved⟩
    · exact .refl
    · exact saved.spares

theorem removeDocument_spares : Spares session.appid s (removeDocument session.appid docid s).2 := by
  have removed : ∀ m, Spares session.appid s { s with mongo := m } := fun _ =>
    .shared .refl rfl
  rw [removeDocument_eq]
  dsimp only
  split
  · exact ((removed _).deleteVersions session.appid_pos _ _).deleteDocs session.appid_pos _
  · exact removed _

theorem removeDocVersion_spares {p : DPair} (wf : Wf config s)
    (own : p.appid = session.appid) (read : DocVersionDAO.read p s.versions = some dv) :
    Spares session.appid s (removeDocVersion dv s).2 := by
  have positive := session.appid_pos
  have appid : dv.appid = session.appid := by
    rw [← own]
    exact (docVersion_read_some read).2.1 (by omega)
  rw [removeDocVersion_eq wf, appid]
  split
  · exact .refl
  · exact ((Spares.shared .refl rfl).deleteVersions positive _ _).follow positive _

/-- **A request changes rows of its own application only.** -/
theorem exec_spares (request : Request) (wf : Wf config s) :
    Spares request.session.appid s (exec config request s) := by
  obtain ⟨session, call⟩ := request
  cases call with
  | prepareUpload param =>
    change Ends (prepareUpload config session param) s fun _ s' => Spares session.appid s s'
    refine (prepareUpload_ends wf).mono ?_
    rintro _ _ (⟨fault, -, rfl⟩ | ⟨noDoc, prepared⟩)
    · exact .issueDocid .refl
    · exact spares_withNewDoc.trans prepared.spares
  | writeChunkData saves cup ins => exact Written.spares wf (writeChunkData_ends wf)
  | finishUpload docid => exact Finished.spares wf (finishUpload_ends wf)
  | createClbRef clb => exact Referred.spares (createClbRef_ends wf)
  | createDoc isPub resource => exact Created.spares (fun _ _ => .refl) (createDoc_ends wf)
  | createDocForJson clbid isPub resource =>
    change Ends (createDocForJson config session clbid isPub resource) s
      fun _ s' => Spares session.appid s s'
    have counted : ∀ dv s, Spares session.appid s (countKey dv s).2 := fun _ _ =>
      .shared .refl rfl
    refine (createDocForJson_ends wf).mono fun _ _ created => ?_
    cases created with
    | refused => exact .refl
    | created zero created => exact created.spares counted
    | advanced nonzero last advanced => exact advanced.spares (counted _)
  | createMultiDocs isPub entries =>
    exact (@createMultiDocs_ends _ _ _ (fun s' => Spares session.appid s s') _ _ wf .refl
      fun _ _ _ _ spares _ _ entered => spares.trans entered.spares).2
  | updateDoc docid resource => exact Updated.spares (updateDoc_ends wf)
  | removeDoc docid =>
    change Ends (removeDoc session docid) s fun _ s' => Spares session.appid s s'
    refine removeDoc_ends.mono ?_
    rintro _ _ (rfl | rfl)
    · exact .refl
    · exact removeDocument_spares
  | removeVersion dp =>
    change Ends (removeVersion session dp) s fun _ s' => Spares session.appid s s'
    refine removeVersion_ends.mono ?_
    rintro _ _ (rfl | ⟨p, dv, converted, read, rfl⟩)
    · exact .refl
    · exact removeDocVersion_spares wf (convertToPair_eq_some converted).1 read

/-! ## Runs -/

/-- **No application changes the rows of another.** In every run of requests from a reachable state,
however they are ordered and whatever they ask for, the documents, versions and uploads of an
application that makes none of them are the same rows at the end, and its next document id is. -/
theorem tenant_rows_kept {other : Int} (reachable : Reachable config s)
    (run : Reaches (exec config) (fun request _ => request.session.appid ≠ other) s s') :
    s'.holdings other = s.holdings other := by
  refine (@Reaches.invariant _ _ _ _ _ _
    (fun t => Wf config t ∧ t.holdings other = s.holdings other) run ⟨reachable.wf, rfl⟩ ?_).2
  rintro request t foreign ⟨wf, same⟩
  have spared := exec_spares request wf other (Ne.symm foreign)
  exact ⟨exec_wf request wf, spared.trans same⟩

def neighbour : Session := { someSession with appid := 2, appid_pos := by decide }

/-- Requests of a neighbour that select rows by as little as the handlers let them. -/
def intrusions : List Request :=
  [Call.createDoc 1 byteFile, .updateDoc 0 byteFile, .finishUpload 0,
    .removeVersion ⟨1, "latest".toList⟩, .removeDoc 0].map (Request.mk neighbour)

theorem tenant_rows_kept_intrusions :
    (run (exec countingConfig) intrusions (storeAfter [.createDoc 0 byteFile])).holdings 1 =
      (storeAfter [.createDoc 0 byteFile]).holdings 1 := by
  refine tenant_rows_kept (reachable_storeAfter _) (Reaches.append .refl ?_)
  exact ⟨by decide, by decide, by decide, by decide, by decide, trivial⟩

end Calls

end Clb
