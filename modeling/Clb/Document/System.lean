/-
# Document.System -- the server as a state machine

A `Call` is a request that changes the store, `exec` what it does to it. Requests are executed one at
a time, by any sessions in any order; a state is reachable if such a run leads to it from the empty
store. `exec_wf` is the step lemma and `Reachable.wf` the run lemma of the well formed stores. -/
import Clb.Document.HandlerOutcomes
import Clb.Document.Removal
import Clb.Lib.Machine

set_option autoImplicit false

namespace Clb

open Clb.Lib Clb.Dao Clb.Lib.Action DocumentFacade Handlers

inductive Call where
  | prepareUpload (param : PrepareChunkUploadParam)
  | writeChunkData (saves : Saves) (cup : ExecuteChunkUploadParam) (ins : InputStream)
  | finishUpload (docid : Int)
  | createClbRef (clb : ClbMeta)
  | createDoc (isPub : Int) (resource : Resource)
  | createDocForJson (clbid isPub : Int) (resource : Resource)
  | createMultiDocs (isPub : Int) (entries : List (Text × Resource))
  | updateDoc (docid : Int) (resource : Resource)
  | removeDoc (docid : Int)
  | removeVersion (dp : DocPair)

/-- A call made in a session. -/
structure Request where
  session : Session
  call : Call

def exec (config : Config) (request : Request) (s : Store) : Store :=
  match request.call with
  | .prepareUpload param => (prepareUpload config request.session param s).2
  | .writeChunkData saves cup ins => (writeChunkData request.session saves cup ins s).2
  | .finishUpload docid => (finishUpload request.session docid s).2
  | .createClbRef clb => (createClbRef request.session clb s).2
  | .createDoc isPub resource => (createDoc config request.session isPub resource s).2
  | .createDocForJson clbid isPub resource =>
    (createDocForJson config request.session clbid isPub resource s).2
  | .createMultiDocs isPub entries => (createMultiDocs config request.session isPub entries s).2
  | .updateDoc docid resource => (updateDoc config request.session docid resource s).2
  | .removeDoc docid => (removeDoc request.session docid s).2
  | .removeVersion dp => (removeVersion request.session dp s).2

/-- The states of the runs in which every request meets a condition. -/
def ReachableUnder (config : Config) (guard : Request → Store → Prop) : Store → Prop :=
  Reaches (exec config) guard Store.empty

def Reachable (config : Config) : Store → Prop := ReachableUnder config fun _ _ => True

variable {config : Config} {session : Session} {s : Store}

/-- What `removeDoc` does: nothing, or the removal of the document. -/
theorem removeDoc_ends {docid : Int} :
    Ends (removeDoc session docid) s fun _ s' =>
      s' = s ∨ s' = (removeDocument session.appid docid s).2 := by
  unfold removeDoc getDocMetaByDocid
  refine ends_bind (ends_bind (ends_read (ends_require ?_ fun _ => .inl rfl)))
  intro doc read
  exact ends_bind (ends_raiseIf (fun _ => .inl rfl) fun _ => .inr rfl)

/-- What `removeVersion` does: nothing, or the removal of the version it read. -/
theorem removeVersion_ends {dp : DocPair} :
    Ends (removeVersion session dp) s fun _ s' =>
      s' = s ∨ ∃ p dv, convertToPair session.appid dp = some p ∧
        DocVersionDAO.read p s.versions = some dv ∧ s' = (removeDocVersion dv s).2 := by
  unfold removeVersion getDocMetaByDocid getDocVersion
  refine ends_bind (ends_require ?_ fun _ => .inl rfl)
  intro p converted
  refine ends_bind (ends_bind (ends_read (ends_require ?_ fun _ => .inl rfl)))
  intro doc _
  refine ends_bind (ends_raiseIf (fun _ => .inl rfl) fun _ => ?_)
  refine ends_bind (ends_bind (ends_read (ends_require ?_ fun _ => .inl rfl)))
  intro dv read
  exact .inr ⟨p, dv, converted, read, rfl⟩

theorem removeDocVersion_wf (wf : Wf config s) (dv : DocVersion) :
    Wf config (removeDocVersion dv s).2 := by
  have removed := @removeDocVersion_ends _ _ wf dv
  rcases removed with ⟨-, -, same⟩ | ⟨key, docs, -, -, wf'⟩
  · rw [same]
    exact wf
  · exact wf'

/-- **One request keeps the store well formed.** -/
theorem exec_wf (request : Request) (wf : Wf config s) : Wf config (exec config request s) := by
  obtain ⟨session, call⟩ := request
  cases call with
  | prepareUpload param =>
    change Ends (prepareUpload config session param) s fun _ s' => Wf config s'
    refine (prepareUpload_ends wf).mono ?_
    rintro _ _ (⟨fault, -, rfl⟩ | ⟨noDoc, prepared⟩)
    · exact wf.issueDocid _
    · exact prepared.wf (wf.withNewDoc 0 noDoc)
  | writeChunkData saves cup ins => exact Written.wf wf (writeChunkData_ends wf)
  | finishUpload docid => exact Finished.wf wf (finishUpload_ends wf)
  | createClbRef clb => exact Referred.wf wf (createClbRef_ends wf)
  | createDoc isPub resource => exact Created.wf wf (fun _ _ wf' => wf') (createDoc_ends wf)
  | createDocForJson clbid isPub resource => exact JsonCreated.wf wf (createDocForJson_ends wf)
  | createMultiDocs isPub entries =>
    exact (createMultiDocs_ends wf trivial fun _ _ _ _ _ _ _ _ => trivial).1
  | updateDoc docid resource => exact Updated.wf wf (updateDoc_ends wf)
  | removeDoc docid =>
    change Ends (removeDoc session docid) s fun _ s' => Wf config s'
    refine removeDoc_ends.mono ?_
    rintro _ _ (rfl | rfl)
    · exact wf
    · exact removeDocument_wf wf _ _
  | removeVersion dp =>
    change Ends (removeVersion session dp) s fun _ s' => Wf config s'
    refine removeVersion_ends.mono ?_
    rintro _ _ (rfl | ⟨p, dv, -, -, rfl⟩)
    · exact wf
    · exact removeDocVersion_wf wf dv

theorem ReachableUnder.wf {guard : Request → Store → Prop} (run : ReachableUnder config guard s) :
    Wf config s :=
  run.invariant Wf.empty fun request _ _ => exec_wf request

/-- What holds at first and is kept by every admitted request, in well formed stores, holds in every
state of the runs. -/
theorem ReachableUnder.invariant {guard : Request → Store → Prop} {holds : Store → Prop}
    (run : ReachableUnder config guard s) (initial : holds Store.empty)
    (kept : ∀ request s, guard request s → Wf config s → holds s → holds (exec config request s)) :
    holds s :=
  (@Reaches.invariant _ _ _ _ _ _ (fun s => Wf config s ∧ holds s) run ⟨Wf.empty, initial⟩
    fun request s admitted both =>
      ⟨exec_wf request both.1, kept request s admitted both.1 both.2⟩).2

/-- **Every reachable store is well formed.** -/
theorem Reachable.wf (run : Reachable config s) : Wf config s := ReachableUnder.wf run

/-! ## Runs given by their requests -/

/-- A server whose id generator counts from one. -/
def countingConfig : Config where
  nextID _ n := n + 1
  nextID_pos _ n := by omega
  nextID_injective _ a b same := by simpa using same

def someSession : Session := ⟨1, "owner".toList, by decide, by decide⟩

/-- The store after a list of calls of one session. -/
def storeAfter (calls : List Call) : Store :=
  run (exec countingConfig) (calls.map (Request.mk someSession)) Store.empty

theorem reachable_storeAfter (calls : List Call) : Reachable countingConfig (storeAfter calls) :=
  Reaches.append .refl (admits_always _ _)

end Clb
