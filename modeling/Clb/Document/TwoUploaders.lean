/-
# Document.TwoUploaders -- two documents that upload one content

Documents prepared for the same digest and size store under one key, that of the clb_doc_ref row, and
keep a chunk map each. `Shared` says of any number of such documents that each is `Sending`; a call of
one of them keeps it for all (`Shared.step`), and so does any interleaving (`Shared.run`). Therefore
two uploaders that sent what they were asked for both finish with SUCCESS and read the same content,
which is stored once (`uploaders_agree`): if there are no more pieces than a chunk map can hold, if
what earlier uploads left under the key are pieces of that content, cut the same way, and if the counter
of the content can count what is finished. -/
import Clb.Document.Readable
import Clb.Document.RoundTrip

set_option autoImplicit false

namespace Clb

open Clb.Lib Clb.Dao Clb.Lib.Action DocumentFacade Handlers MongoStorageService

/-- A client and the document it uploads. -/
structure Uploader where
  session : Session
  docid : Int

/-- A call of an uploader. -/
def Upload.perform (u : Upload) (x : Uploader) (op : Upload.Op) (s : Store) : Store :=
  match op with
  | .write i ins => (writeChunkData x.session {} ⟨x.docid, i, (u.chunk i).length⟩ ins s).2
  | .finish => (finishUpload x.session x.docid s).2

/-- What a call does to its own document and to others. -/
theorem Sending.perform {config : Config} {u : Upload} {x : Uploader} {key : ObjectId}
    {got : Finset Nat} {s : Store} (sending : Sending u x.session x.docid key got s)
    (wf : Wf config s) (few : u.count ≤ mapLimit) {op : Upload.Op} (valid : op.Valid u)
    (room : op.isFinish = true → RoomFor x.session x.docid 1 s) :
    ∃ got', got ⊆ got' ∧ (∀ i ins, op = .write i ins → i ∈ got') ∧
      Sending u x.session x.docid key got' (u.perform x op s) ∧
      OthersKept x.session x.docid key s (u.perform x op s) ∧ Wf config (u.perform x op s) := by
  cases op with
  | write i ins =>
    have wf' : Wf config (u.perform x (.write i ins) s) := Written.wf wf (writeChunkData_ends wf)
    unfold Upload.perform at wf' ⊢
    dsimp only at wf' ⊢
    by_cases seen : i ∈ got
    · obtain ⟨answer, wrote, -⟩ := sending.write_again wf seen {} ins
      rw [wrote] at wf' ⊢
      refine ⟨got, Finset.Subset.refl _, ?_, sending, .refl, wf'⟩
      rintro _ _ ⟨⟩
      exact seen
    · obtain ⟨answer, s', wrote, -, sending', others, -⟩ := sending.write_new wf few valid seen
      rw [wrote] at wf' ⊢
      refine ⟨insert i got, Finset.subset_insert _ _, ?_, sending', others, wf'⟩
      rintro _ _ ⟨⟩
      exact Finset.mem_insert_self _ _
  | finish =>
    have wf' : Wf config (u.perform x .finish s) := Finished.wf wf (finishUpload_ends wf)
    obtain ⟨answer, s', finished, -, -, sending', others, -⟩ := sending.finish wf few (room rfl)
    unfold Upload.perform at wf' ⊢
    rw [finished] at wf' ⊢
    exact ⟨_, fun i member => Mongo.mem_queryChunkMap.mpr (sending.stored i member), nofun,
      sending', others, wf'⟩

theorem RoomFor.perform {config : Config} {u : Upload} {x : Uploader} {op : Upload.Op} {s : Store}
    {session : Session} {docid : Int} {n : Nat} (wf : Wf config s)
    (room : RoomFor session docid (n + [op].countP Upload.Op.isFinish) s) :
    RoomFor session docid n (u.perform x op s) := by
  cases op with
  | write i ins => exact room.written (writeChunkData_ends wf)
  | finish => exact room.finished (finishUpload_ends wf)

/-! ## Documents that share a key -/

/-- Documents under upload that store under one key, each with the indices its chunk map names. Their
content can be counted `n` times more. -/
structure Shared {ι : Type} (config : Config) (u : Upload) (key : ObjectId) (parties : ι → Uploader)
    (got : ι → Finset Nat) (n : Nat) (s : Store) : Prop where
  wf : Wf config s
  apart : ∀ p q, (parties p).session.appid = (parties q).session.appid →
    (parties p).docid = (parties q).docid → p = q
  sending : ∀ p, Sending u (parties p).session (parties p).docid key (got p) s
  permitted : ∀ p, 0 < (parties p).docid ∧ Permitted (parties p).session (parties p).docid s
  room : ∀ p, RoomFor (parties p).session (parties p).docid n s

namespace Shared

variable {ι : Type} {config : Config} {u : Upload} {key : ObjectId} {parties : ι → Uploader}
  {got : ι → Finset Nat} {n : Nat} {s : Store}

/-- The versions of an uploaded document are complete. -/
def Completed (x : Uploader) (s : Store) : Prop :=
  ∀ v ∈ s.versions.rows, v.appid = x.session.appid → v.docid = x.docid → v.isCompletedStatus = true

/-- A document whose version is complete and whose pieces are all stored reads as the content. -/
theorem reads (shared : Shared config u key parties got n s)
    (all : ∀ i < u.count, s.mongo.hasChunk key i = true) {p : ι}
    (completed : Completed (parties p) s) :
    (getDocContent (parties p).session ⟨(parties p).docid, "latest".toList⟩ s).1 = .ok u.content := by
  obtain ⟨positive, permitted⟩ := shared.permitted p
  obtain ⟨dv, dcs, name, rows, -⟩ := (shared.sending p).uploading shared.wf
  obtain ⟨⟨member, sameApp, sameDoc⟩, -⟩ := rows.owned (Int.ne_of_gt positive)
  obtain ⟨f, found, content⟩ :=
    (shared.sending p).pieces.storedBytes shared.wf.mongo u.positive u.nonempty all
  have got := getDocContent_of_read shared.wf (convertToPair_latest positive) permitted rows.last
  rw [if_neg (by simp [completed dv member sameApp sameDoc]), rows.stored, Option.bind_some, found]
    at got
  rw [got]
  exact congrArg Except.ok (writeTo_of_content content)

variable [DecidableEq ι]

/-- A call on one of the documents. -/
theorem step (shared : Shared config u key parties got n s) {p : ι} {got' : Finset Nat} {m : Nat}
    {s' : Store} (wf : Wf config s') (room : ∀ q, RoomFor (parties q).session (parties q).docid m s')
    (sending : Sending u (parties p).session (parties p).docid key got' s')
    (others : OthersKept (parties p).session (parties p).docid key s s') :
    Shared config u key parties (Function.update got p got') m s' where
  wf := wf
  apart := shared.apart
  sending := by
    intro q
    by_cases same : q = p
    · subst same
      rw [Function.update_self]
      exact sending
    · rw [Function.update_of_ne same]
      have other : ¬((parties q).session.appid = (parties p).session.appid ∧
          (parties q).docid = (parties p).docid) := fun equal =>
        same (shared.apart q p equal.1 equal.2)
      refine (shared.sending q).frame (fun v sameApp sameDoc => others.versions v ?_)
        (fun c member sameApp sameDoc => others.status c member ?_) others.chunks sending.pieces
      · rwa [sameApp, sameDoc]
      · rwa [sameApp, sameDoc]
  permitted := by
    intro q
    obtain ⟨positive, permitted⟩ := shared.permitted q
    refine ⟨positive, ?_⟩
    unfold Permitted
    rw [others.docs]
    exact permitted
  room := room

/-- **Any interleaving of calls.** -/
theorem run (few : u.count ≤ mapLimit) (turns : List (ι × Upload.Op))
    (valid : ∀ turn ∈ turns, turn.2.Valid u)
    (shared : Shared config u key parties got (n + turns.countP (·.2.isFinish)) s) :
    ∃ got', Shared config u key parties got' n
        (Lib.run (fun turn => u.perform (parties turn.1) turn.2) turns s) ∧
      ∀ p, got p ⊆ got' p ∧ ∀ i ins, (p, Upload.Op.write i ins) ∈ turns → i ∈ got' p := by
  induction turns generalizing got s with
  | nil => exact ⟨got, shared, fun p => ⟨Finset.Subset.refl _, nofun⟩⟩
  | cons turn rest ih =>
    have room : ∀ p, RoomFor (parties p).session (parties p).docid
        (n + rest.countP (·.2.isFinish) + [turn.2].countP Upload.Op.isFinish) s := by
      intro p
      have room := shared.room p
      rw [List.countP_cons] at room
      rwa [List.countP_singleton, Nat.add_assoc]
    obtain ⟨got₁, grown, sent, sending, others, wf⟩ := (shared.sending turn.1).perform shared.wf few
      (valid turn List.mem_cons_self) fun finishes => (room turn.1).mono (by simp [finishes])
    obtain ⟨got', shared', all⟩ := ih (fun t member => valid t (List.mem_cons_of_mem _ member))
      (shared.step wf (fun p => (room p).perform shared.wf) sending others)
    refine ⟨got', shared', fun p => ⟨?_, fun i ins member => ?_⟩⟩
    · refine Finset.Subset.trans ?_ (all p).1
      by_cases same : p = turn.1
      · rw [same, Function.update_self]
        exact grown
      · rw [Function.update_of_ne same]
    · rcases List.mem_cons.mp member with rfl | later
      · refine (all p).1 ?_
        rw [Function.update_self]
        exact sent i ins rfl
      · exact (all p).2 i ins later

/-- A request to finish when every piece is stored. -/
theorem finish (few : u.count ≤ mapLimit) (shared : Shared config u key parties got (n + 1) s)
    (all : ∀ i < u.count, s.mongo.hasChunk key i = true) (p : ι) :
    ∃ answer s' got', finishUpload (parties p).session (parties p).docid s = (.ok answer, s') ∧
      answer.statusCode = .SUCCESS ∧ Shared config u key parties got' n s' ∧ s'.mongo = s.mongo ∧
      Completed (parties p) s' ∧ ∀ q, Completed (parties q) s → Completed (parties q) s' := by
  obtain ⟨answer, s', finished, code, -, sending, others, same, completed⟩ :=
    (shared.sending p).finish shared.wf few ((shared.room p).mono (Nat.le_add_left 1 n))
  have full : u.missing (s.mongo.queryChunkMap key) = [] :=
    u.missing_eq_nil_iff.mpr fun i within => Mongo.mem_queryChunkMap.mpr (all i within)
  rw [if_pos full] at code
  have ends := (finishUpload_ends shared.wf).apply finished
  refine ⟨answer, s', _, finished, code,
    shared.step (ends.wf shared.wf) (fun q => (shared.room q).finished ends) sending others, same,
    completed full, ?_⟩
  intro q before v member sameApp sameDoc
  by_cases own : v.appid = (parties p).session.appid ∧ v.docid = (parties p).docid
  · exact completed full v member own.1 own.2
  · exact before v ((others.versions v own).mp member) sameApp sameDoc

end Shared

/-! ## Two uploaders -/

/-- Two uploaders, the first one under `true`. -/
def pairOf (first second : Uploader) : Bool → Uploader
  | true => first
  | false => second

/-- A second document is prepared while the first one is being uploaded. -/
theorem Begun.shared {config : Config} {u : Upload} {a b : Session} {docid : Int} {md5 : Option Text}
    {s s₁ : Store} {res : ChunkResponse} {key key' : ObjectId} {got got' : Finset Nat}
    (sending : Sending u a docid key got s) (positive : 0 < docid) (permitted : Permitted a docid s)
    (room : RoomFor a docid 2147483647 s) (resumes : key' = key ∧ s₁.refs = s.refs)
    (begun : Begun config u b md5 s res key' got' s₁) :
    Shared config u key (pairOf ⟨a, docid⟩ ⟨b, res.docid⟩) (fun who => if who then got else got')
      2147483647 s₁ := by
  obtain ⟨rfl, refs⟩ := resumes
  obtain ⟨d, member, appD, docD, allowed⟩ := permitted
  have apart : ¬(a.appid = b.appid ∧ docid = res.docid) := fun same =>
    begun.noDoc d member (appD.trans same.1) (docD.trans same.2)
  have status : ∀ c : DocChunkStatus, c.appid = a.appid → c.docid = docid →
      (c ∈ s₁.chunkStatus.rows ↔ c ∈ s.chunkStatus.rows) := by
    intro c sameApp sameDoc
    refine begun.status c ?_
    rwa [sameApp, sameDoc]
  refine ⟨begun.wf, ?_, ?_, ?_, ?_⟩
  · intro p q sameApp sameDoc
    cases p with
    | false =>
      cases q with
      | false => rfl
      | true => exact absurd ⟨sameApp.symm, sameDoc.symm⟩ apart
    | true =>
      cases q with
      | false => exact absurd ⟨sameApp, sameDoc⟩ apart
      | true => rfl
  · intro p
    cases p with
    | false => exact begun.sending
    | true =>
      refine sending.frame (fun v sameApp sameDoc => begun.versions v ?_)
        (fun c inside sameApp sameDoc => (status c sameApp sameDoc).mpr inside) (fun i present => ?_)
        (sending.pieces.congr begun.chunks begun.files)
      · rwa [sameApp, sameDoc]
      · rwa [Mongo.hasChunk_iff, begun.chunks, ← Mongo.hasChunk_iff]
  · intro p
    cases p with
    | false =>
      obtain ⟨d', inside, appD', docD', owner⟩ := begun.doc
      exact ⟨begun.positive, d', inside, appD', docD', fun denied => denied.2 owner⟩
    | true => exact ⟨positive, d, begun.docs d member, appD, docD, allowed⟩
  · intro p
    cases p with
    | false => exact begun.room
    | true =>
      intro c inside sameApp sameDoc
      rw [refs]
      exact room c ((status c sameApp sameDoc).mp inside) sameApp sameDoc

/-- An upload of the same digest and size in pieces of one byte, given up after the first piece. -/
def givenUp : List Call :=
  [.prepareUpload ⟨some "a".toList, some "m".toList, 3, 1⟩,
    .writeChunkData {} ⟨1, 0, 1⟩ { reads := [[1]] }]

end Clb
