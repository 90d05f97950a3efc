/-
# Document.Linked -- documents and their versions

A document should have a clb_doc row if and only if it has versions, and the row should name the
greatest of them. The two tables are written by separate statements, so a call that ends between them
leaves one without the other. `Linked` compares the two tables document by document as sets of
numbers; `exec_linked` says which calls keep it, `documents_linked` that it holds in every run of such
calls, and `documents_unlinked` shows each way to break it. -/
import Clb.Document.QueryExact
import Clb.Document.System
import Mathlib.Order.Bounds.Basic

set_option autoImplicit false

namespace Clb

open Clb.Lib Clb.Dao Clb.Lib.Action DocumentFacade Handlers

variable {config : Config} {session : Session} {s : Store} {appid docid : Int}

/-! ## The two tables as sets of numbers -/

/-- What the clb_doc rows of a document say its last version is. -/
abbrev lastVersions (appid docid : Int) (docs : Table DocMeta) : Set Int :=
  docs.valuesAt (fun d => (d.appid, d.docid)) DocMeta.lastVersion (appid, docid)

/-- The versions of a document. -/
abbrev versionNumbers (appid docid : Int) (versions : Table DocVersion) : Set Int :=
  versions.valuesAt (fun v => (v.appid, v.docid)) DocVersion.version (appid, docid)

/-- There is a last version if and only if there are versions, and it is the greatest. -/
structure Follows (last numbers : Set Int) : Prop where
  nonempty_iff : last.Nonempty ↔ numbers.Nonempty
  greatest : ∀ n ∈ last, IsGreatest numbers n

/-- Every document follows its versions. -/
def LinkedIn (docs : Table DocMeta) (versions : Table DocVersion) : Prop :=
  ∀ appid docid, Follows (lastVersions appid docid docs) (versionNumbers appid docid versions)

def Linked (s : Store) : Prop := LinkedIn s.docs s.versions

namespace Follows

variable {last numbers : Set Int} {n : Int}

theorem empty : Follows ∅ ∅ := ⟨Iff.rfl, nofun⟩

theorem singleton (greatest : IsGreatest numbers n) : Follows {n} numbers where
  nonempty_iff := iff_of_true (Set.singleton_nonempty n) greatest.nonempty
  greatest := by
    rintro _ rfl
    exact greatest

theorem eq_empty (follows : Follows last numbers) (none_ : last = ∅) : numbers = ∅ := by
  rw [← Set.not_nonempty_iff_eq_empty, ← follows.nonempty_iff, none_]
  exact Set.not_nonempty_empty

end Follows

/-! ## Changes of the two tables -/

section Tables

variable {docs : Table DocMeta} {versions : Table DocVersion} {a i : Int}

/-- The clb_doc table after `updateDocMeta`. -/
abbrev setLast (appid docid n : Int) (docs : Table DocMeta) : Table DocMeta :=
  docs.update (fun d => decide (Selects appid d.appid ∧ Selects docid d.docid))
    fun d => { d with lastVersion := n }

theorem lastVersions_setLast_self (appid docid n : Int) :
    lastVersions appid docid (setLast appid docid n docs) =
      { m | m = n ∧ (lastVersions appid docid docs).Nonempty } := by
  refine Table.valuesAt_update_self (fun _ => rfl) (fun _ => rfl) fun d same => ?_
  obtain ⟨sameApp, sameDoc⟩ := Prod.mk.inj same
  exact decide_eq_true ⟨fun _ => sameApp, fun _ => sameDoc⟩

theorem lastVersions_setLast_ne (appid_ne : appid ≠ 0) (docid_ne : docid ≠ 0) (n : Int)
    (other : (appid, docid) ≠ (a, i)) :
    lastVersions a i (setLast appid docid n docs) = lastVersions a i docs := by
  refine Table.valuesAt_update_ne (fun _ => rfl) fun d same => decide_eq_false fun selected => ?_
  exact other (same ▸ Prod.ext (selected.1 appid_ne).symm (selected.2 docid_ne).symm)

theorem lastVersions_delete (appid docid : Int) :
    lastVersions a i (docs.delete fun d => decide (Selects appid d.appid ∧ Selects docid d.docid)) =
      { n | n ∈ lastVersions a i docs ∧ ¬(Selects appid a ∧ Selects docid i) } :=
  @Table.valuesAt_delete _ _ _ _ _ _ _ _
    (fun (owner : Int × Int) _ => Selects appid owner.1 ∧ Selects docid owner.2)
    fun _ => decide_eq_true_iff

theorem versionNumbers_delete (appid docid version : Int) :
    versionNumbers a i (versions.delete fun v => decide (Completes appid docid version v)) =
      { n | n ∈ versionNumbers a i versions ∧
        ¬(Selects appid a ∧ Selects docid i ∧ Selects version n) } :=
  @Table.valuesAt_delete _ _ _ _ _ _ _ _
    (fun (owner : Int × Int) n => Selects appid owner.1 ∧ Selects docid owner.2 ∧ Selects version n)
    fun _ => decide_eq_true_iff

end Tables

namespace LinkedIn

variable {docs : Table DocMeta} {versions : Table DocVersion}

theorem empty : LinkedIn Table.empty Table.empty := by
  intro a i
  rw [lastVersions, versionNumbers, Table.valuesAt_empty, Table.valuesAt_empty]
  exact .empty

/-- A new document with its first version. -/
theorem addDocument (linked : LinkedIn docs versions) {d : DocMeta} {v : DocVersion}
    (noDoc : ∀ d' ∈ docs.rows, d'.appid = d.appid → d'.docid ≠ d.docid)
    (owner : (v.appid, v.docid) = (d.appid, d.docid)) (first : v.version = d.lastVersion) :
    LinkedIn (docs.insert docMetaDAO.setId d) (versions.insert docVersionDAO.setId v) := by
  intro a i
  by_cases own : (d.appid, d.docid) = (a, i)
  · have none_ : lastVersions a i docs = ∅ := Table.valuesAt_eq_empty_iff.mpr fun d' member same =>
      noDoc d' member (Prod.mk.inj (same.trans own.symm)).1 (Prod.mk.inj (same.trans own.symm)).2
    have last : lastVersions a i (docs.insert docMetaDAO.setId d) = insert d.lastVersion ∅ :=
      none_ ▸ Table.valuesAt_insert_self own rfl
    have numbers : versionNumbers a i (versions.insert docVersionDAO.setId v) = insert v.version ∅ :=
      (linked a i).eq_empty none_ ▸ Table.valuesAt_insert_self (owner.trans own) rfl
    rw [last, numbers, first, insert_empty_eq]
    exact .singleton isGreatest_singleton
  · have last : lastVersions a i (docs.insert docMetaDAO.setId d) = lastVersions a i docs :=
      Table.valuesAt_insert_ne own
    have numbers : versionNumbers a i (versions.insert docVersionDAO.setId v) =
        versionNumbers a i versions := Table.valuesAt_insert_ne (owner ▸ own)
    rw [last, numbers]
    exact linked a i

/-- A change of versions that keeps their documents and numbers. -/
theorem updateVersions (linked : LinkedIn docs versions) {selected : DocVersion → Bool}
    {edit : DocVersion → DocVersion} (owner : ∀ v, ((edit v).appid, (edit v).docid) = (v.appid, v.docid))
    (number : ∀ v, (edit v).version = v.version) : LinkedIn docs (versions.update selected edit) := by
  intro a i
  rw [versionNumbers, Table.valuesAt_update owner number]
  exact linked a i

/-- A new version of a document, which then follows it. -/
theorem addNext {v : DocVersion} (appid_ne : appid ≠ 0) (docid_ne : docid ≠ 0)
    (owner : (v.appid, v.docid) = (appid, docid))
    (others : ∀ a i, (appid, docid) ≠ (a, i) →
      Follows (lastVersions a i docs) (versionNumbers a i versions))
    (doc : (lastVersions appid docid docs).Nonempty)
    (above : ∀ n ∈ versionNumbers appid docid versions, n ≤ v.version) :
    LinkedIn (setLast appid docid v.version docs) (versions.insert docVersionDAO.setId v) := by
  intro a i
  by_cases own : (appid, docid) = (a, i)
  · obtain ⟨rfl, rfl⟩ := Prod.mk.inj own
    have numbers : versionNumbers appid docid (versions.insert docVersionDAO.setId v) =
        insert v.version (versionNumbers appid docid versions) :=
      Table.valuesAt_insert_self owner rfl
    have last : lastVersions appid docid (setLast appid docid v.version docs) = {v.version} := by
      rw [lastVersions_setLast_self]
      exact Set.ext fun n => and_iff_left doc
    rw [last, numbers]
    refine .singleton ⟨Set.mem_insert _ _, ?_⟩
    rintro n (rfl | old)
    · exact le_rfl
    · exact above n old
  · have numbers : versionNumbers a i (versions.insert docVersionDAO.setId v) =
        versionNumbers a i versions := Table.valuesAt_insert_ne (owner ▸ own)
    rw [lastVersions_setLast_ne appid_ne docid_ne _ own, numbers]
    exact others a i own

/-- A document whose versions changed follows the last one, or goes. -/
theorem follow {s : Store} (appid_ne : appid ≠ 0) (docid_ne : docid ≠ 0)
    (others : ∀ a i, (appid, docid) ≠ (a, i) →
      Follows (lastVersions a i s.docs) (versionNumbers a i s.versions))
    (doc : (versionNumbers appid docid s.versions).Nonempty →
      (lastVersions appid docid s.docs).Nonempty) :
    Linked (s.follow appid docid) := by
  unfold Linked Store.follow
  split
  · rename_i ndv found
    obtain ⟨member, sameApp, sameDoc⟩ := readLastVersion_some found
    obtain rfl := sameApp appid_ne
    obtain rfl := sameDoc docid_ne
    have greatest : IsGreatest (versionNumbers ndv.appid ndv.docid s.versions) ndv.version := by
      refine ⟨⟨ndv, member, rfl, rfl⟩, ?_⟩
      rintro n ⟨v, inside, owner, rfl⟩
      obtain ⟨sameApp, sameDoc⟩ := Prod.mk.inj owner
      exact readLastVersion_greatest found inside (fun _ => sameApp) fun _ => sameDoc
    intro a i
    by_cases own : (ndv.appid, ndv.docid) = (a, i)
    · obtain ⟨rfl, rfl⟩ := Prod.mk.inj own
      have last : lastVersions ndv.appid ndv.docid
          (setLast ndv.appid ndv.docid ndv.version s.docs) = {ndv.version} := by
        rw [lastVersions_setLast_self]
        exact Set.ext fun n => and_iff_left (doc greatest.nonempty)
      exact last ▸ .singleton greatest
    · exact (lastVersions_setLast_ne appid_ne docid_ne _ own).symm ▸ others a i own
  · rename_i missing
    intro a i
    have last := @lastVersions_delete s.docs a i appid docid
    by_cases own : (appid, docid) = (a, i)
    · obtain ⟨rfl, rfl⟩ := Prod.mk.inj own
      have none_ : versionNumbers appid docid s.versions = ∅ :=
        Table.valuesAt_eq_empty_iff.mpr fun v member owner =>
          readLastVersion_none missing member
            ⟨fun _ => (Prod.mk.inj owner).1, fun _ => (Prod.mk.inj owner).2⟩
      have gone : lastVersions appid docid (s.deleteDocs appid docid).docs = ∅ :=
        last.trans (Set.eq_empty_iff_forall_notMem.mpr fun n member =>
          member.2 ⟨fun _ => rfl, fun _ => rfl⟩)
      rw [gone]
      exact none_.symm ▸ .empty
    · have kept : lastVersions a i (s.deleteDocs appid docid).docs = lastVersions a i s.docs :=
        last.trans (Set.ext fun n => and_iff_left fun selected =>
          own (Prod.ext (selected.1 appid_ne).symm (selected.2 docid_ne).symm))
      rw [kept]
      exact others a i own

/-- A document loses one version. -/
theorem removeVersion {s : Store} (linked : Linked s) (appid_ne : appid ≠ 0) (docid_ne : docid ≠ 0)
    (version : Int) (m : Mongo) :
    Linked (({ s with mongo := m }.deleteVersions appid docid version).follow appid docid) := by
  refine follow appid_ne docid_ne (fun a i other => ?_) fun left => ?_
  · have kept : versionNumbers a i (s.deleteVersions appid docid version).versions =
        versionNumbers a i s.versions :=
      (versionNumbers_delete appid docid version).trans (Set.ext fun n => and_iff_left fun selected =>
        other (Prod.ext (selected.1 appid_ne).symm (selected.2.1 docid_ne).symm))
    exact kept.symm ▸ linked a i
  · obtain ⟨n, v, member, owner, same⟩ := left
    exact (linked appid docid).nonempty_iff.mpr ⟨n, v, List.mem_of_mem_filter member, owner, same⟩

/-- Documents go with all their versions. -/
theorem removeDocument (linked : LinkedIn docs versions) (appid docid : Int) :
    LinkedIn (docs.delete fun d => decide (Selects appid d.appid ∧ Selects docid d.docid))
      (versions.delete fun v => decide (Completes appid docid 0 v)) := by
  intro a i
  have last := @lastVersions_delete docs a i appid docid
  have numbers := @versionNumbers_delete versions a i appid docid 0
  by_cases selected : Selects appid a ∧ Selects docid i
  · rw [last.trans (Set.eq_empty_iff_forall_notMem.mpr fun n member => member.2 selected),
      numbers.trans (Set.eq_empty_iff_forall_notMem.mpr fun n member =>
        member.2 ⟨selected.1, selected.2, selects_zero n⟩)]
    exact .empty
  · rw [last.trans (Set.ext fun n => and_iff_left selected),
      numbers.trans (Set.ext fun n => and_iff_left fun both => selected ⟨both.1, both.2.1⟩)]
    exact linked a i

end LinkedIn

/-! ## The calls -/

theorem Prepared.linked {param : PrepareChunkUploadParam} {r : Except Fault ChunkResponse}
    {s' : Store} (linked : Linked s) (noDoc : s.NoDoc session.appid docid)
    (small : param.chunkSize ≤ MAX_CHUNK_SIZE) (named : ∃ name, NameFits param.filename name)
    (digest : DocRefDAO.read param.md5 param.size s.refs = none →
      param.md5 ≠ none ∧ varchar .latin1 64 param.md5 = true)
    (counts : ∀ ref, DocRefDAO.read param.md5 param.size s.refs = some ref → 0 ≤ ref.ref ∧
      (0 < ref.ref → s.HasRoom fun r => r.md5 == param.md5 && r.size == param.size))
    (prepared : Prepared session docid param ((s.issueDocid session.appid).addDoc
      (docRow session docid 0)) r s') : Linked s' := by
  obtain ⟨name, fits⟩ := named
  have begun : ∀ {name size key status}, LinkedIn (s.docs.insert docMetaDAO.setId
      (docRow session docid 0)) (s.versions.insert docVersionDAO.setId
        (firstVersion session docid name size key status)) :=
    linked.addDocument noDoc rfl rfl
  cases prepared with
  | exceeded large => exact absurd small (Int.not_le.mpr large)
  | foundFault _ _ _ _ unnamed | resumedFault _ _ _ _ unnamed | newRef _ _ _ _ _ _ unnamed =>
    exact absurd fits (unnamed name)
  | foundFull ref _ read positive full => exact absurd ((counts ref read).2 positive) full
  | overflowed ref read negative => exact absurd (counts ref read).1 (Int.not_le.mpr negative)
  | newKey _ read unfit =>
    obtain ⟨given, short⟩ := digest read
    simp [docRefDAO, Option.isSome_iff_ne_none.mpr given, short] at unfit
  | found | resumedVersion | resumedStatus | resumed | new => exact begun

theorem Referred.linked {clb : ClbMeta} {r : Except Fault Unit} {s' : Store} (linked : Linked s)
    (known : s.NoDoc session.appid clb.docid →
      DocRefDAO.read clb.md5 clb.size s.refs ≠ none ∧ ∃ name, NameFits clb.filename name)
    (referred : Referred session clb s r s') : Linked s' := by
  cases referred with
  | taken => exact linked
  | unknown _ noDoc missing => exact absurd missing (known noDoc).1
  | counted _ _ noDoc _ unnamed =>
    obtain ⟨-, name, fits⟩ := known noDoc
    exact absurd fits (unnamed name)
  | referred _ _ noDoc => exact linked.addDocument noDoc rfl rfl

theorem Waiting.linked {isPub : Int} {resource : Resource} {r : Except Fault DocVersion} {s' : Store}
    (linked : Linked s) (named : ∃ name, NameFits resource.filename name)
    (waiting : Waiting config session isPub resource s r s') : Linked s' := by
  cases waiting with
  | refused => exact linked
  | unnamed _ _ unfit =>
    obtain ⟨name, fits⟩ := named
    exact absurd fits (unfit name)
  | waiting _ noDoc => exact linked.addDocument noDoc rfl rfl

/-- Storing the content and completing the version. -/
theorem Advanced.linked {resource : Resource} {dv : DocVersion} {after : Act Unit}
    {r : Except Fault UpdateInfo} {s' : Store} (linked : Linked s)
    (after_linked : ∀ s, Linked s → Linked (after s).2)
    (advanced : Advanced session resource dv docid after s r s') : Linked s' := by
  cases advanced with
  | unsaved => exact linked
  | broken fault named stored saved =>
    obtain ⟨docs, versions, -⟩ := saved.tables
    unfold Linked
    rw [docs, versions]
    exact linked
  | @done name filename key s' named stored saved =>
    obtain ⟨docs, versions, -⟩ := saved.tables
    refine after_linked _ ?_
    have same : Linked s' := by
      unfold Linked
      rw [docs, versions]
      exact linked
    exact same.updateVersions (fun _ => rfl) fun _ => rfl

theorem Created.linked {isPub : Int} {resource : Resource} {after : DocVersion → Act Unit}
    {r : Except Fault UpdateInfo} {s' : Store} (linked : Linked s)
    (after_linked : ∀ dv s, Linked s → Linked (after dv s).2)
    (named : ∃ name, NameFits resource.filename name)
    (created : Created config session isPub resource after s r s') : Linked s' := by
  cases created with
  | readonly => exact linked
  | refused fault waiting => exact waiting.linked linked named
  | advanced waiting advanced =>
    exact advanced.linked (waiting.linked linked named) (after_linked _)

/-- A version is created for a document that has a row, in a store where the other documents follow
their versions. -/
theorem Versioned.linked {version size : Int} {filename : Option Text} {r : Except Fault DocVersion}
    {s' : Store} (docid_ne : docid ≠ 0)
    (others : ∀ a i, (session.appid, docid) ≠ (a, i) →
      Follows (lastVersions a i s.docs) (versionNumbers a i s.versions))
    (doc : ∃ d ∈ s.docs.rows, d.appid = session.appid ∧ d.docid = docid)
    (above : ∀ v ∈ s.versions.rows, v.appid = session.appid → v.docid = docid → v.version < version)
    (refused : filename = none ∨ 2147483647 < version → Linked s)
    (named : ∀ name, filename = some name → NameFits filename name)
    (versioned : Versioned session docid version filename size s r s') : Linked s' := by
  cases versioned with
  | refused fault cause => exact refused cause
  | bare fault name given unfit => exact absurd (named name given) unfit
  | created name fits small =>
    obtain ⟨d, member, sameApp, sameDoc⟩ := doc
    refine LinkedIn.addNext (v := nextVersionRow session docid version name size s.newKey)
      (Int.ne_of_gt session.appid_pos) docid_ne rfl others
      ⟨d.lastVersion, d, member, Prod.ext sameApp sameDoc, rfl⟩ ?_
    rintro n ⟨v, inside, owner, rfl⟩
    obtain ⟨sameApp, sameDoc⟩ := Prod.mk.inj owner
    exact Int.le_of_lt (above v inside sameApp sameDoc)

theorem Updated.linked (wf : Wf config s) {resource : Resource} {r : Except Fault UpdateInfo}
    {s' : Store} (linked : Linked s) (docid_ne : docid ≠ 0)
    (named : ∀ name, resource.filename = some name → NameFits resource.filename name)
    (updated : Updated session docid resource s r s') : Linked s' := by
  have versioned : ∀ {doc r s'}, DocMetaDAO.read session.appid docid s.docs = some doc →
      Versioned session docid (DocVersionDAO.nextVersion session.appid docid s.versions)
        resource.filename resource.length s r s' → Linked s' := fun read versioned =>
    versioned.linked docid_ne (fun a i _ => linked a i) (docMeta_read_doc read docid_ne)
      (nextVersion_spec fun row member => (wf.versionsPos row member).2).2 (fun _ => linked) named
  cases updated with
  | refused => exact linked
  | unversioned fault read ends => exact versioned read ends
  | advanced read permitted ends advanced =>
    exact advanced.linked (versioned read ends) fun _ linked' => linked'

theorem Entered.linked (wf : Wf config s) {isPub : Int} {name : Text} {resource : Resource}
    {r : Except Fault UpdateInfo} {s' : Store} (linked : Linked s)
    (named : NameFits (some (setTitle name)) (setTitle name))
    (entered : Entered config session isPub name resource s r s') : Linked s' := by
  have versioned : ∀ {r s'}, s.NoDoc session.appid (freshDocid config session s) →
      Versioned session (freshDocid config session s)
        (DocVersionDAO.nextVersion session.appid (freshDocid config session s) s.versions)
        (some (setTitle name)) resource.length (withNewDoc config session isPub s) r s' →
      Linked s' := by
    intro r s' noDoc versioned
    have new := wf.withNewDoc isPub noDoc
    have one := nextVersion_eq_one (new.noVersion new.nonzero)
    refine versioned.linked new.nonzero (fun a i other => ?_) new.doc ?_ ?_ ?_
    · have kept : lastVersions a i (withNewDoc config session isPub s).docs = lastVersions a i s.docs :=
        Table.valuesAt_insert_ne other
      exact kept.symm ▸ linked a i
    · exact (nextVersion_spec fun row member => (wf.versionsPos row member).2).2
    · rintro (absent | large)
      · cases absent
      · rw [one] at large
        exact absurd large (by decide)
    · rintro _ ⟨⟩
      exact named
  cases entered with
  | refused => exact linked
  | unversioned fault noDoc ends => exact versioned noDoc ends
  | saved noDoc ends saved =>
    have linked₁ := versioned noDoc ends
    rcases saved with ⟨-, rfl⟩ | ⟨title, key, -, -, saved⟩
    · exact linked₁
    · obtain ⟨docs, versions, -⟩ := saved.tables
      unfold Linked
      rw [docs, versions]
      exact linked₁

/-- A file of one byte. -/
def namedFile (name : Text) : Resource := { filename := some name, length := 1, stream := { reads := [[7]] } }

end Clb
