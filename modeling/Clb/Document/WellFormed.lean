/-
# Document.WellFormed -- what holds of the store in every reachable state

The elementary changes of the store, and `Wf`, the facts that every one of them keeps: rows are
numbered and fit their columns, the unique keys hold, every version belongs to a document (or to the
document 0), and only ids and storage keys that were handed out occur. The lemmas `Wf.addDoc`,
`Wf.addVersion` and so on name what a change needs of the state it happens in. -/
import Clb.Dao.Clauses
import Clb.Document.Store
import Clb.Storage.WellFormed

set_option autoImplicit false

namespace Clb

open Clb.Lib Clb.Dao

/-- The rows that `updateStatus` completes. -/
def Completes (appid docid version : Int) (row : DocVersion) : Prop :=
  Selects appid row.appid ∧ Selects docid row.docid ∧ Selects version row.version

instance (appid docid version : Int) (row : DocVersion) :
    Decidable (Completes appid docid version row) :=
  inferInstanceAs (Decidable (_ ∧ _ ∧ _))

namespace Store

/-- The key that `new ObjectId()` gives next. -/
def newKey (s : Store) : ObjectId := ⟨s.mongo.issued⟩

abbrev issueDocid (appid : Int) (s : Store) : Store :=
  { s with docids := Function.update s.docids appid (s.docids appid + 1) }

abbrev issueKey (s : Store) : Store :=
  { s with mongo := { s.mongo with issued := s.mongo.issued + 1 } }

abbrev addDoc (d : DocMeta) (s : Store) : Store :=
  { s with docs := s.docs.insert docMetaDAO.setId d }

abbrev addVersion (v : DocVersion) (s : Store) : Store :=
  { s with versions := s.versions.insert docVersionDAO.setId v }

abbrev addRef (r : DocRef) (s : Store) : Store :=
  { s with refs := s.refs.insert docRefDAO.setId r }

abbrev addStatus (c : DocChunkStatus) (s : Store) : Store :=
  { s with chunkStatus := s.chunkStatus.insert docChunkStatusDAO.setId c }

abbrev replaceStatus (old new : DocChunkStatus) (s : Store) : Store :=
  { s with chunkStatus := s.chunkStatus.replace DocChunkStatus.id old new }

abbrev complete (appid docid version : Int) (s : Store) : Store :=
  { s with
    versions := s.versions.update (fun row => decide (Completes appid docid version row))
      fun row => { row with uploadStatus := some .complete } }

/-- The counters of the rows that satisfy a condition are rewritten. -/
abbrev editRefs (counted : DocRef → Bool) (edit : Int → Int) (s : Store) : Store :=
  { s with refs := s.refs.update counted fun r => { r with ref := edit r.ref } }

/-- `ref=ref+1` on the rows that satisfy a condition. -/
abbrev countRefs (counted : DocRef → Bool) (s : Store) : Store := s.editRefs counted (· + 1)

/-- None of the rows has the greatest `int` as its counter. -/
def HasRoom (counted : DocRef → Bool) (s : Store) : Prop :=
  ∀ r ∈ s.refs.rows, counted r = true → r.ref < 2147483647

instance (counted : DocRef → Bool) (s : Store) : Decidable (s.HasRoom counted) :=
  inferInstanceAs (Decidable (∀ r ∈ s.refs.rows, counted r = true → r.ref < 2147483647))

theorem docids_le_issueDocid {appid other : Int} (s : Store) :
    s.docids other ≤ (s.issueDocid appid).docids other := by
  simp only [Function.update_apply]
  split
  · rename_i same
    rw [same]
    exact Nat.le_succ _
  · exact Nat.le_refl _

/-- A document has no row. -/
def NoDoc (appid docid : Int) (s : Store) : Prop :=
  ∀ d ∈ s.docs.rows, d.appid = appid → d.docid ≠ docid

/-- A document other than 0 has no version. -/
def NoVersion (appid docid : Int) (s : Store) : Prop :=
  docid ≠ 0 → ∀ v ∈ s.versions.rows, v.appid = appid → v.docid ≠ docid

end Store

/-- What tells the versions apart. An update of the document 0 finds any document of the application
and then adds a version to no document; such rows differ in their ids only. -/
def versionKey (v : DocVersion) : Int × Int × Int × Int :=
  (v.appid, v.docid, v.version, if v.docid = 0 then v.id else 0)

/-- The constraints of the tables that the phases of an upload rewrite: the id of a chunk status is
its primary key, and rows fit their columns. -/
structure Constrained (s : Store) : Prop where
  statusNumbered : Table.Numbered DocChunkStatus.id s.chunkStatus
  statusFit : ∀ c ∈ s.chunkStatus.rows, docChunkStatusDAO.fits c = true
  versionsFit : ∀ v ∈ s.versions.rows, docVersionDAO.fits v = true

/-- What holds in every reachable state. -/
structure Wf (config : Config) (s : Store) : Prop where
  docsNumbered : Table.Numbered DocMeta.id s.docs
  versionsNumbered : Table.Numbered DocVersion.id s.versions
  refsNumbered : Table.Numbered DocRef.id s.refs
  statusNumbered : Table.Numbered DocChunkStatus.id s.chunkStatus
  docsFit : ∀ d ∈ s.docs.rows, docMetaDAO.fits d = true
  versionsFit : ∀ v ∈ s.versions.rows, docVersionDAO.fits v = true
  refsFit : ∀ r ∈ s.refs.rows, docRefDAO.fits r = true
  statusFit : ∀ c ∈ s.chunkStatus.rows, docChunkStatusDAO.fits c = true
  docsUnique : s.docs.UniqueBy fun d => (d.appid, d.docid)
  versionsUnique : s.versions.UniqueBy versionKey
  refsUnique : s.refs.UniqueBy fun r => (r.md5, r.size)
  refKeysUnique : s.refs.UniqueBy fun r => r.storageKey
  statusUnique : s.chunkStatus.UniqueBy fun c => (c.appid, c.docid)
  versionDoc : ∀ v ∈ s.versions.rows, v.docid ≠ 0 →
    ∃ d ∈ s.docs.rows, d.appid = v.appid ∧ d.docid = v.docid
  versionsPos : ∀ v ∈ s.versions.rows, 0 < v.appid ∧ 0 < v.version
  statusIssued : ∀ c ∈ s.chunkStatus.rows, c.version = 1 ∧ 0 < c.appid ∧
    ∃ n < s.docids c.appid, config.nextID c.appid n = c.docid
  versionKeys : ∀ v ∈ s.versions.rows, ∀ k, v.storageKey = some k → k.serial < s.mongo.issued
  refKeys : ∀ r ∈ s.refs.rows, ∀ k, r.storageKey = some k → k.serial < s.mongo.issued
  mongo : MongoWf s.mongo
  tempIssued : ∀ entry ∈ s.cache.tempFiles, entry.1.serial < s.mongo.issued

namespace Wf

variable {config : Config} {s : Store}

theorem constrained (wf : Wf config s) : Constrained s :=
  ⟨wf.statusNumbered, wf.statusFit, wf.versionsFit⟩

theorem absent {R : Type} {P : Prop} {r : R} (member : r ∈ ([] : List R)) : P :=
  absurd member List.not_mem_nil

theorem empty : Wf config Store.empty where
  docsNumbered := Table.Numbered.empty
  versionsNumbered := Table.Numbered.empty
  refsNumbered := Table.Numbered.empty
  statusNumbered := Table.Numbered.empty
  docsFit := fun _ => absent
  versionsFit := fun _ => absent
  refsFit := fun _ => absent
  statusFit := fun _ => absent
  docsUnique := Table.UniqueBy.empty
  versionsUnique := Table.UniqueBy.empty
  refsUnique := Table.UniqueBy.empty
  refKeysUnique := Table.UniqueBy.empty
  statusUnique := Table.UniqueBy.empty
  versionDoc := fun _ => absent
  versionsPos := fun _ => absent
  statusIssued := fun _ => absent
  versionKeys := fun _ => absent
  refKeys := fun _ => absent
  mongo := ⟨List.nodup_nil, List.nodup_nil, fun _ => absent, fun _ => absent⟩
  tempIssued := fun _ => absent

theorem issueDocid (wf : Wf config s) (appid : Int) : Wf config (s.issueDocid appid) :=
  { wf with
    statusIssued := by
      intro c member
      obtain ⟨version, positive, n, below, issued⟩ := wf.statusIssued c member
      exact ⟨version, positive, n, Nat.lt_of_lt_of_le below s.docids_le_issueDocid, issued⟩ }

/-- A change of the collections that hands out no identifier twice. -/
theorem withMongo (wf : Wf config s) {m : Mongo} (mongo : MongoWf m)
    (issued : s.mongo.issued ≤ m.issued) : Wf config { s with mongo := m } :=
  { wf with
    versionKeys := fun v member k stored =>
      Nat.lt_of_lt_of_le (wf.versionKeys v member k stored) issued
    refKeys := fun r member k stored => Nat.lt_of_lt_of_le (wf.refKeys r member k stored) issued
    mongo := mongo
    tempIssued := fun entry member => Nat.lt_of_lt_of_le (wf.tempIssued entry member) issued }

theorem issueKey (wf : Wf config s) : Wf config s.issueKey :=
  wf.withMongo wf.mongo.issue (Nat.le_succ _)

theorem addDoc (wf : Wf config s) {d : DocMeta} (fits : docMetaDAO.fits d = true)
    (free : s.NoDoc d.appid d.docid) : Wf config (s.addDoc d) :=
  { wf with
    docsNumbered := wf.docsNumbered.insert (fun _ _ => rfl) d
    docsFit := Table.forall_mem_insert wf.docsFit fits
    docsUnique := wf.docsUnique.insert fun d' member same =>
      free d' member (Prod.mk.inj same).1 (Prod.mk.inj same).2
    versionDoc := fun v member nonzero =>
      let ⟨d', inside, owner⟩ := wf.versionDoc v member nonzero
      ⟨d', List.mem_append_left _ inside, owner⟩ }

theorem addVersion (wf : Wf config s) {v : DocVersion} (fits : docVersionDAO.fits v = true)
    (doc : v.docid ≠ 0 → ∃ d ∈ s.docs.rows, d.appid = v.appid ∧ d.docid = v.docid)
    (positive : 0 < v.appid ∧ 0 < v.version)
    (fresh : v.docid ≠ 0 → ∀ v' ∈ s.versions.rows, v'.appid = v.appid → v'.docid = v.docid →
      v'.version ≠ v.version)
    (issued : ∀ k, v.storageKey = some k → k.serial < s.mongo.issued) :
    Wf config (s.addVersion v) :=
  { wf with
    versionsNumbered := wf.versionsNumbered.insert (fun _ _ => rfl) v
    versionsFit := Table.forall_mem_insert wf.versionsFit fits
    versionsUnique := wf.versionsUnique.insert fun v' member same => by
      obtain ⟨sameApp, rest⟩ := Prod.mk.inj same
      obtain ⟨sameDoc, rest⟩ := Prod.mk.inj rest
      obtain ⟨sameVersion, sameId⟩ := Prod.mk.inj rest
      have sameDoc : v'.docid = v.docid := sameDoc
      by_cases zero : v.docid = 0
      · have below := wf.versionsNumbered.below v' member
        have sameId : (if v'.docid = 0 then v'.id else 0) =
          if v.docid = 0 then s.versions.next else 0 := sameId
        rw [sameDoc, if_pos zero, if_pos zero] at sameId
        omega
      · exact fresh zero v' member sameApp sameDoc sameVersion
    versionDoc := Table.forall_mem_insert wf.versionDoc doc
    versionsPos := Table.forall_mem_insert wf.versionsPos positive
    versionKeys := Table.forall_mem_insert wf.versionKeys issued }

theorem addRef (wf : Wf config s) {r : DocRef} (fits : docRefDAO.fits r = true)
    (free : ∀ r' ∈ s.refs.rows, docRefDAO.clash r r' = false)
    (issued : ∀ k, r.storageKey = some k → k.serial < s.mongo.issued) :
    Wf config (s.addRef r) :=
  { wf with
    refsNumbered := wf.refsNumbered.insert (fun _ _ => rfl) r
    refsFit := Table.forall_mem_insert wf.refsFit fits
    refsUnique := wf.refsUnique.insert fun r' member same => by
      have apart := free r' member
      have equal : r'.md5 = r.md5 ∧ r'.size = r.size := Prod.mk.inj same
      simp [docRefDAO, equal.1, equal.2] at apart
    refKeysUnique := wf.refKeysUnique.insert fun r' member same => by
      have apart := free r' member
      have equal : r'.storageKey = r.storageKey := same
      simp [docRefDAO, equal] at apart
    refKeys := Table.forall_mem_insert wf.refKeys issued }

theorem addStatus (wf : Wf config s) {c : DocChunkStatus} (fits : docChunkStatusDAO.fits c = true)
    (free : ∀ c' ∈ s.chunkStatus.rows, c'.appid = c.appid → c'.docid ≠ c.docid)
    (first : c.version = 1) (positive : 0 < c.appid)
    (issued : ∃ n < s.docids c.appid, config.nextID c.appid n = c.docid) :
    Wf config (s.addStatus c) :=
  { wf with
    statusNumbered := wf.statusNumbered.insert (fun _ _ => rfl) c
    statusFit := Table.forall_mem_insert wf.statusFit fits
    statusUnique := wf.statusUnique.insert fun c' member same =>
      free c' member (Prod.mk.inj same).1 (Prod.mk.inj same).2
    statusIssued := Table.forall_mem_insert wf.statusIssued ⟨first, positive, issued⟩ }

theorem replaceStatus (wf : Wf config s) {old new : DocChunkStatus}
    (member : old ∈ s.chunkStatus.rows) (fits : docChunkStatusDAO.fits new = true)
    (id : new.id = old.id) (appid : new.appid = old.appid) (docid : new.docid = old.docid)
    (version : new.version = old.version) : Wf config (s.replaceStatus old new) :=
  { wf with
    statusNumbered := wf.statusNumbered.replace id
    statusFit := Table.forall_mem_replace wf.statusFit fits
    statusUnique := wf.statusNumbered.unique_replace wf.statusUnique member (by rw [appid, docid])
    statusIssued := Table.forall_mem_replace wf.statusIssued (by
      rw [version, appid, docid]
      exact wf.statusIssued old member) }

/-- A change of versions that keeps their keys. -/
theorem updateVersions (wf : Wf config s) {selected : DocVersion → Bool}
    {edit : DocVersion → DocVersion} (id : ∀ v, (edit v).id = v.id)
    (fits : ∀ v, docVersionDAO.fits v = true → docVersionDAO.fits (edit v) = true)
    (key : ∀ v, versionKey (edit v) = versionKey v)
    (stored : ∀ v, (edit v).storageKey = v.storageKey) :
    Wf config { s with versions := s.versions.update selected edit } :=
  { wf with
    versionsNumbered := wf.versionsNumbered.update id
    versionsFit := Table.forall_mem_update wf.versionsFit fun v _ => fits v
    versionsUnique := wf.versionsUnique.update fun v _ _ => key v
    versionDoc := Table.forall_mem_update wf.versionDoc fun v _ owned => by
      obtain ⟨appid, rest⟩ := Prod.mk.inj (key v)
      rw [appid, (Prod.mk.inj rest).1]
      exact owned
    versionsPos := Table.forall_mem_update wf.versionsPos fun v _ positive => by
      obtain ⟨appid, rest⟩ := Prod.mk.inj (key v)
      rw [appid, (Prod.mk.inj (Prod.mk.inj rest).2).1]
      exact positive
    versionKeys := Table.forall_mem_update wf.versionKeys fun v _ issued k => by
      rw [stored]
      exact issued k }

theorem complete (wf : Wf config s) (appid docid version : Int) :
    Wf config (s.complete appid docid version) :=
  wf.updateVersions (fun _ => rfl) (fun _ fits => fits) (fun _ => rfl) fun _ => rfl

theorem editRefs (wf : Wf config s) (counted : DocRef → Bool) (edit : Int → Int) :
    Wf config (s.editRefs counted edit) :=
  { wf with
    refsNumbered := wf.refsNumbered.update fun _ => rfl
    refsFit := Table.forall_mem_update wf.refsFit fun _ _ fits => fits
    refsUnique := wf.refsUnique.update fun _ _ _ => rfl
    refKeysUnique := wf.refKeysUnique.update fun _ _ _ => rfl
    refKeys := Table.forall_mem_update wf.refKeys fun _ _ issued => issued }

/-- The second statement of `DocVersionDAO.create`. -/
theorem replaceVersion (wf : Wf config s) {old new : DocVersion} (member : old ∈ s.versions.rows)
    (fits : docVersionDAO.fits new = true) (id : new.id = old.id)
    (key : versionKey new = versionKey old)
    (issued : ∀ k, new.storageKey = some k → k.serial < s.mongo.issued) :
    Wf config { s with versions := s.versions.replace DocVersion.id old new } :=
  { wf with
    versionsNumbered := wf.versionsNumbered.replace id
    versionsFit := Table.forall_mem_replace wf.versionsFit fits
    versionsUnique := wf.versionsNumbered.unique_replace wf.versionsUnique member key
    versionDoc := Table.forall_mem_replace wf.versionDoc (by
      obtain ⟨appid, rest⟩ := Prod.mk.inj key
      rw [appid, (Prod.mk.inj rest).1]
      exact wf.versionDoc old member)
    versionsPos := Table.forall_mem_replace wf.versionsPos (by
      obtain ⟨appid, rest⟩ := Prod.mk.inj key
      rw [appid, (Prod.mk.inj (Prod.mk.inj rest).2).1]
      exact wf.versionsPos old member)
    versionKeys := Table.forall_mem_replace wf.versionKeys issued }

theorem updateDocs (wf : Wf config s) {selected : DocMeta → Bool} {edit : DocMeta → DocMeta}
    (id : ∀ d, (edit d).id = d.id)
    (fits : ∀ d, docMetaDAO.fits d = true → docMetaDAO.fits (edit d) = true)
    (key : ∀ d, ((edit d).appid, (edit d).docid) = (d.appid, d.docid)) :
    Wf config { s with docs := s.docs.update selected edit } :=
  { wf with
    docsNumbered := wf.docsNumbered.update id
    docsFit := Table.forall_mem_update wf.docsFit fun d _ => fits d
    docsUnique := wf.docsUnique.update fun d _ _ => key d
    versionDoc := by
      intro v member nonzero
      obtain ⟨d, inside, appid, docid⟩ := wf.versionDoc v member nonzero
      refine ⟨if selected d then edit d else d, List.mem_map.mpr ⟨d, inside, rfl⟩, ?_⟩
      obtain ⟨sameApp, sameDoc⟩ := Prod.mk.inj (key d)
      split
      · exact ⟨sameApp.trans appid, sameDoc.trans docid⟩
      · exact ⟨appid, docid⟩ }

theorem deleteVersions (wf : Wf config s) (selected : DocVersion → Bool) :
    Wf config { s with versions := s.versions.delete selected } :=
  { wf with
    versionsNumbered := wf.versionsNumbered.delete
    versionsFit := Table.forall_mem_delete wf.versionsFit
    versionsUnique := wf.versionsUnique.delete
    versionDoc := Table.forall_mem_delete wf.versionDoc
    versionsPos := Table.forall_mem_delete wf.versionsPos
    versionKeys := Table.forall_mem_delete wf.versionKeys }

/-- Documents may go when their versions are gone. -/
theorem deleteDocs (wf : Wf config s) {selected : DocMeta → Bool}
    (unused : ∀ v ∈ s.versions.rows, v.docid ≠ 0 → ∀ d ∈ s.docs.rows,
      d.appid = v.appid → d.docid = v.docid → selected d = false) :
    Wf config { s with docs := s.docs.delete selected } :=
  { wf with
    docsNumbered := wf.docsNumbered.delete
    docsFit := Table.forall_mem_delete wf.docsFit
    docsUnique := wf.docsUnique.delete
    versionDoc := by
      intro v member nonzero
      obtain ⟨d, inside, appid, docid⟩ := wf.versionDoc v member nonzero
      refine ⟨d, List.mem_filter.mpr ⟨inside, ?_⟩, appid, docid⟩
      rw [unused v member nonzero d inside appid docid]
      rfl }

theorem withCache (wf : Wf config s) {c : LocalFileCache}
    (issued : ∀ entry ∈ c.tempFiles, entry.1.serial < s.mongo.issued) :
    Wf config { s with cache := c } :=
  { wf with tempIssued := issued }

/-- The next storage key names no chunk and no file. -/
theorem newKey_unused (wf : Wf config s) :
    (∀ c ∈ s.mongo.chunks, c.filesId ≠ s.newKey) ∧
      ∀ f ∈ s.mongo.files, f.storageKey ≠ s.newKey := by
  constructor
  · rintro c member same
    have below := wf.mongo.chunksIssued c member
    rw [same] at below
    exact Nat.lt_irrefl _ below
  · rintro f member same
    have below := (wf.mongo.filesIssued f member).2
    rw [same] at below
    exact Nat.lt_irrefl _ below

/-- A document without a row has no version. -/
theorem noVersion_of_noDoc (wf : Wf config s) {appid docid : Int} (free : s.NoDoc appid docid) :
    s.NoVersion appid docid := by
  intro nonzero v member sameApp sameDoc
  obtain ⟨d, inside, appidD, docidD⟩ := wf.versionDoc v member (sameDoc ▸ nonzero)
  exact free d inside (appidD.trans sameApp) (docidD.trans sameDoc)

end Wf

end Clb
