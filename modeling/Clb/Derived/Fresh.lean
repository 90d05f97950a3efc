/-
# Derived.Fresh -- is a derived file made from the version it is shown for

The rows of PDFs and resized copies name a version by its number, and outlive it: a removed version
leaves its number to the next one. `derived_fresh` says that a ready row has a file made from the
content its version has now, in every run in which versions with derived rows are not removed and no
request names document 0 or version 0, which the statements read as any document or version.
`derived_stale` removes a converted version and adds another. -/
import Clb.Derived.System
import Clb.Document.Readable

set_option autoImplicit false

namespace Clb

open Clb.Lib Clb.Dao

variable {config : ServerConfig} {s s' : Server}

/-- The event removes no version that has a row of a PDF or of a copy, and names no zero. -/
structure Tidy (event : Event) (s : Server) : Prop where
  precise : event.Precise
  pdfs : ∀ v ∈ s.store.versions.rows, event.Removes s.store v → ∀ i ∈ s.pdfItems.rows, i.pair ≠ v.pair
  images : ∀ v ∈ s.store.versions.rows, event.Removes s.store v →
    ∀ i ∈ s.imageItems.rows, i.pair ≠ v.pair

/-- There is a file under the key, and every such file is made from what the version has now. -/
def UpToDate (owner : DPair) (storageKey : Option ObjectId) (files : List Artifact) (t : Store) :
    Prop :=
  ∃ key v, storageKey = some key ∧ DocVersionDAO.read owner t.versions = some v ∧
    (∃ f ∈ files, f.storageKey = key) ∧ ∀ f ∈ files, f.storageKey = key → some f.source = v.storageKey

/-- What the runs keep: both derivations are fresh, and no row belongs to the document 0. -/
structure FreshServer (s : Server) : Prop where
  pdf : s.pdfs.Fresh pdfLedger (Current s.store)
  image : s.copies.Fresh imageLedger (Current s.store)
  pdfOwners : s.pdfs.Within pdfLedger (fun p => p.docid ≠ 0) fun _ => True
  imageOwners : s.copies.Within imageLedger (fun p => p.docid ≠ 0) fun _ => True

namespace FreshServer

theorem empty : FreshServer Server.empty where
  pdf := ⟨fun _ => Wf.absent, fun _ => Wf.absent, fun _ => Wf.absent⟩
  image := ⟨fun _ => Wf.absent, fun _ => Wf.absent, fun _ => Wf.absent⟩
  pdfOwners := ⟨fun _ => Wf.absent, fun _ _ => trivial⟩
  imageOwners := ⟨fun _ => Wf.absent, fun _ _ => trivial⟩

theorem evolves {precise : Prop} (fresh : FreshServer s) (evolves : Evolves precise s s')
    (exactly : precise) : FreshServer s' := by
  have current : ∀ p source, (precise → Current s.store p source) → Current s'.store p source := by
    intro p source has
    unfold Current
    rw [evolves.store.versions]
    exact has exactly
  have same : ∀ p source, Current s.store p source → Current s'.store p source :=
    fun p source has => current p source fun _ => has
  have owners : ∀ p, Owners precise s.store p → p.docid ≠ 0 := fun p owner => owner.2 exactly
  have issued : ∀ key, Issued s'.store key → True := fun _ _ => trivial
  exact
    { pdf := (evolves.pdf.mono owners issued current).fresh (fresh.pdf.of_current fun _ _ => same _)
      image :=
        (evolves.image.mono owners issued current).fresh (fresh.image.of_current fun _ _ => same _)
      pdfOwners := (evolves.pdf.mono owners issued current).within fresh.pdfOwners
      imageOwners := (evolves.image.mono owners issued current).within fresh.imageOwners }

/-- A version whose row stays keeps its source. -/
theorem restores {removes : DocVersion → Prop} {t : Store} (fresh : FreshServer s)
    (restores : Restores config.toConfig removes s t)
    (pdfs : ∀ v ∈ s.store.versions.rows, removes v → ∀ i ∈ s.pdfItems.rows, i.pair ≠ v.pair)
    (images : ∀ v ∈ s.store.versions.rows, removes v → ∀ i ∈ s.imageItems.rows, i.pair ≠ v.pair) :
    FreshServer { s with store := t } := by
  have stays : ∀ (p : DPair) (source : Option ObjectId),
      (∀ v ∈ s.store.versions.rows, removes v → p ≠ v.pair) → Current s.store p source →
        Current t p source := by
    rintro p source kept ⟨v, member, rfl, rfl⟩
    exact restores.rows v member fun gone => kept v member gone rfl
  exact
    { fresh with
      pdf := fresh.pdf.of_current fun i member source =>
        stays i.pair source fun v inside gone => pdfs v inside gone i member
      image := fresh.image.of_current fun i member source =>
        stays i.pair source fun v inside gone => images v inside gone i member }

/-- One event keeps the files fresh. -/
theorem serve {event : Event} (fresh : FreshServer s) (wf : ServerWf config.toConfig s)
    (tidy : Tidy event s) : FreshServer (serve config event s) := by
  rcases serve_cases event wf with ⟨t, after, restored⟩ | evolved
  · rw [after]
    exact fresh.restores restored tidy.pdfs tidy.images
  · exact fresh.evolves evolved tidy.precise

/-- A ready row and its file, for either derivation. -/
theorem upToDate {Row : Type} {ledger : Ledger Row DPair ObjectId} {files : List Artifact}
    {d : Derivation Row ObjectId (Option ObjectId)} (wf : ServerWf config.toConfig s)
    (fresh : d.Fresh ledger (Current s.store)) (owners : d.Within ledger (fun p => p.docid ≠ 0) fun _ => True)
    (stored : d.files = { a | ∃ f ∈ files, f.storageKey = a.1 ∧ some f.source = a.2 }) {row : Row}
    (member : row ∈ d.rows) (ready : ledger.ready row) :
    UpToDate (ledger.owner row) (ledger.target row) files s.store := by
  obtain ⟨key, source, named, filed, v, inside, owner, has⟩ := fresh.product member ready
  have docid : v.docid ≠ 0 := by
    have := owners.owned row member
    rw [← owner] at this
    exact this
  refine ⟨key, v, named, ?_, ?_, fun f listed under => ?_⟩
  · rw [← owner]
    exact docVersion_read_eq wf.store inside docid
  · rw [stored] at filed
    obtain ⟨f, listed, under, -⟩ := filed
    exact ⟨f, listed, under⟩
  · -- every file under the key is traced to the same version
    have traced : Current s.store (ledger.owner row) (some f.source) :=
      fresh.traced row member key _ named (.inr (stored ▸ ⟨f, listed, under, rfl⟩))
    obtain ⟨v', inside', owner', has'⟩ := traced
    have read := docVersion_read_eq wf.store inside docid
    have docid' : v'.docid ≠ 0 := by
      have same : v'.docid = v.docid := congrArg DPair.docid (owner'.trans owner.symm)
      rw [same]
      exact docid
    have read' := docVersion_read_eq wf.store inside' docid'
    change DocVersionDAO.read v.pair _ = _ at read
    change DocVersionDAO.read v'.pair _ = _ at read'
    rw [owner', ← owner, read] at read'
    rw [Option.some.inj read', has']

end FreshServer

/-- **A ready row shows what its version has now**, in every run in which versions with derived rows
are not removed and no request names document 0 or version 0. -/
theorem derived_fresh (run : ServesUnder config Tidy s) :
    (∀ i ∈ s.pdfItems.rows, CLBStatus.isReady i.status = true →
      UpToDate i.pair i.storageKey s.converter.pdfs s.store) ∧
    ∀ i ∈ s.imageItems.rows, CLBStatus.isReady i.status = true →
      UpToDate i.pair i.storageKey s.images s.store := by
  have wf := run.wf
  have fresh : FreshServer s := run.invariant FreshServer.empty fun event s tidy wf fresh =>
    fresh.serve wf tidy
  exact ⟨fun i member => FreshServer.upToDate wf fresh.pdf fresh.pdfOwners rfl member,
    fun i member => FreshServer.upToDate wf fresh.image fresh.imageOwners rfl member⟩

/-! ## A version that is converted -/

/-- A document gets a second version, which is converted; the status is asked for. -/
def convertedVersion : List Event :=
  [.document ⟨someSession, .createDoc 0 (wordFile [1])⟩,
    .document ⟨someSession, .updateDoc 1 (wordFile [2])⟩,
    .convertDocument someSession 0 ⟨1, "2".toList⟩,
    .converted ⟨some ⟨2⟩, some ⟨4⟩⟩ 9,
    .queryPdfStatus someSession 1 ⟨1, "2".toList⟩]

theorem admits_convertedVersion : Admits (serve countingServer) Tidy convertedVersion Server.empty := by
  have quiet : ∀ {event : Event} {s : Server}, event.Precise → (∀ t v, ¬ event.Removes t v) →
      Tidy event s := fun precise keeps =>
    ⟨precise, fun v _ gone => absurd gone (keeps _ v), fun v _ gone => absurd gone (keeps _ v)⟩
  refine ⟨quiet trivial fun _ _ => id, quiet trivial fun _ _ => id, quiet ?_ fun _ _ => id,
    quiet trivial fun _ _ => id, quiet trivial fun _ _ => id, trivial⟩
  change parseInt _ ≠ _
  decide +kernel

/-- The second version is ready, and its PDF is made from its content. -/
theorem derived_fresh_converted :
    ServesUnder countingServer Tidy (serverAfter convertedVersion) ∧
      ∃ i ∈ (serverAfter convertedVersion).pdfItems.rows, CLBStatus.isReady i.status = true ∧
        UpToDate i.pair i.storageKey (serverAfter convertedVersion).converter.pdfs
          (serverAfter convertedVersion).store := by
  have reached : ServesUnder countingServer Tidy (serverAfter convertedVersion) :=
    Reaches.append .refl admits_convertedVersion
  obtain ⟨i, member, ready⟩ : ∃ i ∈ (serverAfter convertedVersion).pdfItems.rows,
      CLBStatus.isReady i.status = true := by
    decide +kernel
  exact ⟨reached, i, member, ready, (derived_fresh reached).1 i member ready⟩

/-- The converted version is removed, and the next update takes its number. -/
def replacedVersion : List Event :=
  convertedVersion ++
    [.document ⟨someSession, .removeVersion ⟨1, "2".toList⟩⟩,
      .document ⟨someSession, .updateDoc 1 (wordFile [3])⟩]

/-- The row of version 2 is ready, its file is made from the removed version, and the version there is
has another content. -/
theorem derived_stale :
    Serves countingServer (serverAfter replacedVersion) ∧
      ∃ i ∈ (serverAfter replacedVersion).pdfItems.rows, CLBStatus.isReady i.status = true ∧
        i.pair = ⟨1, 1, 2⟩ ∧
        ∃ f ∈ (serverAfter replacedVersion).converter.pdfs, i.storageKey = some f.storageKey ∧
          f.source = ⟨2⟩ ∧
          ∃ v ∈ DocVersionDAO.read i.pair (serverAfter replacedVersion).store.versions,
            v.storageKey = some ⟨5⟩ := by
  refine ⟨serves_serverAfter _, ?_⟩
  decide +kernel

end Clb
