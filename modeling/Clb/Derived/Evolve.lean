/-
# Derived.Evolve -- what the services of derived files can do

The tables of derived files are two derivations in the sense of `Lib.Derivation`: the PDFs, asked for
by messages to the conversion service, and the resized copies, asked for by events in the queue. A
version owns the rows that carry its key, and its storage key is its current source.

`Evolves precise s s'` says what every handler and worker of derived files does: the document store
keeps its tables and its content, and both derivations take steps. Where `precise` holds, each file is
asked for from the version that owns the row; requests for version zero are the ones where it does
not. `Evolves.wf` keeps the server well formed. -/
import Clb.Derived.Image
import Clb.Derived.Pdf
import Clb.Document.HandlerOutcomes
import Clb.Lib.Derivation

set_option autoImplicit false

namespace Clb

open Clb.Lib Clb.Dao

def pdfLedger : Ledger PdfItem DPair ObjectId where
  owner := PdfItem.pair
  target := PdfItem.storageKey
  ready i := CLBStatus.isReady i.status = true

def imageLedger : Ledger ImageItem DPair ObjectId where
  owner := ImageItem.pair
  target := ImageItem.storageKey
  ready i := CLBStatus.isReady i.status = true

namespace Server

/-- The PDFs of a server. -/
def pdfs (s : Server) : Derivation PdfItem ObjectId (Option ObjectId) where
  rows := { i | i ∈ s.pdfItems.rows }
  asked := { a | ∃ r ∈ s.converter.pending, r.target = some a.1 ∧ r.source = a.2 }
  files := { a | ∃ f ∈ s.converter.pdfs, f.storageKey = a.1 ∧ some f.source = a.2 }

/-- The resized copies of a server. -/
def copies (s : Server) : Derivation ImageItem ObjectId (Option ObjectId) where
  rows := { i | i ∈ s.imageItems.rows }
  asked := { a | ∃ e ∈ s.queue, e.item.storageKey = some a.1 ∧ some e.source = a.2 }
  files := { a | ∃ f ∈ s.images, f.storageKey = a.1 ∧ some f.source = a.2 }

end Server

/-- One more file in a store of derived files. -/
theorem artifacts_append (files : List Artifact) (new : Artifact) :
    { a : ObjectId × Option ObjectId |
        ∃ f ∈ files ++ [new], f.storageKey = a.1 ∧ some f.source = a.2 } =
      insert (new.storageKey, some new.source)
        { a | ∃ f ∈ files, f.storageKey = a.1 ∧ some f.source = a.2 } := by
  ext ⟨key, source⟩
  constructor
  · rintro ⟨f, inside, named, from_⟩
    rcases List.mem_append.mp inside with old | added
    · exact .inr ⟨f, old, named, from_⟩
    · obtain rfl := List.mem_singleton.mp added
      exact .inl (Prod.ext named.symm from_.symm)
  · rintro (same | ⟨f, old, named, from_⟩)
    · obtain ⟨rfl, rfl⟩ := Prod.mk.inj same
      exact ⟨_, List.mem_append_right _ (List.mem_singleton_self _), rfl, rfl⟩
    · exact ⟨f, List.mem_append_left _ old, named, from_⟩

/-- The owners that new rows may have. -/
def Owners (precise : Prop) (t : Store) (p : DPair) : Prop :=
  (∃ v ∈ t.versions.rows, v.pair = p) ∧ (precise → p.docid ≠ 0)

def Issued (t : Store) (key : ObjectId) : Prop := key.serial < t.mongo.issued

/-- The source a version has. -/
def Current (t : Store) (p : DPair) (source : Option ObjectId) : Prop :=
  ∃ v ∈ t.versions.rows, v.pair = p ∧ v.storageKey = source

/-- What the services of derived files do to the document store: they take storage keys and write temp
files. -/
structure Lends (s t : Store) : Prop where
  docs : t.docs = s.docs
  versions : t.versions = s.versions
  refs : t.refs = s.refs
  chunkStatus : t.chunkStatus = s.chunkStatus
  docids : t.docids = s.docids
  files : t.mongo.files = s.mongo.files
  chunks : t.mongo.chunks = s.mongo.chunks
  issued : s.mongo.issued ≤ t.mongo.issued
  temp : (∀ entry ∈ s.cache.tempFiles, entry.1.serial < s.mongo.issued) →
    ∀ entry ∈ t.cache.tempFiles, entry.1.serial < t.mongo.issued

namespace Lends

variable {s t u : Store} {config : Config}

theorem refl (s : Store) : Lends s s :=
  ⟨rfl, rfl, rfl, rfl, rfl, rfl, rfl, Nat.le_refl _, fun temp => temp⟩

theorem trans (first : Lends s t) (next : Lends t u) : Lends s u where
  docs := next.docs.trans first.docs
  versions := next.versions.trans first.versions
  refs := next.refs.trans first.refs
  chunkStatus := next.chunkStatus.trans first.chunkStatus
  docids := next.docids.trans first.docids
  files := next.files.trans first.files
  chunks := next.chunks.trans first.chunks
  issued := Nat.le_trans first.issued next.issued
  temp := fun temp => next.temp (first.temp temp)

theorem issueKey (s : Store) : Lends s s.issueKey :=
  ⟨rfl, rfl, rfl, rfl, rfl, rfl, rfl, Nat.le_succ _,
    fun temp entry member => Nat.lt_succ_of_lt (temp entry member)⟩

/-- A temp file for a key that was handed out. -/
theorem withCache {key : ObjectId} {c : LocalFileCache} (temp : TempOf key s.cache c)
    (issued : Issued s key) : Lends s { s with cache := c } where
  docs := rfl
  versions := rfl
  refs := rfl
  chunkStatus := rfl
  docids := rfl
  files := rfl
  chunks := rfl
  issued := Nat.le_refl _
  temp before entry member := by
    rcases temp entry member with old | same
    · exact before entry old
    · rw [same]
      exact issued

theorem wf (lends : Lends s t) (wf : Wf config s) : Wf config t := by
  obtain ⟨docs, versions, refs, chunkStatus, mongo, cache, docids⟩ := t
  obtain ⟨rfl, rfl, rfl, rfl, rfl, files, chunks, issued, temp⟩ := lends
  have mongoWf : MongoWf mongo := by
    obtain ⟨filesDistinct, chunksDistinct, filesIssued, chunksIssued⟩ := wf.mongo
    simp only at files chunks
    refine ⟨files ▸ filesDistinct, chunks ▸ chunksDistinct, fun f member => ?_, fun c member => ?_⟩
    · obtain ⟨id, key⟩ := filesIssued f (files ▸ member)
      exact ⟨Nat.lt_of_lt_of_le id issued, Nat.lt_of_lt_of_le key issued⟩
    · exact Nat.lt_of_lt_of_le (chunksIssued c (chunks ▸ member)) issued
  exact (wf.withMongo mongoWf issued).withCache (temp wf.tempIssued)

end Lends

/-- What holds in every state of the server. -/
structure ServerWf (config : Config) (s : Server) : Prop where
  store : Wf config s.store
  pdfNumbered : Table.Numbered PdfItem.id s.pdfItems
  imageNumbered : Table.Numbered ImageItem.id s.imageItems
  pdfFit : ∀ i ∈ s.pdfItems.rows, pdfItemDAO.fits i = true
  pdfWithin : s.pdfs.Within pdfLedger (fun p => 0 < p.appid ∧ 0 < p.version) (Issued s.store)
  imageWithin : s.copies.Within imageLedger (fun p => 0 < p.appid ∧ 0 < p.version) (Issued s.store)

/-- The key that is handed out next names no PDF and no copy. -/
theorem ServerWf.unused {config : Config} {s : Server} (wf : ServerWf config s) {key : ObjectId}
    (next : s.store.mongo.issued ≤ key.serial) :
    ¬ s.pdfs.Mentions pdfLedger key ∧ ¬ s.copies.Mentions imageLedger key :=
  ⟨fun mentions => Nat.lt_irrefl _ (Nat.lt_of_lt_of_le (wf.pdfWithin.mentioned key mentions) next),
    fun mentions => Nat.lt_irrefl _ (Nat.lt_of_lt_of_le (wf.imageWithin.mentioned key mentions) next)⟩

/-- The steps of the PDFs and of the copies from `s`, up to the store `t`. -/
abbrev PdfSteps (precise : Prop) (s t : Store) :=
  Derivation.Steps pdfLedger (Owners precise s) (Issued t) fun p source => precise → Current s p source

abbrev ImageSteps (precise : Prop) (s t : Store) :=
  Derivation.Steps imageLedger (Owners precise s) (Issued t) fun p source => precise → Current s p source

structure Evolves (precise : Prop) (s s' : Server) : Prop where
  store : Lends s.store s'.store
  pdfNumbered : Table.Numbered PdfItem.id s.pdfItems → Table.Numbered PdfItem.id s'.pdfItems
  imageNumbered : Table.Numbered ImageItem.id s.imageItems → Table.Numbered ImageItem.id s'.imageItems
  pdfFit : (∀ i ∈ s.pdfItems.rows, pdfItemDAO.fits i = true) →
    ∀ i ∈ s'.pdfItems.rows, pdfItemDAO.fits i = true
  pdf : PdfSteps precise s.store s'.store s.pdfs s'.pdfs
  image : ImageSteps precise s.store s'.store s.copies s'.copies

namespace Evolves

variable {precise : Prop} {s s' s'' : Server}

/-- A change that leaves the rows as they are. -/
theorem of_rows (store : Lends s.store s'.store) (pdfItems : s'.pdfItems = s.pdfItems)
    (imageItems : s'.imageItems = s.imageItems) (pdf : PdfSteps precise s.store s'.store s.pdfs s'.pdfs)
    (image : ImageSteps precise s.store s'.store s.copies s'.copies) : Evolves precise s s' where
  store := store
  pdfNumbered numbered := by rwa [pdfItems]
  imageNumbered numbered := by rwa [imageItems]
  pdfFit fit := by rwa [pdfItems]
  pdf := pdf
  image := image

/-- A change that leaves both derivations as they are. -/
theorem of_same (store : Lends s.store s'.store) (pdfItems : s'.pdfItems = s.pdfItems)
    (imageItems : s'.imageItems = s.imageItems) (pdfs : s'.pdfs = s.pdfs)
    (copies : s'.copies = s.copies) : Evolves precise s s' :=
  of_rows store pdfItems imageItems (pdfs ▸ .refl) (copies ▸ .refl)

theorem refl (s : Server) : Evolves precise s s := of_same (Lends.refl _) rfl rfl rfl rfl

theorem trans (first : Evolves precise s s') (next : Evolves precise s' s'') : Evolves precise s s'' := by
  have more : ∀ key, Issued s'.store key → Issued s''.store key :=
    fun key issued => Nat.lt_of_lt_of_le issued next.store.issued
  have owners : ∀ p, Owners precise s'.store p → Owners precise s.store p := by
    intro p owner
    unfold Owners at owner ⊢
    rwa [first.store.versions] at owner
  have current : ∀ p source, (precise → Current s'.store p source) →
      precise → Current s.store p source := by
    intro p source has exactly
    have has := has exactly
    unfold Current at has ⊢
    rwa [first.store.versions] at has
  exact
    { store := first.store.trans next.store
      pdfNumbered := fun numbered => next.pdfNumbered (first.pdfNumbered numbered)
      imageNumbered := fun numbered => next.imageNumbered (first.imageNumbered numbered)
      pdfFit := fun fit => next.pdfFit (first.pdfFit fit)
      pdf := (first.pdf.mono (fun _ owner => owner) more fun _ _ has => has).trans
        (next.pdf.mono owners (fun _ issued => issued) current)
      image := (first.image.mono (fun _ owner => owner) more fun _ _ has => has).trans
        (next.image.mono owners (fun _ issued => issued) current) }

theorem mono {precise' : Prop} (evolves : Evolves precise s s') (implies : precise' → precise) :
    Evolves precise' s s' :=
  { evolves with
    pdf := evolves.pdf.mono (fun _ owner => ⟨owner.1, fun exactly => owner.2 (implies exactly)⟩)
      (fun _ issued => issued) fun _ _ has exactly => has (implies exactly)
    image := evolves.image.mono (fun _ owner => ⟨owner.1, fun exactly => owner.2 (implies exactly)⟩)
      (fun _ issued => issued) fun _ _ has exactly => has (implies exactly) }

theorem wf {config : Config} (evolves : Evolves precise s s') (wf : ServerWf config s) :
    ServerWf config s' := by
  have owners : ∀ p, Owners precise s.store p → 0 < p.appid ∧ 0 < p.version := by
    rintro p ⟨⟨v, member, rfl⟩, -⟩
    exact wf.store.versionsPos v member
  have more : ∀ key, Issued s.store key → Issued s'.store key :=
    fun key issued => Nat.lt_of_lt_of_le issued evolves.store.issued
  exact
    { store := evolves.store.wf wf.store
      pdfNumbered := evolves.pdfNumbered wf.pdfNumbered
      imageNumbered := evolves.imageNumbered wf.imageNumbered
      pdfFit := evolves.pdfFit wf.pdfFit
      pdfWithin := (evolves.pdf.mono owners (fun _ issued => issued) fun _ _ has => has).within
        (wf.pdfWithin.mono more)
      imageWithin := (evolves.image.mono owners (fun _ issued => issued) fun _ _ has => has).within
        (wf.imageWithin.mono more) }

/-! ## The elementary changes -/

theorem ofStore {t : Store} (lends : Lends s.store t) : Evolves precise s { s with store := t } :=
  of_same lends rfl rfl rfl rfl

/-- The rows of the PDFs are rewritten. -/
theorem rewritePdf {table : Table PdfItem}
    (numbered : Table.Numbered PdfItem.id s.pdfItems → Table.Numbered PdfItem.id table)
    (fit : (∀ i ∈ s.pdfItems.rows, pdfItemDAO.fits i = true) →
      ∀ i ∈ table.rows, pdfItemDAO.fits i = true)
    (continued : ∀ row ∈ table.rows, Derivation.Continues pdfLedger s.pdfs row) :
    Evolves precise s { s with pdfItems := table } where
  store := Lends.refl _
  pdfNumbered := numbered
  imageNumbered numbered := numbered
  pdfFit := fit
  pdf := .single (.rewrite { i | i ∈ table.rows } continued)
  image := .refl

/-- A row of the PDFs enters with a key that was just handed out. -/
theorem enterPdf {table : Table PdfItem} (p : DPair) (key : ObjectId)
    (numbered : Table.Numbered PdfItem.id s.pdfItems → Table.Numbered PdfItem.id table)
    (fit : (∀ i ∈ s.pdfItems.rows, pdfItemDAO.fits i = true) →
      ∀ i ∈ table.rows, pdfItemDAO.fits i = true)
    (unused : ¬ s.pdfs.Mentions pdfLedger key) (issued : Issued s.store key)
    (known : Owners precise s.store p ∨ ∃ old ∈ s.pdfItems.rows, old.pair = p)
    (entered : ∀ row ∈ table.rows, row ∈ s.pdfItems.rows ∨
      (row.pair = p ∧ row.storageKey = some key ∧ ¬ CLBStatus.isReady row.status = true)) :
    Evolves precise s { s with pdfItems := table } where
  store := Lends.refl _
  pdfNumbered := numbered
  imageNumbered numbered := numbered
  pdfFit := fit
  pdf := .single (.enter { i | i ∈ table.rows } p key unused known issued entered)
  image := .refl

theorem rewriteImage {table : Table ImageItem}
    (numbered : Table.Numbered ImageItem.id s.imageItems → Table.Numbered ImageItem.id table)
    (continued : ∀ row ∈ table.rows, Derivation.Continues imageLedger s.copies row) :
    Evolves precise s { s with imageItems := table } where
  store := Lends.refl _
  pdfNumbered numbered := numbered
  imageNumbered := numbered
  pdfFit fit := fit
  pdf := .refl
  image := .single (.rewrite { i | i ∈ table.rows } continued)

theorem enterImage {table : Table ImageItem} (p : DPair) (key : ObjectId)
    (numbered : Table.Numbered ImageItem.id s.imageItems → Table.Numbered ImageItem.id table)
    (unused : ¬ s.copies.Mentions imageLedger key) (issued : Issued s.store key)
    (known : Owners precise s.store p ∨ ∃ old ∈ s.imageItems.rows, old.pair = p)
    (entered : ∀ row ∈ table.rows, row ∈ s.imageItems.rows ∨
      (row.pair = p ∧ row.storageKey = some key ∧ ¬ CLBStatus.isReady row.status = true)) :
    Evolves precise s { s with imageItems := table } where
  store := Lends.refl _
  pdfNumbered numbered := numbered
  imageNumbered := numbered
  pdfFit fit := fit
  pdf := .refl
  image := .single (.enter { i | i ∈ table.rows } p key unused known issued entered)

end Evolves

end Clb
