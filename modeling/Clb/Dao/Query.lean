/-
# Dao.Query -- query by example, as DAOUtils and BaseDAO build it

A model class is a list of its private fields. An object of the class serves as an example: its
initialised fields, those that are neither null nor zero (`isUninitField`), become the equations of
a WHERE clause or the assignments of a SET clause. `BaseDAO` runs the generated statements on one
table.

`insertObject_eq_some`, `updateRows_eq_some` and `updateObject_eq` say what the statements do to the
table. -/
import Clb.Lib.Table

set_option autoImplicit false

namespace Clb

/-- A text, character by character: suffixes, entry names, lengths and the comparisons of Java are
exact. The database compares the columns `md5`, `spaceName` and `resizeType`, in clauses and unique
keys. A text of these stands for its class under the collation of the column, which the model of the
logins writes out as `fold`. -/
abbrev Text := List Char

abbrev Bytes := List UInt8

/-- A MongoDB identifier, by the order in which `new ObjectId()` handed it out. -/
structure ObjectId where
  serial : Nat
deriving DecidableEq, Repr

end Clb

namespace Clb.Dao

open Clb.Lib

/-- What a field of a model object or a column of a row holds. -/
inductive Value where
  | null
  | number (n : Int)
  | text (t : Text)
  | key (k : ObjectId)
deriving DecidableEq, Repr

/-- `DAOUtils.isUninitField`. -/
def isUninitField : Value → Bool
  | .null => true
  | .number n => n == 0
  | .text _ => false
  | .key _ => false

/-- A private field of a model class `T`: its name, its getter, and its setter, which copies the
field of one object into another. -/
structure Field (T : Type) where
  name : String
  get : T → Value
  copy : T → T → T

section DAOUtils

variable {T : Type} (fields : List (Field T)) (t : T)

/-- `DAOUtils.getSelectedFields`. -/
def getSelectedFields (fieldNames : List String) (isWhiteList : Bool) : List (Field T) :=
  fields.filter fun f =>
    !isUninitField (f.get t) &&
      if isWhiteList then fieldNames.contains f.name else !fieldNames.contains f.name

/-- `and name=:name` for each of the fields. -/
def buildClause (selectFields : List (Field T)) (row : T) : Bool :=
  selectFields.all fun f => f.get row == f.get t

/-- The WHERE clause of `getSelectSQL` and `getDeleteSQL`. -/
def choseAllFieldsAsQueryClause (row : T) : Bool :=
  buildClause t (getSelectedFields fields t [] false) row

/-- The WHERE clause of `getUpdateByFieldsSQL`. -/
def choseSelectedFieldsAsQueryClause (fieldNames : List String) (row : T) : Bool :=
  buildClause t (getSelectedFields fields t fieldNames true) row

/-- The SET clause of the update statements: every initialised field outside `fieldNames`, without
the id. -/
def getSetValuesClause (fieldNames : List String) (row : T) : T :=
  ((getSelectedFields fields t fieldNames false).filter fun f => f.name != "id").foldl
    (fun row f => f.copy t row) row

end DAOUtils

/-- A DAO: the fields of its model class, its id column, and the constraints of its table. `fits`
holds for rows whose columns hold their values, `clash` for rows that violate a unique key. -/
structure BaseDAO (T : Type) where
  fields : List (Field T)
  getId : T → Int
  setId : Int → T → T
  fits : T → Bool
  clash : T → T → Bool

namespace BaseDAO

variable {T : Type} (dao : BaseDAO T)

/-- The new row and its id, or nothing where the table rejects the row. -/
def insertObject (t : T) (table : Table T) : Option (Int × Table T) :=
  if dao.fits t && !table.rows.any (dao.clash t) then
    some (table.next, table.insert dao.setId t)
  else
    none

def findByProperties (t : T) (table : Table T) : List T :=
  table.rows.filter (choseAllFieldsAsQueryClause dao.fields t)

def findAndReturnOnly (t : T) (table : Table T) : Option T :=
  (dao.findByProperties t table).head?

/-- An UPDATE statement, rejected as a whole where a written row does not fit. -/
def updateRows (selected : T → Bool) (edit : T → T) (table : Table T) : Option (Table T) :=
  if table.rows.all fun row => !selected row || dao.fits (edit row) then
    some (table.update selected edit)
  else
    none

def updateObject (t : T) (table : Table T) : Option (Table T) :=
  dao.updateRows (fun row => dao.getId row == dao.getId t) (getSetValuesClause dao.fields t []) table

def updateObjectBy (t : T) (queryFields : List String) (table : Table T) : Option (Table T) :=
  dao.updateRows (choseSelectedFieldsAsQueryClause dao.fields t queryFields)
    (getSetValuesClause dao.fields t queryFields) table

def deleteObject (t : T) (table : Table T) : Table T :=
  table.delete (choseAllFieldsAsQueryClause dao.fields t)

variable {dao} {t : T} {table : Table T}

theorem insertObject_eq_some {out : Int × Table T} (done : dao.insertObject t table = some out) :
    dao.fits t = true ∧ (∀ row ∈ table.rows, dao.clash t row = false) ∧
      out = (table.next, table.insert dao.setId t) := by
  unfold insertObject at done
  split at done
  · rename_i accepted
    simp only [Bool.and_eq_true, Bool.not_eq_true', List.any_eq_false] at accepted
    exact ⟨accepted.1, fun row member => by simpa using accepted.2 row member,
      (Option.some.inj done).symm⟩
  · cases done

theorem insertObject_of_fits (fits : dao.fits t = true)
    (free : ∀ row ∈ table.rows, dao.clash t row = false) :
    dao.insertObject t table = some (table.next, table.insert dao.setId t) := by
  unfold insertObject
  rw [if_pos]
  simpa [fits] using free

theorem updateRows_eq_some {selected : T → Bool} {edit : T → T} {table' : Table T}
    (done : dao.updateRows selected edit table = some table') :
    (∀ row ∈ table.rows, selected row = true → dao.fits (edit row) = true) ∧
      table' = table.update selected edit := by
  unfold updateRows at done
  split at done
  · rename_i accepted
    simp only [List.all_eq_true, Bool.or_eq_true, Bool.not_eq_true'] at accepted
    refine ⟨fun row member chosen => ?_, (Option.some.inj done).symm⟩
    exact (accepted row member).resolve_left (by simp [chosen])
  · cases done

theorem updateRows_of_fits {selected : T → Bool} {edit : T → T}
    (fits : ∀ row ∈ table.rows, selected row = true → dao.fits (edit row) = true) :
    dao.updateRows selected edit table = some (table.update selected edit) := by
  unfold updateRows
  rw [if_pos]
  simp only [List.all_eq_true, Bool.or_eq_true, Bool.not_eq_true']
  intro row member
  cases chosen : selected row with
  | true => exact .inr (fits row member chosen)
  | false => exact .inl rfl

/-- `updateObject` on a row of the table rewrites that row, if the result fits. -/
theorem updateObject_eq (numbered : Table.Numbered dao.getId table) {row : T}
    (member : row ∈ table.rows) (same : dao.getId t = dao.getId row) :
    dao.updateObject t table =
      if dao.fits (getSetValuesClause dao.fields t [] row) then
        some (table.replace dao.getId row (getSetValuesClause dao.fields t [] row))
      else
        none := by
  unfold updateObject
  rw [same]
  by_cases fits : dao.fits (getSetValuesClause dao.fields t [] row) = true
  · rw [if_pos fits, updateRows_of_fits, numbered.update_eq_replace member]
    intro r memberR chosen
    rwa [numbered.eq_of_ident_eq memberR member (by simpa using chosen)]
  · rw [if_neg fits]
    unfold updateRows
    rw [if_neg]
    simp only [List.all_eq_true, not_forall]
    exact ⟨row, member, by simpa using fits⟩

end BaseDAO

end Clb.Dao
