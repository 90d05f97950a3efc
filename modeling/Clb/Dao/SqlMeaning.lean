/-
# Dao.SqlMeaning -- the SQL texts mean what BaseDAO does

`Dao.Query` says what the statements of `BaseDAO` do to a table, `Dao.SqlText` which texts `DAOUtils`
builds for them. Here the texts are read back and run: on a row, a condition compares the value of a
column with the value that the parameter map holds, and an assignment puts that value into the column.

`findByProperties_of_text` and `deleteObject_of_text` recover the rows that a query by example is
about, and `updateObject_of_text` recovers what an update by id writes. -/
import Clb.Dao.SqlMatch
import Clb.Derived.UpdateLaw

set_option autoImplicit false

namespace Clb.Dao

open Clb.Lib Clb.Lib.Sql

variable {T : Type}

/-- A field of the tables as `DAOUtils` reads it. -/
def Field.property (f : Field T) : Property T := ⟨f.name.toList, .other, fun t => .value (f.get t)⟩

/-- Null is no value of a column. -/
def JavaValue.stored : JavaValue → Option JavaValue
  | .value .null => none
  | v => some v

namespace DAOUtils

theorem stored_of_init {v : Value} (init : Dao.isUninitField v = false) :
    (JavaValue.value v).stored = some (.value v) := by
  cases v with
  | null => cases init
  | number n => rfl
  | text t => rfl
  | key k => rfl

/-- What a row holds in a column: what the row binds for the field of that column. -/
def columnValue (utils : DAOUtils T) (row : T) (column : Text) : Option JavaValue :=
  (utils.fields.find? fun f => utils.getDBField f.name == column).bind fun f =>
    (paramValue f.type (f.get row)).stored

/-- The value of a parameter. -/
def boundValue (utils : DAOUtils T) (t : T) (p : Text) : Option JavaValue :=
  ((utils.getParamMap t).find? fun entry => entry.1 == p).map Prod.snd

/-- `DAOUtils` of the model class of a DAO, with a column of its own for each field. -/
structure Describes (utils : DAOUtils T) (dao : BaseDAO T) : Prop where
  fields : utils.fields = dao.fields.map Field.property
  columns : (utils.fields.map fun f => utils.getDBField f.name).Nodup

variable {utils : DAOUtils T} {dao : BaseDAO T} {t row : T}

/-! ## Columns and parameters -/

section Describes

variable (describes : utils.Describes dao)

include describes

theorem Describes.member {f : Field T} (member : f ∈ dao.fields) : f.property ∈ utils.fields := by
  rw [describes.fields]
  exact List.mem_map_of_mem member

theorem Describes.columnValue_eq {f : Field T} (member : f ∈ dao.fields) :
    utils.columnValue row (utils.getDBField f.name.toList) = (JavaValue.value (f.get row)).stored := by
  have found : utils.fields.find? (fun g => utils.getDBField g.name ==
      utils.getDBField f.property.name) = some f.property :=
    find?_key describes.columns (describes.member member)
  exact congrArg (Option.bind · _) found

theorem Describes.boundValue_eq {f : Field T} (member : f ∈ dao.fields)
    (init : Dao.isUninitField (f.get t) = false) :
    utils.boundValue t f.name.toList = some (.value (f.get t)) := by
  have distinct : ((utils.getParamMap t).map Prod.fst).Nodup := by
    unfold getParamMap useModelToFillParamMap
    rw [List.map_map]
    exact utils.distinct.sublist (List.filter_sublist.map Property.name)
  have chosen : f.property ∈ utils.fields.filter fun g => false || !isUninitField (g.get t) := by
    refine List.mem_filter.mpr ⟨describes.member member, ?_⟩
    change (!Dao.isUninitField (f.get t)) = true
    rw [init]
    rfl
  have listed : (f.name.toList, .value (f.get t)) ∈ utils.getParamMap t :=
    List.mem_map.mpr ⟨f.property, chosen, rfl⟩
  exact congrArg (Option.map Prod.snd) (find?_key distinct listed)

/-- The condition on the column of an initialised field. -/
theorem Describes.holds_equals {f : Field T} (member : f ∈ dao.fields)
    (init : Dao.isUninitField (f.get t) = false) :
    (utils.equals f.name.toList).holds (utils.columnValue row) (utils.boundValue t) = true ↔
      f.get row = f.get t := by
  change ((utils.columnValue row (utils.getDBField f.name.toList)).isSome &&
    utils.columnValue row (utils.getDBField f.name.toList) == utils.boundValue t f.name.toList) =
      true ↔ _
  rw [describes.columnValue_eq member, describes.boundValue_eq member init]
  cases held : f.get row with
  | null =>
    refine iff_of_false (by simp [JavaValue.stored]) fun same => ?_
    rw [← same] at init
    cases init
  | number n => simp [JavaValue.stored]
  | text v => simp [JavaValue.stored]
  | key k => simp [JavaValue.stored]

/-! ## Clauses -/

/-- Both models list the same fields. -/
theorem Describes.getSelectedFields_eq (names : List String) (isWhiteList : Bool) :
    utils.getSelectedFields t (names.map String.toList) isWhiteList =
      (Dao.getSelectedFields dao.fields t names isWhiteList).map fun f => f.name.toList := by
  have listed : ∀ f : Field T,
      (names.map String.toList).contains f.name.toList = names.contains f.name := by
    intro f
    rw [Bool.eq_iff_iff, List.contains_iff_mem, List.contains_iff_mem,
      List.mem_map_of_injective fun _ _ same => String.toList_injective same]
  unfold getSelectedFields Dao.getSelectedFields
  rw [describes.fields, List.filter_map, List.map_map]
  refine congrArg (List.map _) (List.filter_congr fun f _ => ?_)
  change (!Dao.isUninitField (f.get t) && if isWhiteList then
    (names.map String.toList).contains f.name.toList
    else !(names.map String.toList).contains f.name.toList) = _
  rw [listed]

/-- **The written clause is the clause of the model.** -/
theorem Describes.conditions_eq (names : List String) (isWhiteList : Bool) :
    (.one :: (utils.getSelectedFields t (names.map String.toList) isWhiteList).map utils.equals).all
        (Condition.holds (utils.columnValue row) (utils.boundValue t)) =
      Dao.buildClause t (Dao.getSelectedFields dao.fields t names isWhiteList) row := by
  rw [Bool.eq_iff_iff, buildClause_iff, List.all_cons, describes.getSelectedFields_eq, List.map_map,
    List.all_map, Condition.holds, Bool.true_and, List.all_eq_true]
  refine forall₂_congr fun f chosen => ?_
  obtain ⟨member, selected⟩ := List.mem_filter.mp chosen
  rw [Bool.and_eq_true, Bool.not_eq_true'] at selected
  exact describes.holds_equals member selected.1

/-! ## Statements -/

/-- **A query by example.** The rows that the select text is about are those that are found. -/
theorem Describes.findByProperties_of_text (table : Table T) :
    ∃ statement, parse (fun _ => true) (utils.getSelectSQL t) = some statement ∧
      table.rows.filter (fun row => statement.selects (utils.columnValue row) (utils.boundValue t)) =
        dao.findByProperties t table := by
  rw [getSelectSQL_eq]
  refine ⟨_, parse_any select_spelled, List.filter_congr fun row _ => ?_⟩
  exact describes.conditions_eq [] false

theorem Describes.deleteObject_of_text (table : Table T) :
    ∃ statement, parse (fun _ => true) (utils.getDeleteSQL t) = some statement ∧
      table.delete (fun row => statement.selects (utils.columnValue row) (utils.boundValue t)) =
        dao.deleteObject t table := by
  rw [getDeleteSQL_eq]
  refine ⟨_, parse_any ⟨utils.tableWord, spelled_conditions fields_getSelectedFields⟩,
    congrArg (Table.delete · table) (funext fun row => ?_)⟩
  exact describes.conditions_eq [] false

theorem Describes.mem_setFields {f : Field T} (member : f ∈ dao.fields) :
    f.name.toList ∈ utils.setFields t [] ↔
      Dao.isUninitField (f.get t) = false ∧ f.name ≠ "id" := by
  rw [DAOUtils.mem_setFields]
  constructor
  · rintro ⟨g, inside, same, init, -, other⟩
    obtain rfl : g = f.property :=
      List.inj_on_of_nodup_map utils.distinct inside (describes.member member) same
    exact ⟨init, fun named => other (congrArg String.toList named)⟩
  · rintro ⟨init, other⟩
    exact ⟨f.property, describes.member member, rfl, init, List.not_mem_nil,
      fun same => other (String.toList_injective same)⟩

theorem Describes.nodup_assignments :
    (((utils.setFields t []).map utils.equation).map Equation.column).Nodup := by
  have sublist : (utils.setFields t []).Sublist (utils.fields.map Property.name) :=
    List.erase_sublist.trans (List.filter_sublist.map Property.name)
  have columns : ((utils.fields.map Property.name).map utils.getDBField).Nodup := by
    rw [List.map_map]
    exact describes.columns
  rw [List.map_map]
  exact columns.sublist (sublist.map utils.getDBField)

/-- What the SET clause of the text leaves in a column is what the SET clause of the model does. -/
theorem Describes.leaves_eq (lawful : dao.Lawful) {f : Field T} (member : f ∈ dao.fields)
    (conditions : List Condition) :
    (Sql.Statement.update utils.tableName ((utils.setFields t []).map utils.equation)
        conditions).leaves (utils.columnValue row) (utils.boundValue t)
        (utils.getDBField f.name.toList) =
      utils.columnValue (Dao.getSetValuesClause dao.fields t [] row)
        (utils.getDBField f.name.toList) := by
  rw [describes.columnValue_eq member]
  by_cases assigned : f.name.toList ∈ utils.setFields t []
  · obtain ⟨init, other⟩ := (describes.mem_setFields member).mp assigned
    have found := find?_key (describes.nodup_assignments (t := t))
      (List.mem_map_of_mem (f := utils.equation) assigned)
    rw [leaves_assigned found, lawful.get_getSetValuesClause member other, init]
    exact (describes.boundValue_eq member init).trans (stored_of_init init).symm
  · have unassigned : ∀ e ∈ (utils.setFields t []).map utils.equation,
        e.column ≠ utils.getDBField f.name.toList := by
      intro e listed same
      obtain ⟨name, set, rfl⟩ := List.mem_map.mp listed
      obtain ⟨g, inside, rfl⟩ := fields_setFields name set
      obtain rfl : g = f.property :=
        List.inj_on_of_nodup_map describes.columns inside (describes.member member) same
      exact assigned set
    refine Eq.trans (leaves_kept unassigned) ?_
    rw [describes.columnValue_eq member]
    rw [describes.mem_setFields member, not_and_or, not_not] at assigned
    by_cases isId : f.name = "id"
    · rw [lawful.ident f member isId, lawful.ident f member isId, lawful.getId_set]
    · rw [lawful.get_getSetValuesClause member isId, if_pos]
      simpa [isId] using assigned

/-- **An update by id.** The text is about the row with the number of the object, and it leaves in
every column what the update does. -/
theorem Describes.updateObject_of_text (lawful : dao.Lawful) (numbered : dao.getId t ≠ 0)
    (toSet : utils.HasFieldToSet t []) :
    ∃ text statement, utils.getUpdateSQL t = .ok text ∧
      parse (fun _ => true) text = some statement ∧
      ∀ row, statement.selects (utils.columnValue row) (utils.boundValue t) =
          (dao.getId row == dao.getId t) ∧
        ∀ f ∈ dao.fields,
          statement.leaves (utils.columnValue row) (utils.boundValue t)
              (utils.getDBField f.name.toList) =
            utils.columnValue (Dao.getSetValuesClause dao.fields t [] row)
              (utils.getDBField f.name.toList) := by
  obtain ⟨g, inside, named⟩ := utils.hasId
  obtain ⟨f, member, rfl⟩ := List.mem_map.mp (describes.fields ▸ inside)
  have isId : f.name = "id" := String.toList_injective named
  have own : utils.equals f.name.toList = .equals ⟨"id".toList, "id".toList⟩ := by
    rw [isId]
    exact congrArg Condition.equals equation_id
  have init : Dao.isUninitField (f.get t) = false := by
    rw [lawful.ident f member isId]
    exact beq_false_of_ne numbered
  have some_ := setFields_ne_nil_iff.mpr toSet
  have spelled : ∀ c ∈ [utils.equals f.name.toList], c.Spelled := by
    intro c listed
    rw [List.mem_singleton.mp listed]
    exact spelled_equation (describes.member member)
  rw [getUpdateSQL_eq, if_neg some_, ← own]
  refine ⟨_, _, rfl, parse_any (update_spelled some_ spelled), fun row => ⟨?_, fun f member =>
    describes.leaves_eq lawful member _⟩⟩
  change ((utils.equals f.name.toList).holds _ _ && true) = _
  rw [Bool.and_true, Bool.eq_iff_iff, describes.holds_equals member init, lawful.ident f member isId,
    lawful.ident f member isId, Value.number.injEq, beq_iff_eq]

end Describes

/-! ## The table of references -/

/-- `DocRefDAO.bindModelAndTable`. -/
def docRefUtils : DAOUtils DocRef where
  fields := docRefDAO.fields.map Field.property
  tableName := "clb_doc_ref".toList
  namingRule := .UNDERSCORE
  distinct := by decide
  hasId := ⟨_, List.mem_cons_self, rfl⟩
  fieldWords := by decide
  tableWord := by decide

theorem describes_docRef : docRefUtils.Describes docRefDAO := ⟨rfl, by decide⟩

theorem findByProperties_of_text_countedRef :
    ∃ statement, parse (fun _ => true) (docRefUtils.getSelectSQL countedRef) = some statement ∧
      [countedRef].filter (fun row => statement.selects (docRefUtils.columnValue row)
        (docRefUtils.boundValue countedRef)) = [countedRef] :=
  describes_docRef.findByProperties_of_text ⟨[countedRef], 2⟩

theorem updateObject_of_text_countedRef :
    ∃ text statement, docRefUtils.getUpdateSQL countedRef = .ok text ∧
      parse (fun _ => true) text = some statement ∧
      statement.selects (docRefUtils.columnValue countedRef) (docRefUtils.boundValue countedRef) := by
  have toSet : docRefUtils.HasFieldToSet countedRef [] :=
    ⟨_, List.mem_cons_of_mem _ List.mem_cons_self, rfl, List.not_mem_nil, by decide⟩
  obtain ⟨text, statement, built, read, rows⟩ :=
    describes_docRef.updateObject_of_text docRefDAO_lawful (by decide) toSet
  exact ⟨text, statement, built, read, (rows countedRef).1⟩

end DAOUtils

end Clb.Dao
