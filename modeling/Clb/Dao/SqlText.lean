/-
# Dao.SqlText -- the SQL texts of DAOUtils and the parameters that go with them

`DAOUtils` puts its statements together from templates: a mark such as the one for the fields is
replaced by a clause that lists columns and parameters. Which fields a clause lists and which values
the parameter map holds is decided in different places of the class.

`getSelectSQL_eq`, `getDeleteSQL_eq`, `getUpdateSQL_eq`, `getUpdateByFieldsSQL_eq` and
`getInsertSQL_eq` say which statement each text is; a text without any field to list is not built. -/
import Clb.Lib.Replace
import Clb.Lib.Sql
import Clb.Dao.Tables

set_option autoImplicit false

namespace Clb.Dao

open Clb.Lib Clb.Lib.Sql

inductive NamingRule where
  | CAMEL
  | UNDERSCORE
deriving DecidableEq, Repr

/-- What a getter returns or a parameter holds: a value of the tables, or one of the other types that
`DAOUtils` treats on its own. A double that is no finite number is `none`. -/
inductive JavaValue where
  | value (v : Value)
  | double (x : Option Rat)
  | boolean (b : Bool)
  | date (time : Int)
  | timestamp (time : Int)
deriving DecidableEq

/-- The declared types that `useModelToFillParamMap` asks for. -/
inductive FieldType where
  | date
  | boolean
  | other
deriving DecidableEq, Repr

/-- A private field of a model class with its getter. -/
structure Property (T : Type) where
  name : Text
  type : FieldType
  get : T → JavaValue

/-- `DAOUtils` of a model class: its fields have different names, one of which is `id`, and the names
are Java identifiers, which are words of SQL. -/
structure DAOUtils (T : Type) where
  fields : List (Property T)
  tableName : Text
  namingRule : NamingRule
  distinct : (fields.map Property.name).Nodup
  hasId : ∃ f ∈ fields, f.name = "id".toList
  fieldWords : ∀ f ∈ fields, Word f.name
  tableWord : Word tableName

namespace DAOUtils

def QUERY_DELIMETER : Text := " and ".toList
def COMMA_DELIMETER : Text := ",".toList
def FIELDS : Text := "$\x7bfield\x7d".toList
def TABLE : Text := "$\x7btable\x7d".toList
def VALUES : Text := "$\x7bvalue\x7d".toList

def INSERT_SQL : Text :=
  "insert into ".toList ++ TABLE ++ "(".toList ++ FIELDS ++ ") values(".toList ++ VALUES ++ ")".toList
def SELECT_SQL : Text := "select * from ".toList ++ TABLE ++ " where 1=1".toList
def UPDATE_SQL : Text :=
  "update ".toList ++ TABLE ++ " set ".toList ++ FIELDS ++ " where id=:id".toList
def UPDATE_SQL_BY_FIELDS : Text :=
  "update ".toList ++ TABLE ++ " set ".toList ++ FIELDS ++ " where 1=1".toList
def DELETE_SQL : Text := "delete from ".toList ++ TABLE ++ " where 1=1".toList ++ FIELDS

/-- `isUninitField` of a value. -/
def isUninitField : JavaValue → Bool
  | .value v => Dao.isUninitField v
  | .double x => x == some 0
  | _ => false

def isUpperCase (c : Char) : Bool := decide (c.toNat < 91) && decide (64 < c.toNat)

def up2low (c : Char) : Char := Char.ofNat (c.toNat + 32)

def mappingCamelToUnderscore : Text → Text
  | [] => []
  | first :: rest =>
    (if isUpperCase first then up2low first else first) ::
      rest.flatMap fun c => if isUpperCase c then ['_', up2low c] else [c]

section

variable {T : Type} (utils : DAOUtils T) (t : T)

def getDBField (fieldName : Text) : Text :=
  match utils.namingRule with
  | .CAMEL => fieldName
  | .UNDERSCORE => mappingCamelToUnderscore fieldName

def buildClause (selectFields : List Text) (delimeter : Text) : Text :=
  selectFields.flatMap fun f =>
    delimeter ++
      (if utils.namingRule = .UNDERSCORE then mappingCamelToUnderscore f else f) ++ "=:".toList ++ f

def getSelectedFields (fieldNames : List Text) (isWhiteList : Bool) : List Text :=
  (utils.fields.filter fun f =>
    !isUninitField (f.get t) &&
      if isWhiteList then fieldNames.contains f.name else !fieldNames.contains f.name).map
    Property.name

def choseAllFieldsAsQueryClause : Text :=
  utils.buildClause (utils.getSelectedFields t [] false) QUERY_DELIMETER

def choseSelectedFieldsAsQueryClause (fieldNames : List Text) : Text :=
  utils.buildClause (utils.getSelectedFields t fieldNames true) QUERY_DELIMETER

def getSetValuesClause (fieldNames : List Text) (isWhiteList : Bool) : Text :=
  utils.buildClause ((utils.getSelectedFields t fieldNames isWhiteList).erase "id".toList)
    COMMA_DELIMETER

/-- `sb.substring(delimeter.length())`. -/
def format (sb delimeter : Text) : Except Fault Text :=
  if sb.length < delimeter.length then .error .indexOutOfBounds else .ok (sb.drop delimeter.length)

def getSelectSQL : Text :=
  replace TABLE utils.tableName SELECT_SQL ++ utils.choseAllFieldsAsQueryClause t

def getDeleteSQL : Text :=
  replace FIELDS (utils.choseAllFieldsAsQueryClause t) (replace TABLE utils.tableName DELETE_SQL)

def getUpdateSQL : Except Fault Text := do
  let fields ← format (utils.getSetValuesClause t [] false) COMMA_DELIMETER
  return replace FIELDS fields (replace TABLE utils.tableName UPDATE_SQL)

def getUpdateByFieldsSQL (queryFields : List Text) : Except Fault Text := do
  let fields ← format (utils.getSetValuesClause t queryFields false) COMMA_DELIMETER
  return replace FIELDS fields (replace TABLE utils.tableName UPDATE_SQL_BY_FIELDS) ++
    utils.choseSelectedFieldsAsQueryClause t queryFields

/-- The fields that `filterUnexpectedFileds` and `getValueRepeat` go through: those whose name is not
a part of the given text. Their second test asks whether the `Field` object itself is an unset
number, which it never is. -/
def expectedFields (unexpectedFileds : Text) : List (Property T) :=
  utils.fields.filter fun f => !decide (f.name <:+: unexpectedFileds)

def filterUnexpectedFileds (unexpectedFileds : Text) : Except Fault Text :=
  format ((utils.expectedFields unexpectedFileds).flatMap fun f =>
    COMMA_DELIMETER ++ utils.getDBField f.name) COMMA_DELIMETER

def getValueRepeat (expectField : Text) : Except Fault Text :=
  format ((utils.expectedFields expectField).flatMap fun f =>
    COMMA_DELIMETER ++ ":".toList ++ f.name) COMMA_DELIMETER

def getInsertSQL (expectField : Text) : Except Fault Text := do
  let fields ← utils.filterUnexpectedFileds expectField
  let values ← utils.getValueRepeat expectField
  return replace VALUES values (replace FIELDS fields (replace TABLE utils.tableName INSERT_SQL))

/-- What `useModelToFillParamMap` puts for a value. -/
def paramValue : FieldType → JavaValue → JavaValue
  | .date, .date time => .timestamp time
  | .boolean, .boolean b => .value (.text (if b then "1".toList else "0".toList))
  | .boolean, .value .null => .value (.text "0".toList)
  | _, value => value

def useModelToFillParamMap (isAll : Bool) : List (Text × JavaValue) :=
  (utils.fields.filter fun f => isAll || !isUninitField (f.get t)).map fun f =>
    (f.name, paramValue f.type (f.get t))

def getParamMap : List (Text × JavaValue) := utils.useModelToFillParamMap t false

end

/-! ## The templates -/

/-- The marks of the templates, whose second character occurs in no name. -/
def IsMark (mark : Text) : Prop := ∃ inner, mark = '$' :: '\x7b' :: inner

theorem isMark_table : IsMark TABLE := ⟨_, rfl⟩

theorem isMark_fields : IsMark FIELDS := ⟨_, rfl⟩

theorem isMark_values : IsMark VALUES := ⟨_, rfl⟩

/-- The first mark of a text is filled in. -/
theorem replace_mark {mark start rest replacement : Text} (isMark : IsMark mark)
    (absent : '\x7b' ∉ start) :
    replace mark replacement (start ++ (mark ++ rest)) =
      start ++ (replacement ++ replace mark replacement rest) := by
  obtain ⟨inner, rfl⟩ := isMark
  rw [replace_append_of_absent absent (by simp), replace_target_append (List.cons_ne_nil _ _)]

theorem word_absent {w : Text} (word : Word w) : '\x7b' ∉ w :=
  fun inside => absurd (word.2 _ inside) (by decide)

section Words

variable {T : Type} {utils : DAOUtils T} {t : T}

theorem nameChar_up2low {c : Char} (upper : isUpperCase c = true) : nameChar (up2low c) = true := by
  have letters : ∀ n < 91, 64 < n → nameChar (Char.ofNat (n + 32)) = true := by decide
  simp only [isUpperCase, Bool.and_eq_true, decide_eq_true_eq] at upper
  exact letters c.toNat upper.1 upper.2

theorem word_mappingCamelToUnderscore {fieldName : Text} (word : Word fieldName) :
    Word (mappingCamelToUnderscore fieldName) := by
  obtain ⟨first, rest, rfl⟩ := List.exists_cons_of_ne_nil word.1
  refine ⟨List.cons_ne_nil _ _, fun c member => ?_⟩
  rcases List.mem_cons.mp member with rfl | later
  · split
    · exact nameChar_up2low ‹_›
    · exact word.2 first List.mem_cons_self
  · obtain ⟨d, inside, mapped⟩ := List.mem_flatMap.mp later
    split at mapped
    · rcases List.mem_pair.mp mapped with rfl | rfl
      · decide
      · exact nameChar_up2low ‹_›
    · rw [List.mem_singleton.mp mapped]
      exact word.2 d (List.mem_cons_of_mem first inside)

theorem word_getDBField {fieldName : Text} (word : Word fieldName) :
    Word (utils.getDBField fieldName) := by
  unfold getDBField
  split
  · exact word
  · exact word_mappingCamelToUnderscore word

end Words

/-! ## The texts as statements -/

section Texts

variable {T : Type} (utils : DAOUtils T)

/-- The column of a field next to its parameter. -/
def equation (fieldName : Text) : Equation := ⟨utils.getDBField fieldName, fieldName⟩

def equals (fieldName : Text) : Condition := .equals (utils.equation fieldName)

theorem ite_getDBField (fieldName : Text) :
    (if utils.namingRule = .UNDERSCORE then mappingCamelToUnderscore fieldName else fieldName) =
      utils.getDBField fieldName := by
  unfold getDBField
  cases utils.namingRule with
  | CAMEL => rfl
  | UNDERSCORE => rfl

theorem buildClause_eq (names : List Text) (delimeter : Text) :
    utils.buildClause names delimeter =
      names.flatMap fun f => delimeter ++ (utils.equation f).text := by
  unfold buildClause
  refine congrArg (names.flatMap ·) (funext fun f => ?_)
  rw [ite_getDBField, List.append_assoc, List.append_assoc]
  rfl

theorem queryClause_eq (names : List Text) :
    utils.buildClause names QUERY_DELIMETER =
      (names.map utils.equals).flatMap fun d => " and ".toList ++ d.text := by
  rw [buildClause_eq, List.flatMap_map]
  rfl

/-- A clause with the delimiter in front of each item loses the first one, if it has an item. -/
theorem format_flatMap {α : Type} (items : List α) (f : α → Text) :
    format (items.flatMap fun x => COMMA_DELIMETER ++ f x) COMMA_DELIMETER =
      if items = [] then .error .indexOutOfBounds else .ok (commas (items.map f)) := by
  cases items with
  | nil => rfl
  | cons x others =>
    rw [if_neg (List.cons_ne_nil x others), List.map_cons, commas, List.flatMap_map]
    rfl

theorem setClause_eq (names : List Text) :
    format (utils.buildClause names COMMA_DELIMETER) COMMA_DELIMETER =
      if names = [] then .error .indexOutOfBounds
      else .ok (commas ((names.map utils.equation).map Equation.text)) := by
  rw [buildClause_eq, format_flatMap, List.map_map]
  rfl

theorem getSelectSQL_eq (t : T) :
    utils.getSelectSQL t =
      render (.select utils.tableName
        (.one :: (utils.getSelectedFields t [] false).map utils.equals)) := by
  have filled : replace TABLE utils.tableName SELECT_SQL =
      "select * from ".toList ++ (utils.tableName ++ " where 1=1".toList) := by
    unfold SELECT_SQL
    rw [List.append_assoc, replace_mark isMark_table (by decide), replace_of_not_infix (by decide)]
  unfold getSelectSQL choseAllFieldsAsQueryClause
  rw [filled, queryClause_eq, ← List.append_assoc, List.append_assoc]
  rfl

theorem getDeleteSQL_eq (t : T) :
    utils.getDeleteSQL t =
      render (.delete utils.tableName
        (.one :: (utils.getSelectedFields t [] false).map utils.equals)) := by
  have filled : replace TABLE utils.tableName DELETE_SQL =
      ("delete from ".toList ++ (utils.tableName ++ " where 1=1".toList)) ++ (FIELDS ++ []) := by
    unfold DELETE_SQL
    simp only [List.append_assoc]
    rw [replace_mark isMark_table (by decide), replace_of_not_infix (by decide)]
    rfl
  have absent : '\x7b' ∉ "delete from ".toList ++ (utils.tableName ++ " where 1=1".toList) :=
    List.not_mem_append (by decide) (List.not_mem_append (word_absent utils.tableWord) (by decide))
  unfold getDeleteSQL choseAllFieldsAsQueryClause
  rw [filled, replace_mark isMark_fields absent, replace_nil, List.append_nil, queryClause_eq,
    ← List.append_assoc, List.append_assoc]
  rfl

/-- The start of the two update templates, with both marks filled in. -/
theorem replace_update (fields rest : Text) (noFields : ¬FIELDS <:+: rest)
    (noTable : ¬TABLE <:+: " set ".toList ++ (FIELDS ++ rest)) :
    replace FIELDS fields (replace TABLE utils.tableName
        ("update ".toList ++ TABLE ++ " set ".toList ++ FIELDS ++ rest)) =
      "update ".toList ++ utils.tableName ++ " set ".toList ++ fields ++ rest := by
  have absent : '\x7b' ∉ "update ".toList ++ (utils.tableName ++ " set ".toList) :=
    List.not_mem_append (by decide) (List.not_mem_append (word_absent utils.tableWord) (by decide))
  simp only [List.append_assoc]
  rw [replace_mark isMark_table (by decide), replace_of_not_infix noTable]
  have grouped : "update ".toList ++ (utils.tableName ++ (" set ".toList ++ (FIELDS ++ rest))) =
      "update ".toList ++ (utils.tableName ++ " set ".toList) ++ (FIELDS ++ rest) := by
    simp only [List.append_assoc]
  rw [grouped, replace_mark isMark_fields absent, replace_of_not_infix noFields]
  simp only [List.append_assoc]

/-- The fields that an update sets. -/
def setFields (t : T) (queryFields : List Text) : List Text :=
  (utils.getSelectedFields t queryFields false).erase "id".toList

theorem getUpdateSQL_eq (t : T) :
    utils.getUpdateSQL t =
      if utils.setFields t [] = [] then .error .indexOutOfBounds
      else .ok (render (.update utils.tableName ((utils.setFields t []).map utils.equation)
        [.equals ⟨"id".toList, "id".toList⟩])) := by
  unfold getUpdateSQL getSetValuesClause
  rw [setClause_eq]
  change (if utils.setFields t [] = [] then _ else _) >>= _ = _
  by_cases none_ : utils.setFields t [] = []
  · rw [if_pos none_, if_pos none_]
    rfl
  · rw [if_neg none_, if_neg none_]
    exact congrArg Except.ok
      (utils.replace_update _ " where id=:id".toList (by decide) (by decide))

theorem getUpdateByFieldsSQL_eq (t : T) (queryFields : List Text) :
    utils.getUpdateByFieldsSQL t queryFields =
      if utils.setFields t queryFields = [] then .error .indexOutOfBounds
      else .ok (render (.update utils.tableName ((utils.setFields t queryFields).map utils.equation)
        (.one :: (utils.getSelectedFields t queryFields true).map utils.equals))) := by
  unfold getUpdateByFieldsSQL getSetValuesClause choseSelectedFieldsAsQueryClause
  rw [setClause_eq, queryClause_eq]
  change (if utils.setFields t queryFields = [] then _ else _) >>= _ = _
  by_cases none_ : utils.setFields t queryFields = []
  · rw [if_pos none_, if_pos none_]
    rfl
  · rw [if_neg none_, if_neg none_]
    refine congrArg Except.ok ((congrArg (· ++ _)
      (utils.replace_update _ " where 1=1".toList (by decide) (by decide))).trans ?_)
    rw [List.append_assoc]
    rfl

theorem replace_insert (fields values : Text) (absentFields : '\x7b' ∉ fields) :
    replace VALUES values (replace FIELDS fields (replace TABLE utils.tableName INSERT_SQL)) =
      "insert into ".toList ++ utils.tableName ++ "(".toList ++ fields ++ ") values(".toList ++
        values ++ ")".toList := by
  have table : replace TABLE utils.tableName INSERT_SQL =
      ("insert into ".toList ++ (utils.tableName ++ "(".toList)) ++
        (FIELDS ++ (") values(".toList ++ (VALUES ++ ")".toList))) := by
    unfold INSERT_SQL
    simp only [List.append_assoc]
    rw [replace_mark isMark_table (by decide), replace_of_not_infix (by decide)]
  have absentTable : '\x7b' ∉ "insert into ".toList ++ (utils.tableName ++ "(".toList) :=
    List.not_mem_append (by decide) (List.not_mem_append (word_absent utils.tableWord) (by decide))
  have listed : replace FIELDS fields (replace TABLE utils.tableName INSERT_SQL) =
      (("insert into ".toList ++ (utils.tableName ++ "(".toList)) ++
        (fields ++ ") values(".toList)) ++ (VALUES ++ ")".toList) := by
    rw [table, replace_mark isMark_fields absentTable, replace_of_not_infix (by decide)]
    simp only [List.append_assoc]
  have absent : '\x7b' ∉ ("insert into ".toList ++ (utils.tableName ++ "(".toList)) ++
      (fields ++ ") values(".toList) :=
    List.not_mem_append absentTable (List.not_mem_append absentFields (by decide))
  rw [listed, replace_mark isMark_values absent, replace_of_not_infix (by decide)]
  simp only [List.append_assoc]

theorem absent_commas {items : List Text} (absent : ∀ x ∈ items, '\x7b' ∉ x) :
    '\x7b' ∉ commas items := by
  cases items with
  | nil => exact List.not_mem_nil
  | cons x others =>
    refine List.not_mem_append (absent x List.mem_cons_self) fun inside => ?_
    obtain ⟨y, member, there⟩ := List.mem_flatMap.mp inside
    rcases List.mem_cons.mp there with comma | there
    · exact absurd comma (by decide)
    · exact absent y (List.mem_cons_of_mem x member) there

theorem getInsertSQL_eq (expectField : Text) :
    utils.getInsertSQL expectField =
      if utils.expectedFields expectField = [] then .error .indexOutOfBounds
      else .ok (render (.insert utils.tableName
        ((utils.expectedFields expectField).map fun f => utils.getDBField f.name)
        ((utils.expectedFields expectField).map Property.name))) := by
  unfold getInsertSQL filterUnexpectedFileds getValueRepeat
  simp only [List.append_assoc]
  rw [format_flatMap, format_flatMap]
  by_cases none_ : utils.expectedFields expectField = []
  · rw [if_pos none_, if_pos none_, if_pos none_]
    rfl
  · rw [if_neg none_, if_neg none_, if_neg none_]
    refine congrArg Except.ok ((utils.replace_insert _ _ (absent_commas ?_)).trans ?_)
    · intro x member
      obtain ⟨f, inside, rfl⟩ := List.mem_map.mp member
      exact word_absent (word_getDBField (utils.fieldWords f (List.mem_filter.mp inside).1))
    · have values : ((utils.expectedFields expectField).map fun f => ":".toList ++ f.name) =
          ((utils.expectedFields expectField).map Property.name).map (':' :: ·) := by
        rw [List.map_map]
        rfl
      rw [values]
      rfl

/-! ## The fields they list -/

variable {utils} {t : T} {fieldNames : List Text} {isWhiteList : Bool}

theorem mem_getSelectedFields {name : Text} :
    name ∈ utils.getSelectedFields t fieldNames isWhiteList ↔
      ∃ f ∈ utils.fields, f.name = name ∧ isUninitField (f.get t) = false ∧
        (name ∈ fieldNames ↔ isWhiteList = true) := by
  have listed : ∀ f : Property T, (!isUninitField (f.get t) &&
      if isWhiteList then fieldNames.contains f.name else !fieldNames.contains f.name) = true ↔
        isUninitField (f.get t) = false ∧ (f.name ∈ fieldNames ↔ isWhiteList = true) := by
    intro f
    cases isWhiteList with
    | true => simp
    | false => simp
  unfold getSelectedFields
  rw [List.mem_map]
  constructor
  · rintro ⟨f, member, rfl⟩
    obtain ⟨inside, chosen⟩ := List.mem_filter.mp member
    exact ⟨f, inside, rfl, (listed f).mp chosen⟩
  · rintro ⟨f, inside, rfl, chosen⟩
    exact ⟨f, List.mem_filter.mpr ⟨inside, (listed f).mpr chosen⟩, rfl⟩

theorem nodup_getSelectedFields : (utils.getSelectedFields t fieldNames isWhiteList).Nodup :=
  utils.distinct.sublist (List.filter_sublist.map Property.name)

/-- An update sets the initialised fields that it does not ask for, but never the id. -/
theorem mem_setFields {name : Text} :
    name ∈ utils.setFields t fieldNames ↔
      ∃ f ∈ utils.fields, f.name = name ∧ isUninitField (f.get t) = false ∧
        name ∉ fieldNames ∧ name ≠ "id".toList := by
  unfold setFields
  rw [nodup_getSelectedFields.mem_erase_iff, mem_getSelectedFields]
  constructor
  · rintro ⟨other, f, member, same, init, outside⟩
    exact ⟨f, member, same, init, fun inside => by simpa using outside.mp inside, other⟩
  · rintro ⟨f, member, same, init, outside, other⟩
    exact ⟨other, f, member, same, init, fun inside => absurd inside outside, by nofun⟩

theorem mem_expectedFields {unexpected : Text} {f : Property T} :
    f ∈ utils.expectedFields unexpected ↔ f ∈ utils.fields ∧ ¬f.name <:+: unexpected := by
  unfold expectedFields
  rw [List.mem_filter, Bool.not_eq_true', decide_eq_false_iff_not]

/-- The parameter map has the names of all fields, or of the initialised ones. -/
theorem mem_useModelToFillParamMap {isAll : Bool} {name : Text} :
    name ∈ (utils.useModelToFillParamMap t isAll).map Prod.fst ↔
      ∃ f ∈ utils.fields, f.name = name ∧ (isAll = true ∨ isUninitField (f.get t) = false) := by
  unfold useModelToFillParamMap
  rw [List.map_map, List.mem_map]
  constructor
  · rintro ⟨f, member, rfl⟩
    obtain ⟨inside, chosen⟩ := List.mem_filter.mp member
    exact ⟨f, inside, rfl, by simpa using chosen⟩
  · rintro ⟨f, inside, rfl, chosen⟩
    exact ⟨f, List.mem_filter.mpr ⟨inside, by simpa using chosen⟩, rfl⟩

end Texts

end DAOUtils

end Clb.Dao
