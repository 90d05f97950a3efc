/-
# Dao.SqlMatch -- the SQL texts of DAOUtils match their parameters

A text goes to the database together with a parameter map. They match if the map binds every
parameter that the text names, if each parameter stands next to the column of its own field, and if
the database can read the text (`Matches`). The first two hold of every text that `DAOUtils` builds.
The last one depends on the names: a column has to be a name of the dialect, and an insert drops every
field whose name is a part of the text `id,`, so that it may be left without any.

`sqlMatches_iff` gives the condition for all five statements together. -/
import Clb.Dao.SqlText

set_option autoImplicit false

namespace Clb.Dao.DAOUtils

open Clb.Lib Clb.Lib.Sql

variable {fieldNames : List Text} {isWhiteList : Bool} {queryFields : List Text} {statement : Sql.Statement}

variable {T : Type} (utils : DAOUtils T)

/-- A column next to the parameter of the same field. -/
def Pairs (e : Equation) : Prop := ∃ f ∈ utils.fields, e = utils.equation f.name

/-- Each parameter stands next to its column; in an insert they are at the same places of two lists
of the same length. -/
def Paired : Sql.Statement → Prop
  | .select _ conditions => ∀ e, .equals e ∈ conditions → utils.Pairs e
  | .delete _ conditions => ∀ e, .equals e ∈ conditions → utils.Pairs e
  | .insert _ columns values => List.Forall₂ (fun column p => utils.Pairs ⟨column, p⟩) columns values
  | .update _ assignments conditions =>
    (∀ e ∈ assignments, utils.Pairs e) ∧ ∀ e, .equals e ∈ conditions → utils.Pairs e

/-- A text and the parameters that are bound for it. `isName` tells the names of the dialect, and
`toSet` says whether there is a field to set, without which no text is expected. -/
structure Matches (isName : Text → Bool) (sql : Except Fault Text) (params : List (Text × JavaValue))
    (toSet : Prop) : Prop where
  bound : ∀ text, sql = .ok text → ∀ p ∈ placeholders text, p ∈ params.map Prod.fst
  paired : ∀ text, sql = .ok text →
    ∃ statement, parse (fun _ => true) text = some statement ∧ utils.Paired statement
  wellFormed : toSet → ∃ text, sql = .ok text ∧ (parse isName text).isSome = true

/-- The object has an initialised field besides the id and the query fields. -/
def HasFieldToSet (t : T) (queryFields : List Text) : Prop :=
  ∃ f ∈ utils.fields, isUninitField (f.get t) = false ∧ f.name ∉ queryFields ∧ f.name ≠ "id".toList

/-- The texts that `BaseDAO` builds for an object match the parameters it builds for them. -/
structure SqlMatches (isName : Text → Bool) (t : T) : Prop where
  select : utils.Matches isName (.ok (utils.getSelectSQL t)) (utils.getParamMap t)
    (utils.HasFieldToSet t [])
  delete : utils.Matches isName (.ok (utils.getDeleteSQL t)) (utils.getParamMap t)
    (utils.HasFieldToSet t [])
  insert : utils.Matches isName (utils.getInsertSQL "id,".toList)
    (utils.useModelToFillParamMap t true) (utils.HasFieldToSet t [])
  updateByFields : ∀ queryFields, utils.Matches isName (utils.getUpdateByFieldsSQL t queryFields)
    (utils.getParamMap t) (utils.HasFieldToSet t queryFields)
  update : (∀ f ∈ utils.fields, f.name = "id".toList → isUninitField (f.get t) = false) →
    utils.Matches isName (utils.getUpdateSQL t) (utils.getParamMap t) (utils.HasFieldToSet t [])

/-- The table and the columns of the object are names of the dialect, and an insert has a column. -/
structure Nameable (isName : Text → Bool) (t : T) : Prop where
  table : isName utils.tableName = true
  initialised : ∀ f ∈ utils.fields, isUninitField (f.get t) = false →
    isName (utils.getDBField f.name) = true
  inserted : ∀ f ∈ utils.fields, ¬f.name <:+: "id,".toList →
    isName (utils.getDBField f.name) = true
  someColumn : ∃ f ∈ utils.fields, ¬f.name <:+: "id,".toList

variable {utils} {isName : Text → Bool} {t : T} {params : List (Text × JavaValue)} {toSet : Prop}

/-! ## One text -/

theorem named_of_any (any : ∀ w, isName w = true) :
    statement.named isName = true := by
  have conditions : ∀ cs : List Condition, cs.all (Condition.named isName) = true := by
    intro cs
    refine List.all_eq_true.mpr fun c _ => ?_
    cases c with
    | one => rfl
    | equals e => exact any _
  cases statement with
  | select table cs => simp [Sql.Statement.named, any, conditions]
  | delete table cs => simp [Sql.Statement.named, any, conditions]
  | insert table columns values => simp [Sql.Statement.named, any]
  | update table assignments cs => simp [Sql.Statement.named, any, conditions]

/-- A written statement is read back, where any word is a name. -/
theorem parse_any (spelled : statement.Spelled) :
    parse (fun _ => true) (render statement) = some statement := by
  rw [parse_render spelled, named_of_any fun _ => rfl]
  rfl

/-- A written statement matches if its parameters are bound and paired and its names are names. -/
theorem matches_render (spelled : statement.Spelled)
    (bound : ∀ p ∈ statement.params, p ∈ params.map Prod.fst) (paired : utils.Paired statement)
    (named : toSet → statement.named isName = true) :
    utils.Matches isName (.ok (render statement)) params toSet where
  bound := by
    rintro _ ⟨⟩
    rwa [placeholders_render spelled]
  paired := by
    rintro _ ⟨⟩
    exact ⟨statement, parse_any spelled, paired⟩
  wellFormed given := ⟨_, rfl, by rw [parse_render spelled, named given]; rfl⟩

theorem matches_error {fault : Fault} (nothing : ¬toSet) :
    utils.Matches isName (.error fault) params toSet where
  bound := by nofun
  paired := by nofun
  wellFormed given := absurd given nothing

/-- A text that the database reads has names for its table and its columns. -/
theorem Matches.named (matches_ : utils.Matches isName (.ok (render statement)) params toSet)
    (spelled : statement.Spelled) (given : toSet) : statement.named isName = true := by
  obtain ⟨text, same, parsed⟩ := matches_.wellFormed given
  obtain rfl := Except.ok.inj same
  rw [parse_render spelled] at parsed
  by_contra unnamed
  rw [if_neg unnamed] at parsed
  cases parsed

/-! ## The five texts -/

theorem spelled_equation {f : Property T} (member : f ∈ utils.fields) :
    (utils.equation f.name).Spelled :=
  ⟨word_getDBField (utils.fieldWords f member), utils.fieldWords f member⟩

/-- The id is its own column under both naming rules. -/
theorem equation_id : utils.equation "id".toList = ⟨"id".toList, "id".toList⟩ := by
  unfold equation getDBField
  split
  · rfl
  · exact congrArg (Equation.mk · _) (by decide)

section Clause

variable {names : List Text}

/-- The names are names of fields. -/
def Fields (utils : DAOUtils T) (names : List Text) : Prop :=
  ∀ name ∈ names, ∃ f ∈ utils.fields, f.name = name

theorem fields_getSelectedFields :
    utils.Fields (utils.getSelectedFields t fieldNames isWhiteList) := by
  intro name member
  obtain ⟨f, inside, same, -⟩ := mem_getSelectedFields.mp member
  exact ⟨f, inside, same⟩

theorem fields_setFields : utils.Fields (utils.setFields t queryFields) :=
  fun name member => fields_getSelectedFields name (List.mem_of_mem_erase member)

theorem spelled_conditions (fields : utils.Fields names) :
    ∀ c ∈ .one :: names.map utils.equals, c.Spelled := by
  intro c member
  rcases List.mem_cons.mp member with rfl | later
  · exact trivial
  · obtain ⟨name, inside, rfl⟩ := List.mem_map.mp later
    obtain ⟨f, field, rfl⟩ := fields name inside
    exact spelled_equation field

theorem pairs_conditions (fields : utils.Fields names) :
    ∀ e, .equals e ∈ .one :: names.map utils.equals → utils.Pairs e := by
  intro e member
  obtain ⟨name, inside, same⟩ := List.mem_map.mp ((List.mem_cons.mp member).resolve_left nofun)
  obtain ⟨f, field, rfl⟩ := fields name inside
  exact ⟨f, field, (Condition.equals.inj same).symm⟩

theorem params_conditions :
    (.one :: names.map utils.equals).flatMap Condition.params = names := by
  rw [List.flatMap_cons, List.flatMap_map]
  exact List.flatMap_singleton' names

theorem named_conditions :
    (.one :: names.map utils.equals).all (Condition.named isName) = true ↔
      ∀ name ∈ names, isName (utils.getDBField name) = true := by
  rw [List.all_cons, List.all_map, Condition.named, Bool.true_and, List.all_eq_true]
  exact Iff.rfl

theorem spelled_assignments (fields : utils.Fields names) :
    ∀ e ∈ names.map utils.equation, e.Spelled := by
  intro e member
  obtain ⟨name, inside, rfl⟩ := List.mem_map.mp member
  obtain ⟨f, field, rfl⟩ := fields name inside
  exact spelled_equation field

theorem pairs_assignments (fields : utils.Fields names) :
    ∀ e ∈ names.map utils.equation, utils.Pairs e := by
  intro e member
  obtain ⟨name, inside, rfl⟩ := List.mem_map.mp member
  obtain ⟨f, field, rfl⟩ := fields name inside
  exact ⟨f, field, rfl⟩

end Clause

theorem setFields_ne_nil_iff :
    utils.setFields t queryFields ≠ [] ↔ utils.HasFieldToSet t queryFields := by
  constructor
  · intro some_
    obtain ⟨name, member⟩ := List.exists_mem_of_ne_nil _ some_
    obtain ⟨f, field, rfl, init, outside, other⟩ := mem_setFields.mp member
    exact ⟨f, field, init, outside, other⟩
  · rintro ⟨f, field, init, outside, other⟩
    exact List.ne_nil_of_mem (mem_setFields.mpr ⟨f, field, rfl, init, outside, other⟩)

/-- A selected field is bound. -/
theorem bound_getSelectedFields :
    ∀ name ∈ utils.getSelectedFields t fieldNames isWhiteList,
      name ∈ (utils.getParamMap t).map Prod.fst := by
  intro name member
  obtain ⟨f, field, same, init, -⟩ := mem_getSelectedFields.mp member
  exact mem_useModelToFillParamMap.mpr ⟨f, field, same, .inr init⟩

theorem bound_setFields :
    ∀ name ∈ utils.setFields t queryFields, name ∈ (utils.getParamMap t).map Prod.fst :=
  fun name member => bound_getSelectedFields name (List.mem_of_mem_erase member)

/-- The columns of selected fields are names, if those of the initialised fields are. -/
theorem Nameable.selected (nameable : utils.Nameable isName t)
    :
    ∀ name ∈ utils.getSelectedFields t fieldNames isWhiteList,
      isName (utils.getDBField name) = true := by
  intro name member
  obtain ⟨f, field, rfl, init, -⟩ := mem_getSelectedFields.mp member
  exact nameable.initialised f field init

theorem select_spelled :
    (Sql.Statement.select utils.tableName
      (.one :: (utils.getSelectedFields t [] false).map utils.equals)).Spelled :=
  ⟨utils.tableWord, spelled_conditions fields_getSelectedFields⟩

theorem insert_spelled (some_ : utils.expectedFields "id,".toList ≠ []) :
    (Sql.Statement.insert utils.tableName
      ((utils.expectedFields "id,".toList).map fun f => utils.getDBField f.name)
      ((utils.expectedFields "id,".toList).map Property.name)).Spelled := by
  refine ⟨utils.tableWord, by simpa using some_, by simpa using some_, ?_, ?_⟩
  · intro w member
    obtain ⟨f, inside, rfl⟩ := List.mem_map.mp member
    exact word_getDBField (utils.fieldWords f (mem_expectedFields.mp inside).1)
  · intro p member
    obtain ⟨f, inside, rfl⟩ := List.mem_map.mp member
    exact utils.fieldWords f (mem_expectedFields.mp inside).1

/-- A select and a delete by example have the same conditions. -/
theorem matches_byExample {statement : Text → List Sql.Condition → Sql.Statement}
    (either : statement = .select ∨ statement = .delete)
    (nameable : utils.HasFieldToSet t [] → utils.Nameable isName t) :
    utils.Matches isName
      (.ok (render (statement utils.tableName
        (.one :: (utils.getSelectedFields t [] false).map utils.equals))))
      (utils.getParamMap t) (utils.HasFieldToSet t []) := by
  rcases either with rfl | rfl
  all_goals
    refine matches_render ⟨utils.tableWord, spelled_conditions fields_getSelectedFields⟩ ?_
      (pairs_conditions fields_getSelectedFields) fun given => ?_
    · rw [Sql.Statement.params, params_conditions]
      exact bound_getSelectedFields
    · rw [Sql.Statement.named, (nameable given).table, Bool.true_and]
      exact named_conditions.mpr (nameable given).selected

theorem matches_insert (nameable : utils.HasFieldToSet t [] → utils.Nameable isName t) :
    utils.Matches isName (utils.getInsertSQL "id,".toList) (utils.useModelToFillParamMap t true)
      (utils.HasFieldToSet t []) := by
  rw [getInsertSQL_eq]
  split
  · rename_i none_
    refine matches_error fun given => ?_
    obtain ⟨f, field, outside⟩ := (nameable given).someColumn
    have member := mem_expectedFields.mpr ⟨field, outside⟩
    rw [none_] at member
    exact List.not_mem_nil member
  · rename_i some_
    refine matches_render (insert_spelled some_) ?_ ?_ fun given => ?_
    · intro p member
      obtain ⟨f, inside, rfl⟩ := List.mem_map.mp member
      exact mem_useModelToFillParamMap.mpr ⟨f, (mem_expectedFields.mp inside).1, rfl, .inl rfl⟩
    · refine List.forall₂_map_left_iff.mpr (List.forall₂_map_right_iff.mpr ?_)
      exact List.forall₂_same.mpr fun f inside => ⟨f, (mem_expectedFields.mp inside).1, rfl⟩
    · rw [Sql.Statement.named, (nameable given).table, Bool.true_and, List.all_map, List.all_eq_true]
      intro f inside
      obtain ⟨field, outside⟩ := mem_expectedFields.mp inside
      exact (nameable given).inserted f field outside

theorem update_spelled {conditions : List Condition}
    (some_ : utils.setFields t queryFields ≠ []) (spelled : ∀ c ∈ conditions, c.Spelled) :
    (Sql.Statement.update utils.tableName ((utils.setFields t queryFields).map utils.equation)
      conditions).Spelled :=
  ⟨utils.tableWord, by simpa using some_, spelled_assignments fields_setFields, spelled⟩

/-- An update of the fields to set, under conditions that match. -/
theorem matches_assignments {conditions : List Condition} (spelled : ∀ c ∈ conditions, c.Spelled)
    (bound : ∀ p ∈ conditions.flatMap Condition.params, p ∈ (utils.getParamMap t).map Prod.fst)
    (paired : ∀ e, .equals e ∈ conditions → utils.Pairs e)
    (nameable : utils.HasFieldToSet t queryFields → utils.Nameable isName t)
    (named : utils.Nameable isName t → conditions.all (Condition.named isName) = true) :
    utils.Matches isName
      (if utils.setFields t queryFields = [] then .error .indexOutOfBounds
        else .ok (render (.update utils.tableName
          ((utils.setFields t queryFields).map utils.equation) conditions)))
      (utils.getParamMap t) (utils.HasFieldToSet t queryFields) := by
  split
  · rename_i none_
    exact matches_error fun given => setFields_ne_nil_iff.mpr given none_
  · rename_i some_
    refine matches_render (update_spelled some_ spelled) ?_
      ⟨pairs_assignments fields_setFields, paired⟩ fun given => ?_
    · intro p member
      rcases List.mem_append.mp member with assigned | asked
      · rw [List.map_map] at assigned
        obtain ⟨name, inside, rfl⟩ := List.mem_map.mp assigned
        exact bound_setFields name inside
      · exact bound p asked
    · have names := nameable given
      rw [Sql.Statement.named, names.table, named names, Bool.true_and, Bool.and_true, List.all_map,
        List.all_eq_true]
      exact fun name member => names.selected name (List.mem_of_mem_erase member)

theorem HasFieldToSet.all (given : utils.HasFieldToSet t queryFields) :
    utils.HasFieldToSet t [] := by
  obtain ⟨f, field, init, -, other⟩ := given
  exact ⟨f, field, init, List.not_mem_nil, other⟩

theorem matches_updateByFields (queryFields : List Text)
    (nameable : utils.HasFieldToSet t [] → utils.Nameable isName t) :
    utils.Matches isName (utils.getUpdateByFieldsSQL t queryFields) (utils.getParamMap t)
      (utils.HasFieldToSet t queryFields) := by
  rw [getUpdateByFieldsSQL_eq]
  refine matches_assignments (spelled_conditions fields_getSelectedFields) ?_
    (pairs_conditions fields_getSelectedFields) (fun given => nameable given.all)
    fun names => named_conditions.mpr names.selected
  rw [params_conditions]
  exact bound_getSelectedFields

theorem matches_update
    (hasId : ∀ f ∈ utils.fields, f.name = "id".toList → isUninitField (f.get t) = false)
    (nameable : utils.HasFieldToSet t [] → utils.Nameable isName t) :
    utils.Matches isName (utils.getUpdateSQL t) (utils.getParamMap t)
      (utils.HasFieldToSet t []) := by
  obtain ⟨f, field, same⟩ := utils.hasId
  have own : utils.equation f.name = ⟨"id".toList, "id".toList⟩ := by rw [same, equation_id]
  rw [getUpdateSQL_eq, ← own]
  refine matches_assignments ?_ ?_ ?_ nameable fun names => ?_
  · intro c member
    rw [List.mem_singleton.mp member]
    exact spelled_equation field
  · intro p member
    rw [List.mem_singleton.mp member]
    exact mem_useModelToFillParamMap.mpr ⟨f, field, rfl, .inr (hasId f field same)⟩
  · intro e member
    exact ⟨f, field, Condition.equals.inj (List.mem_singleton.mp member)⟩
  · exact (Bool.and_true _).trans (names.initialised f field (hasId f field same))

/-! ## All of them -/

/-- What the select and the insert need is what all five texts need. -/
theorem SqlMatches.nameable (all : utils.SqlMatches isName t) (given : utils.HasFieldToSet t []) :
    utils.Nameable isName t := by
  have select := all.select
  rw [getSelectSQL_eq] at select
  have asked := select.named select_spelled given
  rw [Sql.Statement.named, Bool.and_eq_true, named_conditions] at asked
  have insert := all.insert
  rw [getInsertSQL_eq] at insert
  have some_ : utils.expectedFields "id,".toList ≠ [] := by
    intro none_
    rw [if_pos none_] at insert
    obtain ⟨text, failed, -⟩ := insert.wellFormed given
    cases failed
  rw [if_neg some_] at insert
  have written := insert.named (insert_spelled some_) given
  rw [Sql.Statement.named, Bool.and_eq_true, List.all_map, List.all_eq_true] at written
  obtain ⟨f, member⟩ := List.exists_mem_of_ne_nil _ some_
  exact {
    table := asked.1
    initialised := fun f field init =>
      asked.2 f.name (mem_getSelectedFields.mpr ⟨f, field, rfl, init, by simp⟩)
    inserted := fun f field outside => written.2 f (mem_expectedFields.mpr ⟨field, outside⟩)
    someColumn := ⟨f, mem_expectedFields.mp member⟩ }

/-- **When texts and parameters match.** If the object has a field to set, its table and its columns
have to be names of the dialect, and the class needs a field whose name is not a part of `id,`. -/
theorem sqlMatches_iff :
    utils.SqlMatches isName t ↔ (utils.HasFieldToSet t [] → utils.Nameable isName t) := by
  constructor
  · exact SqlMatches.nameable
  · intro nameable
    exact {
      select := getSelectSQL_eq utils t ▸ matches_byExample (.inl rfl) nameable
      delete := getDeleteSQL_eq utils t ▸ matches_byExample (.inr rfl) nameable
      insert := matches_insert nameable
      updateByFields := fun queryFields => matches_updateByFields queryFields nameable
      update := fun hasId => matches_update hasId nameable }

/-- A class with the fields `id` and `i`. -/
def counterUtils : DAOUtils (Int × Int) where
  fields := [⟨"id".toList, .other, fun t => .value (.number t.1)⟩,
    ⟨"i".toList, .other, fun t => .value (.number t.2)⟩]
  tableName := "counter".toList
  namingRule := .CAMEL
  distinct := by decide
  hasId := ⟨_, List.mem_cons_self, rfl⟩
  fieldWords := by
    intro f member
    rcases List.mem_pair.mp member with rfl | rfl
    · exact ⟨List.cons_ne_nil _ _, List.all_eq_true.mp rfl⟩
    · exact ⟨List.cons_ne_nil _ _, List.all_eq_true.mp rfl⟩
  tableWord := ⟨List.cons_ne_nil _ _, List.all_eq_true.mp rfl⟩

/-- The insert drops the field `i` together with the id and has no column left. -/
theorem insert_without_columns :
    counterUtils.HasFieldToSet (0, 5) [] ∧
      counterUtils.getInsertSQL "id,".toList = .error .indexOutOfBounds ∧
      ¬counterUtils.SqlMatches (fun _ => true) (0, 5) := by
  have given : counterUtils.HasFieldToSet (0, 5) [] :=
    ⟨_, List.mem_cons_of_mem _ List.mem_cons_self, by decide, List.not_mem_nil, by decide⟩
  have failed : counterUtils.getInsertSQL "id,".toList = .error .indexOutOfBounds := by
    rw [getInsertSQL_eq]
    exact if_pos (by decide)
  refine ⟨given, failed, fun all => ?_⟩
  obtain ⟨text, built, -⟩ := all.insert.wellFormed given
  rw [failed] at built
  cases built

end Clb.Dao.DAOUtils
