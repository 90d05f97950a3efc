/-
# Lib.Sql -- SQL statements with named parameters, as text and as syntax

A `Statement` selects, deletes, inserts or updates rows of one table, and its conditions and
assignments relate columns to parameters. `render` writes a statement, `lex` splits a text into
tokens, `placeholders` are the parameters a text names, and `parse` reads a statement back. Which
words can stand for tables and columns is left to the dialect, the parameter `isName` of `parse`.

`parse_render` says that a statement that is written out parses as itself if its tables and columns
are names of the dialect, and not at all otherwise. `placeholders_render` lists its parameters. -/
import Mathlib.Tactic.Common
import Mathlib.Data.List.Basic

set_option autoImplicit false

namespace Clb.Lib.Sql

/-! ## Tokens -/

inductive Token where
  | word (w : List Char)
  | param (p : List Char)
  | symbol (c : Char)
deriving DecidableEq, Repr

/-- The characters of a word: ASCII letters and digits, the underscore, the dollar sign, and
everything beyond ASCII. -/
def nameChar (c : Char) : Bool := c.isAlphanum || c == '_' || c == '$' || decide (128 ≤ c.toNat)

/-- The word or parameter that is being read. -/
inductive Pending where
  | idle
  | word (w : List Char)
  | param (p : List Char)

def Pending.push (c : Char) : Pending → Pending
  | .idle => .word [c]
  | .word w => .word (w ++ [c])
  | .param p => .param (p ++ [c])

/-- What has been read becomes a token. A colon that nothing follows is a mere symbol. -/
def Pending.flush : Pending → List Token
  | .idle => []
  | .word w => [.word w]
  | .param p => if p = [] then [.symbol ':'] else [.param p]

def lexFrom : Pending → List Char → List Token
  | pending, [] => pending.flush
  | pending, c :: rest =>
    if nameChar c then lexFrom (pending.push c) rest
    else if c = ' ' then pending.flush ++ lexFrom .idle rest
    else if c = ':' then pending.flush ++ lexFrom (.param []) rest
    else pending.flush ++ .symbol c :: lexFrom .idle rest

def lex (text : List Char) : List Token := lexFrom .idle text

def Token.param? : Token → Option (List Char)
  | .param p => some p
  | _ => none

/-- The parameters that a text names, in their order. -/
def placeholders (text : List Char) : List (List Char) := (lex text).filterMap Token.param?

/-- A nonempty sequence of word characters. -/
def Word (w : List Char) : Prop := w ≠ [] ∧ ∀ c ∈ w, nameChar c = true

instance (w : List Char) : Decidable (Word w) :=
  @instDecidableAnd _ _ inferInstance (List.decidableBAll _ w)

/-- The text does not go on with a word character. -/
def Stops (text : List Char) : Prop := ∀ c ∈ text.head?, nameChar c = false

instance (text : List Char) : Decidable (Stops text) := Option.decidableForallMem text.head?

section Lex

variable {w p text : List Char} {c : Char}

theorem stops_nil : Stops [] := by nofun

theorem stops_cons (outside : nameChar c = false) : Stops (c :: text) := by
  rintro _ ⟨⟩
  exact outside

theorem lexFrom_stops (pending : Pending) (stops : Stops text) :
    lexFrom pending text = pending.flush ++ lex text := by
  cases text with
  | nil => exact (List.append_nil _).symm
  | cons c rest =>
    have outside : ¬nameChar c = true := by simp [stops c rfl]
    unfold lex
    rw [lexFrom, lexFrom, if_neg outside, if_neg outside]
    split_ifs <;> rfl

theorem lexFrom_inside (kind : List Char → Pending)
    (pushes : ∀ v c, (kind v).push c = kind (v ++ [c])) (v : List Char)
    (inside : ∀ c ∈ w, nameChar c = true) :
    lexFrom (kind v) (w ++ text) = lexFrom (kind (v ++ w)) text := by
  induction w generalizing v with
  | nil => rw [List.nil_append, List.append_nil]
  | cons c rest ih =>
    rw [List.cons_append, lexFrom, if_pos (inside c List.mem_cons_self), pushes,
      ih _ fun d member => inside d (List.mem_cons_of_mem c member), List.append_assoc]
    rfl

theorem lex_word (spelled : Word w) (stops : Stops text) :
    lex (w ++ text) = .word w :: lex text := by
  obtain ⟨c, rest, rfl⟩ := List.exists_cons_of_ne_nil spelled.1
  unfold lex
  rw [List.cons_append, lexFrom, if_pos (spelled.2 c List.mem_cons_self), Pending.push,
    lexFrom_inside .word (fun _ _ => rfl) _ fun d member => spelled.2 d (List.mem_cons_of_mem c member),
    lexFrom_stops _ stops]
  rfl

theorem lex_param (spelled : Word p) (stops : Stops text) :
    lex (':' :: p ++ text) = .param p :: lex text := by
  unfold lex
  rw [List.cons_append, lexFrom, if_neg (by decide), if_neg (by decide), if_pos rfl,
    lexFrom_inside .param (fun _ _ => rfl) _ spelled.2, lexFrom_stops _ stops, List.nil_append,
    Pending.flush, Pending.flush, if_neg spelled.1]
  rfl

theorem lex_symbol (outside : nameChar c = false) (blank : c ≠ ' ') (colon : c ≠ ':') :
    lex (c :: text) = .symbol c :: lex text := by
  unfold lex
  rw [lexFrom, if_neg (by simp [outside]), if_neg blank, if_neg colon]
  rfl

end Lex

/-! ## Statements -/

/-- A column that is compared with a parameter, or set to it. -/
structure Equation where
  column : List Char
  param : List Char
deriving DecidableEq, Repr

inductive Condition where
  | one
  | equals (e : Equation)
deriving DecidableEq, Repr

inductive Statement where
  | select (table : List Char) (conditions : List Condition)
  | delete (table : List Char) (conditions : List Condition)
  | insert (table : List Char) (columns values : List (List Char))
  | update (table : List Char) (assignments : List Equation) (conditions : List Condition)
deriving DecidableEq, Repr

def Equation.text (e : Equation) : List Char := e.column ++ '=' :: ':' :: e.param

def Condition.text : Condition → List Char
  | .one => "1=1".toList
  | .equals e => e.text

def whereText : List Condition → List Char
  | [] => []
  | c :: rest => " where ".toList ++ c.text ++ rest.flatMap fun d => " and ".toList ++ d.text

/-- The texts with a comma between each two. -/
def commas : List (List Char) → List Char
  | [] => []
  | x :: rest => x ++ rest.flatMap fun y => ',' :: y

def render : Statement → List Char
  | .select table conditions => "select * from ".toList ++ table ++ whereText conditions
  | .delete table conditions => "delete from ".toList ++ table ++ whereText conditions
  | .insert table columns values =>
    "insert into ".toList ++ table ++ "(".toList ++ commas columns ++ ") values(".toList ++
      commas (values.map (':' :: ·)) ++ ")".toList
  | .update table assignments conditions =>
    "update ".toList ++ table ++ " set ".toList ++ commas (assignments.map Equation.text) ++
      whereText conditions

def Equation.Spelled (e : Equation) : Prop := Word e.column ∧ Word e.param

def Condition.Spelled : Condition → Prop
  | .one => True
  | .equals e => e.Spelled

/-- The statement can be written down: its words are words, and it lists something. -/
def Statement.Spelled : Statement → Prop
  | .select table conditions => Word table ∧ ∀ c ∈ conditions, c.Spelled
  | .delete table conditions => Word table ∧ ∀ c ∈ conditions, c.Spelled
  | .insert table columns values =>
    Word table ∧ columns ≠ [] ∧ values ≠ [] ∧ (∀ w ∈ columns, Word w) ∧ ∀ p ∈ values, Word p
  | .update table assignments conditions =>
    Word table ∧ assignments ≠ [] ∧ (∀ e ∈ assignments, e.Spelled) ∧ ∀ c ∈ conditions, c.Spelled

/-! ## Parsing -/

section Parse

variable (isName : List Char → Bool)

/-- Conditions up to the end, each after the word `and`. -/
def parseConditions : List Token → Option (List Condition)
  | [] => some []
  | .word a :: .word c :: .symbol e :: .param p :: rest =>
    if a = "and".toList ∧ e = '=' ∧ isName c then
      (parseConditions rest).map (.equals ⟨c, p⟩ :: ·)
    else none
  | .word a :: .word c :: .symbol e :: .word d :: rest =>
    if a = "and".toList ∧ e = '=' ∧ c = ['1'] ∧ d = ['1'] then
      (parseConditions rest).map (.one :: ·)
    else none
  | _ => none

def parseWhere : List Token → Option (List Condition)
  | [] => some []
  | .word w :: rest =>
    if w = "where".toList then parseConditions isName (.word "and".toList :: rest) else none
  | _ => none

/-- Assignments, each after a comma, and the tokens that follow them. -/
def parseAssignments : List Token → Option (List Equation × List Token)
  | .symbol s :: .word c :: .symbol e :: .param p :: rest =>
    if s = ',' ∧ e = '=' ∧ isName c then
      (parseAssignments rest).map fun out => (⟨c, p⟩ :: out.1, out.2)
    else none
  | rest => some ([], rest)

/-- Names, each after a comma. -/
def parseNames : List Token → Option (List (List Char) × List Token)
  | .symbol s :: .word w :: rest =>
    if s = ',' then
      if isName w then (parseNames rest).map fun out => (w :: out.1, out.2) else none
    else some ([], .symbol s :: .word w :: rest)
  | rest => some ([], rest)

/-- Parameters, each after a comma. -/
def parseParams : List Token → List (List Char) × List Token
  | .symbol s :: .param p :: rest =>
    if s = ',' then (p :: (parseParams rest).1, (parseParams rest).2)
    else ([], .symbol s :: .param p :: rest)
  | rest => ([], rest)

/-- A table and its conditions, after the word `from`. -/
def parseFrom (make : List Char → List Condition → Statement) : List Token → Option Statement
  | .word f :: .word table :: rest =>
    if f = "from".toList ∧ isName table then (parseWhere isName rest).map (make table) else none
  | _ => none

def parseSelect : List Token → Option Statement
  | .symbol s :: rest => if s = '*' then parseFrom isName .select rest else none
  | _ => none

def parseValues (table : List Char) (columns : List (List Char)) : List Token → Option Statement
  | .symbol c :: .word v :: .symbol o :: rest =>
    if c = ')' ∧ v = "values".toList ∧ o = '(' ∧ columns ≠ [] then
      match parseParams (.symbol ',' :: rest) with
      | (p :: values, [.symbol d]) =>
        if d = ')' then some (.insert table columns (p :: values)) else none
      | _ => none
    else none
  | _ => none

def parseInsert : List Token → Option Statement
  | .word i :: .word table :: .symbol o :: rest =>
    if i = "into".toList ∧ isName table ∧ o = '(' then
      (parseNames isName (.symbol ',' :: rest)).bind fun out => parseValues table out.1 out.2
    else none
  | _ => none

def parseUpdate : List Token → Option Statement
  | .word table :: .word s :: rest =>
    if isName table ∧ s = "set".toList then
      (parseAssignments isName (.symbol ',' :: rest)).bind fun out =>
        (parseWhere isName out.2).map (.update table out.1)
    else none
  | _ => none

def parseStatement : List Token → Option Statement
  | .word k :: rest =>
    if k = "select".toList then parseSelect isName rest
    else if k = "delete".toList then parseFrom isName .delete rest
    else if k = "insert".toList then parseInsert isName rest
    else if k = "update".toList then parseUpdate isName rest
    else none
  | _ => none

def parse (text : List Char) : Option Statement := parseStatement isName (lex text)

end Parse

/-! ## What is written is read -/

def Equation.tokens (e : Equation) : List Token :=
  [.word e.column, .symbol '=', .param e.param]

def Condition.tokens : Condition → List Token
  | .one => [.word ['1'], .symbol '=', .word ['1']]
  | .equals e => e.tokens

def andTokens (conditions : List Condition) : List Token :=
  conditions.flatMap fun c => .word "and".toList :: c.tokens

def whereTokens : List Condition → List Token
  | [] => []
  | c :: others => .word "where".toList :: (c.tokens ++ andTokens others)

def commaTokens : List (List Token) → List Token
  | [] => []
  | x :: others => x ++ others.flatMap fun y => .symbol ',' :: y

def Statement.tokens : Statement → List Token
  | .select table conditions =>
    .word "select".toList :: .symbol '*' :: .word "from".toList :: .word table ::
      whereTokens conditions
  | .delete table conditions =>
    .word "delete".toList :: .word "from".toList :: .word table :: whereTokens conditions
  | .insert table columns values =>
    .word "insert".toList :: .word "into".toList :: .word table :: .symbol '(' ::
      (commaTokens (columns.map ([.word ·])) ++ .symbol ')' :: .word "values".toList ::
        .symbol '(' :: (commaTokens (values.map ([.param ·])) ++ [.symbol ')']))
  | .update table assignments conditions =>
    .word "update".toList :: .word table :: .word "set".toList ::
      (commaTokens (assignments.map Equation.tokens) ++ whereTokens conditions)

section Written

variable {text rest : List Char}

theorem Equation.lex_text {e : Equation} (spelled : e.Spelled) (stops : Stops rest) :
    lex (e.text ++ rest) = e.tokens ++ lex rest := by
  unfold Equation.text
  rw [List.append_assoc, List.cons_append, lex_word spelled.1 (stops_cons (by decide)),
    lex_symbol (by decide) (by decide) (by decide), lex_param spelled.2 stops]
  rfl

theorem Condition.lex_text {c : Condition} (spelled : c.Spelled) (stops : Stops rest) :
    lex (c.text ++ rest) = c.tokens ++ lex rest := by
  cases c with
  | one =>
    change lex (['1'] ++ '=' :: (['1'] ++ rest)) = _
    rw [lex_word (by decide) (stops_cons (by decide)),
      lex_symbol (by decide) (by decide) (by decide), lex_word (by decide) stops]
    rfl
  | equals e => exact Equation.lex_text spelled stops

theorem stops_andText (conditions : List Condition) :
    Stops (conditions.flatMap fun d => " and ".toList ++ d.text) := by
  cases conditions with
  | nil => exact stops_nil
  | cons c others => exact stops_cons (by decide)

theorem lex_andText {conditions : List Condition} (spelled : ∀ c ∈ conditions, c.Spelled) :
    lex (conditions.flatMap fun d => " and ".toList ++ d.text) = andTokens conditions := by
  induction conditions with
  | nil => rfl
  | cons c others ih =>
    have read : ∀ text, lex (" and ".toList ++ text) = .word "and".toList :: lex text :=
      fun _ => rfl
    rw [List.flatMap_cons, List.append_assoc, read,
      Condition.lex_text (spelled c List.mem_cons_self) (stops_andText others),
      ih fun d member => spelled d (List.mem_cons_of_mem c member)]
    rfl

theorem stops_whereText (conditions : List Condition) : Stops (whereText conditions) := by
  cases conditions with
  | nil => exact stops_nil
  | cons c others => exact stops_cons (by decide)

theorem lex_whereText {conditions : List Condition} (spelled : ∀ c ∈ conditions, c.Spelled) :
    lex (whereText conditions) = whereTokens conditions := by
  cases conditions with
  | nil => rfl
  | cons c others =>
    have read : ∀ text, lex (" where ".toList ++ text) = .word "where".toList :: lex text :=
      fun _ => rfl
    refine (congrArg lex (List.append_assoc _ _ _)).trans ((read _).trans ?_)
    rw [Condition.lex_text (spelled c List.mem_cons_self) (stops_andText others),
      lex_andText fun d member => spelled d (List.mem_cons_of_mem c member)]
    rfl

/-- Items that are read as their tokens, each after a comma. -/
theorem lex_flatMap_comma {β : Type} {f : β → List Char} {g : β → List Token} {items : List β}
    (read : ∀ x ∈ items, ∀ rest, Stops rest → lex (f x ++ rest) = g x ++ lex rest)
    (stops : Stops rest) :
    lex ((items.flatMap fun x => ',' :: f x) ++ rest) =
        (items.flatMap fun x => .symbol ',' :: g x) ++ lex rest ∧
      Stops ((items.flatMap fun x => ',' :: f x) ++ rest) := by
  induction items with
  | nil => exact ⟨rfl, stops⟩
  | cons x others ih =>
    obtain ⟨rest_, stops_⟩ := ih fun y member => read y (List.mem_cons_of_mem x member)
    have symbol : ∀ text, lex (',' :: text) = .symbol ',' :: lex text := fun _ => rfl
    refine ⟨?_, stops_cons (by decide)⟩
    rw [List.flatMap_cons, List.flatMap_cons, List.append_assoc, List.append_assoc, ← rest_,
      List.cons_append, symbol, read x List.mem_cons_self _ stops_]
    rfl

theorem lex_commas {β : Type} {f : β → List Char} {g : β → List Token} {items : List β}
    (read : ∀ x ∈ items, ∀ rest, Stops rest → lex (f x ++ rest) = g x ++ lex rest)
    (stops : Stops rest) :
    lex (commas (items.map f) ++ rest) = commaTokens (items.map g) ++ lex rest := by
  cases items with
  | nil => rfl
  | cons x others =>
    obtain ⟨rest_, stops_⟩ := lex_flatMap_comma
      (fun y member => read y (List.mem_cons_of_mem x member)) stops
    rw [List.map_cons, List.map_cons, commas, commaTokens, List.flatMap_map, List.flatMap_map,
      List.append_assoc, List.append_assoc, ← rest_, read x List.mem_cons_self _ stops_]

theorem lex_words {columns : List (List Char)} (spelled : ∀ w ∈ columns, Word w)
    (stops : Stops rest) :
    lex (commas columns ++ rest) = commaTokens (columns.map ([.word ·])) ++ lex rest := by
  have read := @lex_commas rest _ id (fun w => [Token.word w]) columns
    (fun w member _ => lex_word (spelled w member)) stops
  rwa [List.map_id] at read

theorem lex_params {values : List (List Char)} (spelled : ∀ p ∈ values, Word p)
    (stops : Stops rest) :
    lex (commas (values.map (':' :: ·)) ++ rest) =
      commaTokens (values.map ([.param ·])) ++ lex rest :=
  lex_commas (fun p member _ => lex_param (spelled p member)) stops

theorem lex_assignments {assignments : List Equation} (spelled : ∀ e ∈ assignments, e.Spelled)
    (stops : Stops rest) :
    lex (commas (assignments.map Equation.text) ++ rest) =
      commaTokens (assignments.map Equation.tokens) ++ lex rest :=
  lex_commas (fun e member _ => Equation.lex_text (spelled e member)) stops

/-- **What is written is read, token by token.** -/
theorem lex_render {statement : Statement} (spelled : statement.Spelled) :
    lex (render statement) = statement.tokens := by
  cases statement with
  | select table conditions =>
    have read : ∀ text, lex ("select * from ".toList ++ text) =
        .word "select".toList :: .symbol '*' :: .word "from".toList :: lex text := fun _ => rfl
    refine (congrArg lex (List.append_assoc _ _ _)).trans ((read _).trans ?_)
    rw [lex_word spelled.1 (stops_whereText conditions),
      lex_whereText spelled.2]
    rfl
  | delete table conditions =>
    have read : ∀ text, lex ("delete from ".toList ++ text) =
        .word "delete".toList :: .word "from".toList :: lex text := fun _ => rfl
    refine (congrArg lex (List.append_assoc _ _ _)).trans ((read _).trans ?_)
    rw [lex_word spelled.1 (stops_whereText conditions),
      lex_whereText spelled.2]
    rfl
  | insert table columns values =>
    obtain ⟨spelledTable, -, -, spelledColumns, spelledValues⟩ := spelled
    have into : ∀ text, lex ("insert into ".toList ++ text) =
        .word "insert".toList :: .word "into".toList :: lex text := fun _ => rfl
    have opening : ∀ text, lex ("(".toList ++ text) = .symbol '(' :: lex text := fun _ => rfl
    have middle : ∀ text, lex (") values(".toList ++ text) =
        .symbol ')' :: .word "values".toList :: .symbol '(' :: lex text := fun _ => rfl
    have stopsOpening : ∀ text, Stops ("(".toList ++ text) := fun _ => stops_cons (by decide)
    have stopsMiddle : ∀ text, Stops (") values(".toList ++ text) :=
      fun _ => stops_cons (by decide)
    change lex ("insert into ".toList ++ table ++ "(".toList ++ commas columns ++
      ") values(".toList ++ commas (values.map (':' :: ·)) ++ ")".toList) = _
    simp only [List.append_assoc]
    rw [into, lex_word spelledTable (stopsOpening _), opening,
      lex_words spelledColumns (stopsMiddle _), middle,
      lex_params spelledValues (by decide : Stops ")".toList)]
    rfl
  | update table assignments conditions =>
    obtain ⟨spelledTable, -, spelledAssignments, spelledConditions⟩ := spelled
    have update : ∀ text, lex ("update ".toList ++ text) = .word "update".toList :: lex text :=
      fun _ => rfl
    have set : ∀ text, lex (" set ".toList ++ text) = .word "set".toList :: lex text :=
      fun _ => rfl
    have stopsSet : ∀ text, Stops (" set ".toList ++ text) := fun _ => stops_cons (by decide)
    change lex ("update ".toList ++ table ++ " set ".toList ++
      commas (assignments.map Equation.text) ++ whereText conditions) = _
    simp only [List.append_assoc]
    rw [update, lex_word spelledTable (stopsSet _), set,
      lex_assignments spelledAssignments (stops_whereText conditions),
      lex_whereText spelledConditions]
    rfl

end Written

section Parsed

variable {isName : List Char → Bool}

def Condition.named (isName : List Char → Bool) : Condition → Bool
  | .one => true
  | .equals e => isName e.column

/-- Tables and columns are names of the dialect. -/
def Statement.named (isName : List Char → Bool) : Statement → Bool
  | .select table conditions => isName table && conditions.all (Condition.named isName)
  | .delete table conditions => isName table && conditions.all (Condition.named isName)
  | .insert table columns _ => isName table && columns.all isName
  | .update table assignments conditions =>
    isName table && assignments.all (fun e => isName e.column) &&
      conditions.all (Condition.named isName)

theorem parseConditions_andTokens (conditions : List Condition) :
    parseConditions isName (andTokens conditions) =
      if conditions.all (Condition.named isName) then some conditions else none := by
  induction conditions with
  | nil => rfl
  | cons c others ih =>
    cases c with
    | one =>
      change parseConditions isName (.word "and".toList :: .word ['1'] :: .symbol '=' ::
        .word ['1'] :: andTokens others) = _
      rw [parseConditions, if_pos ⟨rfl, rfl, rfl, rfl⟩, ih, List.all_cons, Condition.named,
        Bool.true_and]
      split <;> rfl
    | equals e =>
      change parseConditions isName (.word "and".toList :: .word e.column :: .symbol '=' ::
        .param e.param :: andTokens others) = _
      rw [parseConditions, ih, List.all_cons, Condition.named]
      cases isName e.column with
      | true =>
        rw [if_pos ⟨rfl, rfl, rfl⟩, Bool.true_and]
        split <;> rfl
      | false => rfl

theorem parseWhere_whereTokens (conditions : List Condition) :
    parseWhere isName (whereTokens conditions) =
      if conditions.all (Condition.named isName) then some conditions else none := by
  cases conditions with
  | nil => rfl
  | cons c others =>
    rw [whereTokens, parseWhere, if_pos rfl]
    exact parseConditions_andTokens (c :: others)

theorem cons_commaTokens {items : List (List Token)} (nonempty : items ≠ []) :
    .symbol ',' :: commaTokens items = items.flatMap (.symbol ',' :: ·) := by
  obtain ⟨x, others, rfl⟩ := List.exists_cons_of_ne_nil nonempty
  rfl

theorem parseNames_commas (columns : List (List Char)) {rest : List Token}
    (ends : parseNames isName rest = some ([], rest)) :
    parseNames isName ((columns.flatMap fun w => [.symbol ',', .word w]) ++ rest) =
      if columns.all isName then some (columns, rest) else none := by
  induction columns with
  | nil => exact ends
  | cons w others ih =>
    rw [List.flatMap_cons, List.append_assoc, List.cons_append, List.singleton_append, parseNames,
      if_pos rfl, ih, List.all_cons]
    cases isName w with
    | true =>
      rw [if_pos rfl, Bool.true_and]
      split <;> rfl
    | false => rfl

theorem parseParams_commas (values : List (List Char)) :
    parseParams ((values.flatMap fun p => [.symbol ',', .param p]) ++ [.symbol ')']) =
      (values, [.symbol ')']) := by
  induction values with
  | nil => rfl
  | cons p others ih =>
    rw [List.flatMap_cons, List.append_assoc, List.cons_append, List.singleton_append,
      parseParams, if_pos rfl, ih]

theorem parseAssignments_commas (assignments : List Equation) {rest : List Token}
    (ends : parseAssignments isName rest = some ([], rest)) :
    parseAssignments isName ((assignments.flatMap fun e => .symbol ',' :: e.tokens) ++ rest) =
      if assignments.all (fun e => isName e.column) then some (assignments, rest) else none := by
  induction assignments with
  | nil => exact ends
  | cons e others ih =>
    change parseAssignments isName (.symbol ',' :: .word e.column :: .symbol '=' ::
      .param e.param :: ((others.flatMap fun e => .symbol ',' :: e.tokens) ++ rest)) = _
    rw [parseAssignments, ih, List.all_cons]
    cases isName e.column with
    | true =>
      rw [if_pos ⟨rfl, rfl, rfl⟩, Bool.true_and]
      split <;> rfl
    | false => rfl

theorem parseFrom_tokens (make : List Char → List Condition → Statement) (table : List Char)
    (conditions : List Condition) :
    parseFrom isName make (.word "from".toList :: .word table :: whereTokens conditions) =
      if isName table && conditions.all (Condition.named isName) then some (make table conditions)
      else none := by
  change (if "from".toList = "from".toList ∧ isName table = true then
    (parseWhere isName (whereTokens conditions)).map (make table) else none) = _
  rw [parseWhere_whereTokens]
  cases isName table with
  | true =>
    rw [if_pos ⟨rfl, rfl⟩, Bool.true_and]
    split <;> rfl
  | false => rfl

theorem parseValues_tokens {columns values : List (List Char)} (table : List Char)
    (someColumn : columns ≠ []) (someValue : values ≠ []) :
    parseValues table columns (.symbol ')' :: .word "values".toList :: .symbol '(' ::
        (commaTokens (values.map ([.param ·])) ++ [.symbol ')'])) =
      some (.insert table columns values) := by
  have params : .symbol ',' :: commaTokens (values.map ([.param ·])) =
      values.flatMap fun p => [.symbol ',', .param p] := by
    rw [cons_commaTokens (by simpa using someValue), List.flatMap_map]
  have read := parseParams_commas values
  rw [← params] at read
  obtain ⟨p, others, rfl⟩ := List.exists_cons_of_ne_nil someValue
  refine (if_pos ⟨rfl, rfl, rfl, someColumn⟩).trans ?_
  rw [← List.cons_append, read]
  rfl

theorem parseInsert_tokens {columns values : List (List Char)} (table : List Char)
    (someColumn : columns ≠ []) (someValue : values ≠ []) :
    parseInsert isName (.word "into".toList :: .word table :: .symbol '(' ::
        (commaTokens (columns.map ([.word ·])) ++ .symbol ')' :: .word "values".toList ::
          .symbol '(' :: (commaTokens (values.map ([.param ·])) ++ [.symbol ')']))) =
      if isName table && columns.all isName then some (.insert table columns values) else none := by
  have names : .symbol ',' :: commaTokens (columns.map ([.word ·])) =
      columns.flatMap fun w => [.symbol ',', .word w] := by
    rw [cons_commaTokens (by simpa using someColumn), List.flatMap_map]
  change (if "into".toList = "into".toList ∧ isName table = true ∧ '(' = '(' then
    (parseNames isName (.symbol ',' :: (commaTokens (columns.map ([.word ·])) ++ _))).bind
      fun out => parseValues table out.1 out.2 else none) = _
  rw [← List.cons_append, names, parseNames_commas columns rfl]
  cases isName table with
  | true =>
    rw [if_pos ⟨rfl, rfl, rfl⟩, Bool.true_and]
    split
    · exact parseValues_tokens table someColumn someValue
    · rfl
  | false => rfl

theorem parseUpdate_tokens {assignments : List Equation} (table : List Char)
    (someAssignment : assignments ≠ []) (conditions : List Condition) :
    parseUpdate isName (.word table :: .word "set".toList ::
        (commaTokens (assignments.map Equation.tokens) ++ whereTokens conditions)) =
      if isName table && assignments.all (fun e => isName e.column) &&
          conditions.all (Condition.named isName) then
        some (.update table assignments conditions)
      else none := by
  have equations : .symbol ',' :: commaTokens (assignments.map Equation.tokens) =
      assignments.flatMap fun e => .symbol ',' :: e.tokens := by
    rw [cons_commaTokens (by simpa using someAssignment), List.flatMap_map]
  have ends : parseAssignments isName (whereTokens conditions) = some ([], whereTokens conditions) := by
    cases conditions with
    | nil => rfl
    | cons c others => rfl
  change (if isName table = true ∧ "set".toList = "set".toList then
    (parseAssignments isName (.symbol ',' :: (commaTokens (assignments.map Equation.tokens) ++
      whereTokens conditions))).bind
        fun out => (parseWhere isName out.2).map (Statement.update table out.1) else none) = _
  rw [← List.cons_append, equations, parseAssignments_commas assignments ends]
  cases isName table with
  | true =>
    rw [if_pos ⟨rfl, rfl⟩, Bool.true_and]
    split
    · rename_i allNamed
      rw [allNamed, Bool.true_and, Option.bind_some, parseWhere_whereTokens]
      split <;> rfl
    · rename_i unnamed
      rw [Bool.eq_false_iff.mpr unnamed, Bool.false_and]
      rfl
  | false => rfl

/-- **What is written parses as itself, or not at all if a name is not one of the dialect.** -/
theorem parse_render {statement : Statement} (spelled : statement.Spelled) :
    parse isName (render statement) =
      if statement.named isName then some statement else none := by
  unfold parse
  rw [lex_render spelled]
  cases statement with
  | select table conditions => exact parseFrom_tokens .select table conditions
  | delete table conditions => exact parseFrom_tokens .delete table conditions
  | insert table columns values => exact parseInsert_tokens table spelled.2.1 spelled.2.2.1
  | update table assignments conditions =>
    exact parseUpdate_tokens table spelled.2.1 conditions

end Parsed

/-! ## Parameters -/

def Condition.params : Condition → List (List Char)
  | .one => []
  | .equals e => [e.param]

def Statement.params : Statement → List (List Char)
  | .select _ conditions => conditions.flatMap Condition.params
  | .delete _ conditions => conditions.flatMap Condition.params
  | .insert _ _ values => values
  | .update _ assignments conditions =>
    assignments.map Equation.param ++ conditions.flatMap Condition.params

theorem Condition.params_tokens (c : Condition) : c.tokens.filterMap Token.param? = c.params := by
  cases c with
  | one => rfl
  | equals e => rfl

theorem params_whereTokens (conditions : List Condition) :
    (whereTokens conditions).filterMap Token.param? = conditions.flatMap Condition.params := by
  cases conditions with
  | nil => rfl
  | cons c others =>
    change (c.tokens ++ andTokens others).filterMap Token.param? = _
    rw [List.filterMap_append, Condition.params_tokens, andTokens, List.filterMap_flatMap,
      List.flatMap_cons]
    exact congrArg _ (congrArg (others.flatMap ·) (funext Condition.params_tokens))

theorem params_commaTokens (items : List (List Token)) :
    (commaTokens items).filterMap Token.param? = items.flatMap (List.filterMap Token.param?) := by
  cases items with
  | nil => rfl
  | cons x others =>
    rw [commaTokens, List.filterMap_append, List.filterMap_flatMap, List.flatMap_cons]
    rfl

theorem params_words (columns : List (List Char)) :
    (commaTokens (columns.map ([.word ·]))).filterMap Token.param? = [] := by
  rw [params_commaTokens, List.flatMap_map, List.flatMap_eq_nil_iff]
  exact fun _ _ => rfl

theorem params_params (values : List (List Char)) :
    (commaTokens (values.map ([.param ·]))).filterMap Token.param? = values := by
  rw [params_commaTokens, List.flatMap_map]
  exact List.flatMap_singleton' values

theorem params_assignments (assignments : List Equation) :
    (commaTokens (assignments.map Equation.tokens)).filterMap Token.param? =
      assignments.map Equation.param := by
  rw [params_commaTokens, List.flatMap_map]
  exact (List.map_eq_flatMap).symm

/-- **The parameters a written statement names are its parameters.** -/
theorem placeholders_render {statement : Statement} (spelled : statement.Spelled) :
    placeholders (render statement) = statement.params := by
  unfold placeholders
  rw [lex_render spelled]
  cases statement with
  | select table conditions => exact params_whereTokens conditions
  | delete table conditions => exact params_whereTokens conditions
  | insert table columns values =>
    refine (List.filterMap_append (l := commaTokens (columns.map ([.word ·])))).trans ?_
    rw [params_words, List.nil_append]
    refine (List.filterMap_append (l := commaTokens (values.map ([.param ·])))).trans ?_
    rw [params_params]
    exact List.append_nil values
  | update table assignments conditions =>
    refine (List.filterMap_append (l := commaTokens (assignments.map Equation.tokens))).trans ?_
    rw [params_assignments, params_whereTokens]
    rfl

/-! ## Meaning -/

section Meaning

variable {V : Type} [DecidableEq V] (column param : List Char → Option V)

/-- A condition on a row with the given columns. A column that is null equals no parameter. -/
def Condition.holds : Condition → Bool
  | .one => true
  | .equals e => (column e.column).isSome && column e.column == param e.param

def Statement.conditions : Statement → List Condition
  | .select _ conditions => conditions
  | .delete _ conditions => conditions
  | .insert _ _ _ => []
  | .update _ _ conditions => conditions

def Statement.assignments : Statement → List Equation
  | .update _ assignments _ => assignments
  | _ => []

/-- The statement is about the row. -/
def Statement.selects (statement : Statement) : Bool :=
  statement.conditions.all (Condition.holds column param)

/-- What the statement leaves in a column of a row that it is about. -/
def Statement.leaves (statement : Statement) (c : List Char) : Option V :=
  match statement.assignments.find? fun e => e.column == c with
  | some e => param e.param
  | none => column c

variable {column param} {statement : Statement} {c : List Char}

omit [DecidableEq V] in
theorem leaves_assigned {e : Equation}
    (found : statement.assignments.find? (fun e => e.column == c) = some e) :
    statement.leaves column param c = param e.param := by
  unfold Statement.leaves
  rw [found]

omit [DecidableEq V] in
theorem leaves_kept (absent : ∀ e ∈ statement.assignments, e.column ≠ c) :
    statement.leaves column param c = column c := by
  have found : statement.assignments.find? (fun e => e.column == c) = none :=
    List.find?_eq_none.mpr fun e member same => absent e member (eq_of_beq same)
  unfold Statement.leaves
  rw [found]

end Meaning

end Clb.Lib.Sql
