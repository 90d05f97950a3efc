/-
# Dao.SqlReader -- reading the initial data

`SQLReader.next` returns the commands of a script one after the other, and `InitListener` calls it
until it returns null. A `Script` is what such a file is meant to be: commands that are ended by the
current delimiter at the end of a line, with comments, `DELIMITER` lines and blank lines between
them.

All of the calls together are one pass over the lines (`settles_initOriginalData`). It executes the
commands of a script up to the first blank one (`reads_script`), unless a line of a command is taken
for a comment or a `DELIMITER` line; such a line is in no statement that is executed
(`reads_unmarked`). -/
import Clb.Lib.Fuel
import Clb.Lib.Lines
import Clb.Dao.Query

set_option autoImplicit false

namespace Clb.Dao

open Clb.Lib

/-- What `readLine` returns. -/
abbrev Line := {line : Text // '\n' ∉ line}

/-- The exception, with its message. -/
structure WrongSQL where
  message : Text
deriving DecidableEq, Repr

/-- The lines that are left to read, or `none` if the reader is closed. -/
structure SQLReader where
  reader : Option (List Line)
  delimeter : Text

namespace SQLReader

/-! ## The reader -/

def isComment (line : Text) : Bool := "/*".toList.isPrefixOf line

def isDelimiter (line : Text) : Bool := "delimiter".toList.isPrefixOf (line.map Char.toLower)

def parseDelimiter (line : Text) : Text := trim (line.drop "delimiter".length)

def changeDelimiter (line : Text) : Except WrongSQL Text :=
  let delimeter := parseDelimiter line
  if delimeter = [] then .error ⟨"delimiter is empty:".toList ++ line⟩ else .ok delimeter

/-- `StringUtils.trimToNull`. -/
def trimToNull (t : Text) : Option Text := if trim t = [] then none else some (trim t)

/-- The line without the delimiter at its end. -/
def cut (delimeter line : Text) : Text := line.take (line.length - delimeter.length)

/-- The loop of `next`. -/
def loop (delimeter buffer : Text) : List Line → Except WrongSQL (Option Text × SQLReader)
  | [] => .ok (trimToNull buffer, ⟨none, delimeter⟩)
  | line :: rest =>
    let line := trim line.1
    if isDelimiter line then
      match changeDelimiter line with
      | .error wrong => .error wrong
      | .ok delimeter => loop delimeter buffer rest
    else if isComment line then loop delimeter buffer rest
    else if delimeter <:+ line then
      .ok (trimToNull (buffer ++ (cut delimeter line ++ ['\n'])), ⟨some rest, delimeter⟩)
    else loop delimeter (buffer ++ (line ++ ['\n'])) rest

def next (r : SQLReader) : Except WrongSQL (Option Text × SQLReader) :=
  match r.reader with
  | some lines => loop r.delimeter [] lines
  | none => .ok (none, r)

/-- The loop of `InitListener.initOriginalData`: the statements that it executes. -/
def initOriginalData (r : SQLReader) : Nat → ExceptT WrongSQL Option (List Text)
  | 0 => none
  | fuel + 1 =>
    match r.next with
    | .error wrong => throw wrong
    | .ok (none, _) => pure []
    | .ok (some sql, r) => do
        let rest ← initOriginalData r fuel
        pure (sql :: rest)

/-! ## One pass -/

/-- The statements that are executed, from the lines that are left and the buffer of `next`. -/
def reads (delimeter buffer : Text) : List Line → Except WrongSQL (List Text)
  | [] => .ok (trimToNull buffer).toList
  | line :: rest =>
    let line := trim line.1
    if isDelimiter line then
      match changeDelimiter line with
      | .error wrong => .error wrong
      | .ok delimeter => reads delimeter buffer rest
    else if isComment line then reads delimeter buffer rest
    else if delimeter <:+ line then
      match trimToNull (buffer ++ (cut delimeter line ++ ['\n'])) with
      | none => .ok []
      | some sql => (sql :: ·) <$> reads delimeter [] rest
    else reads delimeter (buffer ++ (line ++ ['\n'])) rest

/-- What `initOriginalData` does with an answer of `next`. -/
def answered : Except WrongSQL (Option Text × SQLReader) → Nat → ExceptT WrongSQL Option (List Text)
  | .error wrong, _ => throw wrong
  | .ok (none, _), _ => pure []
  | .ok (some sql, r), fuel => do
      let rest ← initOriginalData r fuel
      pure (sql :: rest)

theorem initOriginalData_succ (r : SQLReader) (fuel : Nat) :
    initOriginalData r (fuel + 1) = answered r.next fuel := by
  rw [initOriginalData]
  rcases r.next with wrong | ⟨_ | sql, r⟩ <;> rfl

theorem steady_initOriginalData (r : SQLReader) : Fuel.Steady r.initOriginalData := by
  intro fuel
  induction fuel generalizing r with
  | zero =>
    intro result ended
    cases ended
  | succ fuel ih =>
    rw [initOriginalData_succ, initOriginalData_succ]
    rcases r.next with wrong | ⟨_ | sql, r⟩
    · exact .refl
    · exact .refl
    · exact (ih r).bind fun rest => .refl

theorem answered_loop (lines : List Line) (delimeter buffer : Text) :
    ∃ fuel, (answered (loop delimeter buffer lines) fuel).run = some (reads delimeter buffer lines) := by
  induction lines generalizing delimeter buffer with
  | nil =>
    refine ⟨1, ?_⟩
    rw [loop, reads]
    cases trimToNull buffer with
    | none => rfl
    | some sql => rfl
  | cons line rest ih =>
    unfold loop reads
    simp only
    split
    · split
      · exact ⟨0, rfl⟩
      · exact ih _ _
    · split
      · exact ih _ _
      · split
        · cases trimToNull (buffer ++ (cut delimeter (trim line.1) ++ ['\n'])) with
          | none => exact ⟨0, rfl⟩
          | some sql =>
            obtain ⟨fuel, ended⟩ := ih delimeter []
            refine ⟨fuel + 1, Fuel.run_bind_eq_some_iff.mpr ?_⟩
            rw [initOriginalData_succ]
            cases found : reads delimeter [] rest with
            | error wrong => exact .inl ⟨wrong, found ▸ ended, rfl⟩
            | ok out => exact .inr ⟨out, found ▸ ended, rfl⟩
        · exact ih _ _

/-- **The calls of `next` up to the first null are one pass over the lines.** -/
theorem settles_initOriginalData {lines : List Line} {delimeter : Text}
    {result : Except WrongSQL (List Text)} :
    Fuel.Settles (initOriginalData ⟨some lines, delimeter⟩) result ↔
      result = reads delimeter [] lines := by
  have settles :
      Fuel.Settles (initOriginalData ⟨some lines, delimeter⟩) (reads delimeter [] lines) := by
    obtain ⟨fuel, ended⟩ := answered_loop lines delimeter []
    exact ⟨fuel + 1, by rw [initOriginalData_succ]; exact ended⟩
  constructor
  · intro other
    exact other.unique (steady_initOriginalData _) settles
  · rintro rfl
    exact settles

/-! ## Scripts -/

/-- The line is not read as a part of a statement. -/
def Special (line : Text) : Prop := isComment line = true ∨ isDelimiter line = true

instance (line : Text) : Decidable (Special line) :=
  inferInstanceAs (Decidable (isComment line = true ∨ isDelimiter line = true))

/-- A command of a script: its lines before the last one, and the last one with its text before the
delimiter. Its first line is not blank, no comment and no `DELIMITER` line. The delimiter alone does
not make one of its last line. -/
structure Command (delimeter : Text) where
  body : List Line
  last : Line
  content : Text
  ended : trim last.1 = content ++ delimeter
  opened : ∀ line ∈ body, ¬delimeter <:+ trim line.1
  visible : ∀ line ∈ body.head?, trim line.1 ≠ []
  first : ∀ line ∈ (body ++ [last]).head?, ¬Special (trim line.1)
  kept : Special (trim last.1) → Special content

/-- The command without its delimiter; blanks around its lines do not count. -/
def Command.text {delimeter : Text} (command : Command delimeter) : Text :=
  trim (joinLines (command.body.map (fun line => trim line.1) ++ [command.content]))

/-- A command on one line. -/
def Command.ofLine {delimeter : Text} (line : Line) (content : Text)
    (ended : trim line.1 = content ++ delimeter) (plain : ¬Special (trim line.1)) :
    Command delimeter where
  body := []
  last := line
  content
  ended
  opened := nofun
  visible := nofun
  first _ member := Option.some.inj member ▸ plain
  kept begins := absurd begins plain

/-- No line of the command is taken for a comment or a `DELIMITER` line. -/
def Command.Plain {delimeter : Text} (command : Command delimeter) : Prop :=
  ∀ line ∈ command.body ++ [command.last], ¬Special (trim line.1)

/-- A script, under the current delimiter. -/
inductive Script : Text → Type
  | done {delimeter : Text} : Script delimeter
  | blank {delimeter : Text} (line : Line) (empty : trim line.1 = []) (rest : Script delimeter) :
      Script delimeter
  | comment {delimeter : Text} (line : Line) (marked : isComment (trim line.1) = true)
      (rest : Script delimeter) : Script delimeter
  | delimiter {delimeter : Text} (line : Line) (marked : isDelimiter (trim line.1) = true)
      (given : parseDelimiter (trim line.1) ≠ []) (rest : Script (parseDelimiter (trim line.1))) :
      Script delimeter
  | command {delimeter : Text} (written : Command delimeter) (rest : Script delimeter) :
      Script delimeter

namespace Script

def lines : {delimeter : Text} → Script delimeter → List Line
  | _, .done => []
  | _, .blank line _ rest => line :: rest.lines
  | _, .comment line _ rest => line :: rest.lines
  | _, .delimiter line _ _ rest => line :: rest.lines
  | _, .command written rest => written.body ++ written.last :: rest.lines

/-- The texts of the commands, in order. -/
def texts : {delimeter : Text} → Script delimeter → List Text
  | _, .done => []
  | _, .blank _ _ rest => rest.texts
  | _, .comment _ _ rest => rest.texts
  | _, .delimiter _ _ _ rest => rest.texts
  | _, .command written rest => written.text :: rest.texts

def Plain : {delimeter : Text} → Script delimeter → Prop
  | _, .done => True
  | _, .blank _ _ rest => rest.Plain
  | _, .comment _ _ rest => rest.Plain
  | _, .delimiter _ _ _ rest => rest.Plain
  | _, .command written rest => written.Plain ∧ rest.Plain

end Script

/-! ## The lines of a script, read -/

variable {delimeter buffer : Text} {line : Line} {lines rest : List Line}

theorem not_special {t : Text} (plain : ¬Special t) : isDelimiter t = false ∧ isComment t = false :=
  ⟨eq_false_of_ne_true fun marked => plain (.inr marked),
    eq_false_of_ne_true fun marked => plain (.inl marked)⟩

theorem not_mem_of_blank {c : Char} (isBlank : blank c = true) :
    c ∉ "/*".toList ∧ c.toLower ∉ "delimiter".toList := by
  have all : ∀ n ≤ 32, Char.ofNat n ∉ "/*".toList ∧ (Char.ofNat n).toLower ∉ "delimiter".toList := by
    decide
  rw [← Char.ofNat_toNat c]
  exact all _ (of_decide_eq_true isBlank)

theorem marker_special : Marker Special := by
  have words :
      Special = fun t => "/*".toList <+: t.map id ∨ "delimiter".toList <+: t.map Char.toLower := by
    funext t
    simp [Special, isComment, isDelimiter]
  rw [words]
  exact .or (marker_word (by decide) fun c isBlank => (not_mem_of_blank isBlank).1)
    (marker_word (by decide) fun c isBlank => (not_mem_of_blank isBlank).2)

theorem reads_continued (plain : ¬Special (trim line.1)) (opened : ¬delimeter <:+ trim line.1) :
    reads delimeter buffer (line :: rest) =
      reads delimeter (buffer ++ (trim line.1 ++ ['\n'])) rest := by
  rw [reads]
  simp [not_special plain, opened]

theorem reads_ended (plain : ¬Special (trim line.1)) {content : Text}
    (ended : trim line.1 = content ++ delimeter) :
    reads delimeter buffer (line :: rest) =
      match trimToNull (buffer ++ (content ++ ['\n'])) with
      | none => .ok []
      | some sql => (sql :: ·) <$> reads delimeter [] rest := by
  rw [reads]
  have suffix : delimeter <:+ trim line.1 := ⟨content, ended.symm⟩
  have kept : cut delimeter (trim line.1) = content := by simp [cut, ended]
  simp [not_special plain, suffix, kept]

theorem reads_comment (marked : isComment (trim line.1) = true) :
    reads delimeter buffer (line :: rest) = reads delimeter buffer rest := by
  have other : isDelimiter (trim line.1) = false := by
    cases found : trim line.1 with
    | nil => rfl
    | cons c t =>
      rw [found] at marked
      obtain ⟨rfl, -⟩ : '/' = c ∧ _ := by simpa [isComment] using marked
      rfl
  rw [reads]
  simp [other, marked]

theorem reads_delimiter (marked : isDelimiter (trim line.1) = true)
    (given : parseDelimiter (trim line.1) ≠ []) :
    reads delimeter buffer (line :: rest) = reads (parseDelimiter (trim line.1)) buffer rest := by
  rw [reads]
  simp [marked, changeDelimiter, given]

theorem reads_body {body : List Line} (plain : ∀ line ∈ body, ¬Special (trim line.1))
    (opened : ∀ line ∈ body, ¬delimeter <:+ trim line.1) :
    reads delimeter buffer (body ++ rest) =
      reads delimeter (buffer ++ joinLines (body.map fun line => trim line.1)) rest := by
  induction body generalizing buffer with
  | nil => simp
  | cons line body ih =>
    have plainBody := fun other member => plain other (List.mem_cons_of_mem line member)
    have openedBody := fun other member => opened other (List.mem_cons_of_mem line member)
    rw [List.cons_append, reads_continued (plain line List.mem_cons_self)
      (opened line List.mem_cons_self), ih plainBody openedBody]
    simp

theorem reads_command (written : Command delimeter) (plain : written.Plain) (blanks : Blanks buffer) :
    reads delimeter buffer (written.body ++ written.last :: rest) =
      if written.text = [] then .ok [] else (written.text :: ·) <$> reads delimeter [] rest := by
  have text : trim (buffer ++ joinLines (written.body.map fun line => trim line.1) ++
      (written.content ++ ['\n'])) = written.text := by
    rw [List.append_assoc, trim_blanks_append blanks]
    simp [Command.text]
  rw [reads_body (fun line member => plain line (List.mem_append_left _ member)) written.opened,
    reads_ended (plain written.last (by simp)) written.ended, trimToNull, text]
  by_cases empty : written.text = []
  · rw [if_pos empty, if_pos empty]
  · rw [if_neg empty, if_neg empty]

/-- **Of a script the commands up to the first blank one are executed.** -/
theorem reads_script (script : Script delimeter) (given : delimeter ≠ []) (plain : script.Plain)
    (blanks : Blanks buffer) :
    reads delimeter buffer script.lines = .ok (script.texts.takeWhile (· ≠ [])) := by
  induction script generalizing buffer with
  | done =>
    rw [Script.lines, reads, trimToNull, if_pos (trim_eq_nil_iff.mpr blanks)]
    rfl
  | @blank delimeter line empty rest ih =>
    have continued : ¬Special (trim line.1) := empty ▸ marker_special.nil
    have opened : ¬delimeter <:+ trim line.1 := by
      rw [empty, List.suffix_nil]
      exact given
    rw [Script.lines, reads_continued continued opened, empty]
    exact ih given plain (blanks.append (by decide))
  | comment line marked rest ih =>
    rw [Script.lines, reads_comment marked]
    exact ih given plain blanks
  | delimiter line marked new rest ih =>
    rw [Script.lines, reads_delimiter marked new]
    exact ih new plain blanks
  | command written rest ih =>
    rw [Script.lines, reads_command written plain.1 blanks, ih given plain.2 (by decide), Script.texts]
    by_cases empty : written.text = []
    · simp [empty]
    · simp [empty]

/-! ## Lines that are taken for something else -/

/-- Reading one line: it is left out, or it goes on with a statement, or it ends one. -/
theorem reads_cons_cases {out : List Text} (executed : reads delimeter buffer (line :: rest) = .ok out) :
    (∃ new, reads new buffer rest = .ok out) ∨ ¬Special (trim line.1) ∧
      (reads delimeter (buffer ++ (trim line.1 ++ ['\n'])) rest = .ok out ∨
        ∃ content, content <+: trim line.1 ∧ ∀ sql ∈ out,
          sql ∈ trimToNull (buffer ++ (content ++ ['\n'])) ∨
            ∃ later, reads delimeter [] rest = .ok later ∧ sql ∈ later) := by
  unfold reads at executed
  simp only at executed
  split at executed
  · split at executed
    · cases executed
    · exact .inl ⟨_, executed⟩
  · rename_i notDelimiter
    split at executed
    · exact .inl ⟨_, executed⟩
    · rename_i notComment
      refine .inr ⟨fun begins => begins.elim notComment notDelimiter, ?_⟩
      split at executed
      · refine .inr ⟨cut delimeter (trim line.1), List.take_prefix _ _, ?_⟩
        split at executed
        · cases executed
          exact nofun
        · rename_i sql found
          cases ended : reads delimeter [] rest with
          | error wrong =>
            rw [ended] at executed
            cases executed
          | ok later =>
            rw [ended] at executed
            cases executed
            intro sql' member
            rcases List.mem_cons.mp member with rfl | member
            · exact .inl found
            · exact .inr ⟨later, rfl, member⟩
      · exact .inl executed

/-- A line that may be joined to others. -/
def Joinable (l : Text) : Prop := '\n' ∉ l ∧ ¬Special l

theorem not_marked_trimToNull {before : List Text} (plain : ∀ l ∈ before, Joinable l) :
    ∀ sql ∈ trimToNull (joinLines before), ¬Marked Special sql := by
  intro sql member
  unfold trimToNull at member
  split at member
  · cases member
  · obtain rfl := Option.some.inj member
    exact not_marked_trim marker_special (not_marked_joinLines marker_special plain)

/-- No statement that is executed has a line that looks like a comment or a `DELIMITER` line, apart
from its first. -/
theorem reads_unmarked {before out : List Text} (plain : ∀ l ∈ before, Joinable l)
    (executed : reads delimeter (joinLines before) lines = .ok out) :
    ∀ sql ∈ out, ¬Marked Special sql := by
  induction lines generalizing delimeter before out with
  | nil =>
    cases executed
    intro sql member
    exact not_marked_trimToNull plain sql (Option.mem_toList.mp member)
  | cons line rest ih =>
    have single : '\n' ∉ trim line.1 := fun member => line.2 (mem_of_mem_trim member)
    have snoc : ∀ l, Joinable l → ∀ l' ∈ before ++ [l], Joinable l' := by
      intro l joinable l' member
      rcases List.mem_append.mp member with earlier | same
      · exact plain l' earlier
      · exact List.mem_singleton.mp same ▸ joinable
    rcases reads_cons_cases executed with ⟨new, ended⟩ | ⟨notSpecial, ended | ⟨content, inside, each⟩⟩
    · exact ih plain ended
    · refine @ih delimeter _ _ (snoc _ ⟨single, notSpecial⟩) ?_
      simpa using ended
    · intro sql member
      rcases each sql member with found | ⟨later, ended, member⟩
      · have joinable : Joinable content := by
          obtain ⟨suffix, whole⟩ := inside
          refine ⟨fun member => single (whole ▸ List.mem_append_left _ member), fun begins => ?_⟩
          exact notSpecial (whole ▸ marker_special.append begins)
        refine not_marked_trimToNull (snoc content joinable) sql ?_
        simpa using found
      · exact @ih delimeter [] later nofun ended sql member

/-- A command with a line that is taken for something else has that line in its text. -/
theorem Command.marked_text (written : Command delimeter) (taken : ¬written.Plain) :
    Marked Special written.text := by
  obtain ⟨body, last, content, ended, opened, visible, first, kept⟩ := written
  simp only [Command.Plain, not_forall, not_not] at taken
  obtain ⟨line, member, begins⟩ := taken
  cases body with
  | nil =>
    rw [List.nil_append, List.mem_singleton] at member
    exact absurd begins (member ▸ first last rfl)
  | cons head body =>
    have later : line ∈ body ++ [last] := by
      rcases List.mem_cons.mp member with rfl | later
      · exact absurd begins (first line rfl)
      · exact later
    have inText : ∃ l ∈ body.map (fun line => trim line.1) ++ [content], Special l := by
      rcases List.mem_append.mp later with inBody | same
      · exact ⟨_, List.mem_append_left _ (List.mem_map_of_mem inBody), begins⟩
      · rw [List.mem_singleton.mp same] at begins
        exact ⟨content, by simp, kept begins⟩
    obtain ⟨l, inside, begins⟩ := inText
    obtain ⟨pre, post, split⟩ := List.append_of_mem inside
    have shown : ¬Blanks (trim head.1) := not_blanks_trim (visible head rfl)
    rw [Command.text, List.map_cons, List.cons_append, split, ← List.cons_append]
    exact marked_trim_joinLines marker_special ⟨_, List.mem_cons_self, shown⟩ begins

/-- If the texts of the commands are executed then no line was taken for something else. -/
theorem Script.plain_of_unmarked (script : Script delimeter)
    (unmarked : ∀ t ∈ script.texts, t ≠ [] → ¬Marked Special t) : script.Plain := by
  induction script with
  | done => trivial
  | blank _ _ _ ih => exact ih unmarked
  | comment _ _ _ ih => exact ih unmarked
  | delimiter _ _ _ _ ih => exact ih unmarked
  | command written rest ih =>
    refine ⟨?_, ih fun t member => unmarked t (List.mem_cons_of_mem _ member)⟩
    by_contra taken
    have marked := written.marked_text taken
    refine unmarked written.text List.mem_cons_self ?_ marked
    obtain ⟨a, b, whole, -⟩ := marked
    rw [whole]
    exact List.append_ne_nil_of_right_ne_nil a (List.cons_ne_nil _ b)

theorem takeWhile_ne_nil_iff (texts : List Text) :
    texts.takeWhile (· ≠ []) = texts.filter (· ≠ []) ↔
      texts.Pairwise fun t later => t = [] → later = [] := by
  rw [takeWhile_eq_filter_iff]
  simp

/-- **The commands of a script that are not blank are executed, all of them and nothing else**, if and
only if no line of them is taken for a comment or a `DELIMITER` line and behind a blank command there
are only blank ones. -/
theorem initOriginalData_iff (script : Script ";".toList) :
    Fuel.Settles (initOriginalData ⟨some script.lines, ";".toList⟩)
        (.ok (script.texts.filter (· ≠ []))) ↔
      script.Plain ∧ script.texts.Pairwise fun t later => t = [] → later = [] := by
  rw [settles_initOriginalData]
  constructor
  · intro executed
    have unmarked := @reads_unmarked _ _ [] _ nofun executed.symm
    have plain : script.Plain := by
      refine script.plain_of_unmarked fun t member given => unmarked t ?_
      exact List.mem_filter.mpr ⟨member, decide_eq_true given⟩
    rw [reads_script script (by decide) plain (by decide)] at executed
    exact ⟨plain, (takeWhile_ne_nil_iff _).mp (Except.ok.inj executed).symm⟩
  · rintro ⟨plain, ordered⟩
    rw [reads_script script (by decide) plain (by decide), (takeWhile_ne_nil_iff _).mpr ordered]

/-- An empty command, and one that is not executed because of it. -/
theorem initOriginalData_blank_first :
    ∃ script : Script ";".toList, script.texts = [[], "select 1".toList] ∧
      (initOriginalData ⟨some script.lines, ";".toList⟩ 1).run = some (.ok []) := by
  refine ⟨.command (.ofLine ⟨";".toList, ?_⟩ [] ?_ ?_)
    (.command (.ofLine ⟨"select 1;".toList, ?_⟩ "select 1".toList ?_ ?_) .done), ?_, ?_⟩
  all_goals decide

end SQLReader

end Clb.Dao
