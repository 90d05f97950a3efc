/-
# Server.Configuration -- looking up a property of the configuration

`Config.getStringProp` and `replace` call each other: a property's text is searched for a placeholder,
the placeholder's name is looked up in its turn, and the text after it is searched again. The model
bounds the depth of these calls; `settles_iff` says that the result with enough fuel is the one of
the relation `Returns`, over which everything else is proved.

The pattern of the source is given by its groups (`Groups`), and `matchPattern` finds the match that
the greedy first group selects (`matchPattern_of_groups`, `groups_of_matchPattern`).

A lookup ends if and only if no name that it follows leads back to itself
(`getStringProp_ends_iff`). -/
import Clb.Lib.Fuel
import Clb.Lib.Reference
import Clb.Lib.Template
import Clb.Lib.Trim
import Clb.Dao.Tables

set_option autoImplicit false

namespace Clb.Configuration

open Clb.Lib
open Clb.Lib.Template

/-! ## The pattern -/

/-- The characters that `.` of a pattern does not match. -/
def lineTerminator (c : Char) : Bool :=
  c == '\n' || c == '\r' || c == '\u0085' || c == '\u2028' || c == '\u2029'

/-- `left`, `key` and `right` are groups with which `([^\}]*)\$\{([^}]*)\}(.*)` matches the whole
input. -/
structure Groups (left key right input : Text) : Prop where
  whole : input = left ++ '$' :: '\x7b' :: key ++ '\x7d' :: right
  leftFree : '\x7d' ∉ left
  keyFree : '\x7d' ∉ key
  line : right.any lineTerminator = false

/-- `pattern.matcher(input)` with `matches()`: the closing brace is the first one, and the greedy first
group goes up to the last opening before it. -/
def matchPattern (input : Text) : Option (Text × Text × Text) :=
  match input.dropWhile (· ≠ '\x7d') with
  | [] => none
  | _ :: right =>
    if right.any lineTerminator then none
    else
      (lastOpen (input.takeWhile (· ≠ '\x7d'))).map fun groups => (groups.1, groups.2, right)

variable {left key right input : Text}

theorem matchPattern_brace {before : Text} (free : '\x7d' ∉ before) :
    matchPattern (before ++ '\x7d' :: right) =
      if right.any lineTerminator then none
      else (lastOpen before).map fun groups => (groups.1, groups.2, right) := by
  have none_ : ∀ c ∈ before, decide (c ≠ '\x7d') = true := by
    intro c member
    exact decide_eq_true fun same => free (same ▸ member)
  unfold matchPattern
  rw [List.dropWhile_append_of_pos none_, List.takeWhile_append_of_pos none_]
  simp

theorem matchPattern_plain (free : '\x7d' ∉ input) : matchPattern input = none := by
  have all : input.dropWhile (· ≠ '\x7d') = [] := by
    rw [List.dropWhile_eq_nil_iff]
    intro c member
    exact decide_eq_true fun same => free (same ▸ member)
  unfold matchPattern
  rw [all]

theorem matchPattern_eq_some (matched : matchPattern input = some (left, key, right)) :
    ∃ before, input = before ++ '\x7d' :: right ∧ '\x7d' ∉ before ∧
      lastOpen before = some (left, key) ∧ right.any lineTerminator = false := by
  rcases brace_cases input with plain | ⟨before, after, rfl, free⟩
  · rw [matchPattern_plain plain] at matched
    cases matched
  · rw [matchPattern_brace free] at matched
    split at matched
    · cases matched
    · rename_i line
      obtain ⟨⟨left', key'⟩, found, same⟩ := Option.map_eq_some_iff.mp matched
      obtain ⟨rfl, rfl, rfl⟩ : left' = left ∧ key' = key ∧ after = right := by simpa using same
      exact ⟨before, rfl, free, found, eq_false_of_ne_true line⟩

theorem groups_of_matchPattern (matched : matchPattern input = some (left, key, right)) :
    Groups left key right input := by
  obtain ⟨before, rfl, free, found, line⟩ := matchPattern_eq_some matched
  obtain rfl := lastOpen_eq_some found
  refine ⟨rfl, fun member => free ?_, fun member => free ?_, line⟩
  · exact List.mem_append_left _ member
  · simp [member]

/-- **The match of the pattern.** There is one whenever the pattern has groups for the input, and its
first group is the longest possible. -/
theorem matchPattern_of_groups (groups : Groups left key right input) :
    ∃ left' key', matchPattern input = some (left', key', right) ∧ left.length ≤ left'.length := by
  obtain ⟨left', key', found, longer⟩ := lastOpen_longest left key
  refine ⟨left', key', ?_, longer⟩
  have free : '\x7d' ∉ left ++ '$' :: '\x7b' :: key := by
    simp [groups.leftFree, groups.keyFree]
  rw [groups.whole, matchPattern_brace free, found, groups.line]
  rfl

/-- What the pattern leaves of a trimmed text is some blanks and a trimmed text. -/
theorem exists_blanks_right (matched : matchPattern (trim input) = some (left, key, right)) :
    ∃ blanks, Blanks blanks ∧ right = blanks ++ trim right := by
  refine exists_blanks_append fun c member => (trimmed_trim input).last c ?_
  rw [(groups_of_matchPattern matched).whole]
  cases right with
  | nil => cases member
  | cons d rest =>
    rw [List.getLast?_append, List.getLast?_cons_cons, Option.mem_def.mp member]
    rfl

theorem length_right_lt (matched : matchPattern (trim input) = some (left, key, right)) :
    right.length < input.length := by
  have whole := congrArg List.length (groups_of_matchPattern matched).whole
  have trimmed := length_trim_le input
  simp only [List.length_append, List.length_cons] at whole
  omega

/-- The pieces of a text that the pattern matches. -/
theorem parse_matched (matched : matchPattern input = some (left, key, right)) :
    parse input = [.plain left, .ref key] ++ parse right := by
  obtain ⟨before, rfl, free, found, -⟩ := matchPattern_eq_some matched
  rw [parse_brace free, close, found]

/-! ## The lookup -/

/-- The two sources of values: the properties of the configuration file, and the system properties. -/
structure Properties where
  props : List (Text × Text)
  system : Text → Option Text

namespace Properties

/-- `props.getProperty`. -/
def getProperty (c : Properties) (key : Text) : Option Text := c.props.lookup key

/-- What `replace` puts in for a placeholder, given what `getStringProp` returned for its name;
`System.getProperty` raises an exception for the empty name. -/
def fallback (c : Properties) (key : Text) : Option Text → ExceptT Fault Option Text
  | some value => pure value
  | none => if key = [] then throw .illegalArgument else pure ((c.system key).getD key)

mutual

/-- `Config.getStringProp`, with a bound on the depth of the calls. -/
def getStringProp (c : Properties) (key : Text) (defaultval : Option Text) :
    Nat → ExceptT Fault Option (Option Text)
  | 0 => none
  | fuel + 1 =>
    match c.getProperty key with
    | some value => do
        let replaced ← c.replace value fuel
        pure (some replaced)
    | none => pure defaultval

/-- `Config.replace`. -/
def replace (c : Properties) (input : Text) : Nat → ExceptT Fault Option Text
  | 0 => none
  | fuel + 1 =>
    let input := trim input
    if '$' ∈ input then
      match matchPattern input with
      | some (left, key, right) => do
          let value ← c.getStringProp key none fuel
          let value ← c.fallback key value
          let right ← c.replace right fuel
          pure (left ++ value ++ right)
      | none => pure input
    else pure input

end

variable {c : Properties}

/-! ## The results of the lookups -/

/-- What is to be replaced: the name of a placeholder, or a text. -/
inductive Asked where
  | name (key : Text)
  | text (input : Text)

def run (c : Properties) : Asked → Nat → ExceptT Fault Option Text
  | .name key, fuel => c.getStringProp key none fuel >>= c.fallback key
  | .text input, fuel => c.replace input fuel

/-- The value that is put in for a name, and the text that `replace` makes of a text; or the exception
that is raised instead. -/
inductive Returns (c : Properties) : Asked → Except Fault Text → Prop
  | property {key text : Text} {r : Except Fault Text} (defined : c.getProperty key = some text)
      (replaced : Returns c (.text text) r) : Returns c (.name key) r
  | system {key : Text} (undefined : c.getProperty key = none) (given : key ≠ []) :
      Returns c (.name key) (.ok ((c.system key).getD key))
  | empty (undefined : c.getProperty [] = none) : Returns c (.name []) (.error .illegalArgument)
  | unread {input : Text} (unmatched : matchPattern (trim input) = none) :
      Returns c (.text input) (.ok (trim input))
  | raised {input left key right : Text} {fault : Fault}
      (matched : matchPattern (trim input) = some (left, key, right))
      (looked : Returns c (.name key) (.error fault)) : Returns c (.text input) (.error fault)
  | placeholder {input left key right value : Text} {r : Except Fault Text}
      (matched : matchPattern (trim input) = some (left, key, right))
      (looked : Returns c (.name key) (.ok value)) (rest : Returns c (.text right) r) :
      Returns c (.text input) (r.map (left ++ value ++ ·))

theorem replace_matched (matched : matchPattern (trim input) = some (left, key, right)) (fuel : Nat) :
    c.replace input (fuel + 1) = (do
      let value ← c.run (.name key) fuel
      let rest ← c.replace right fuel
      pure (left ++ value ++ rest)) := by
  have dollar : '$' ∈ trim input := by
    rw [(groups_of_matchPattern matched).whole]
    simp
  rw [replace]
  simp only [dollar, if_true, matched, run, bind_assoc]

theorem replace_unread (unmatched : matchPattern (trim input) = none) (fuel : Nat) :
    c.replace input (fuel + 1) = pure (trim input) := by
  rw [replace]
  simp only [unmatched, ite_self]

theorem getStringProp_defined {text : Text} {defaultval : Option Text}
    (defined : c.getProperty key = some text) (fuel : Nat) :
    c.getStringProp key defaultval (fuel + 1) = some <$> c.replace text fuel := by
  rw [getStringProp]
  simp only [defined, map_eq_pure_bind]

theorem getStringProp_undefined {defaultval : Option Text} (undefined : c.getProperty key = none)
    (fuel : Nat) : c.getStringProp key defaultval (fuel + 1) = pure defaultval := by
  rw [getStringProp]
  simp only [undefined]

theorem run_name_defined {text : Text} (defined : c.getProperty key = some text) (fuel : Nat) :
    c.run (.name key) (fuel + 1) = c.replace text fuel := by
  rw [run, getStringProp_defined defined, bind_map_left]
  exact bind_pure _

theorem run_name_undefined (undefined : c.getProperty key = none) (fuel : Nat) :
    c.run (.name key) (fuel + 1) = c.fallback key none := by
  rw [run, getStringProp_undefined undefined, pure_bind]

theorem steady_run (asked : Asked) : Fuel.Steady (c.run asked) := by
  intro fuel
  induction fuel generalizing asked with
  | zero =>
    intro r ended
    cases asked with
    | name key => cases ended
    | text input => cases ended
  | succ fuel ih =>
    cases asked with
    | name key =>
      cases found : c.getProperty key with
      | some text =>
        rw [run_name_defined found, run_name_defined found]
        exact ih (.text text)
      | none =>
        rw [run_name_undefined found, run_name_undefined found]
        exact .refl
    | text input =>
      cases matched : matchPattern (trim input) with
      | some groups =>
        rw [run, run, replace_matched matched, replace_matched matched]
        exact (ih (.name _)).bind fun value => (ih (.text _)).bind fun rest => .refl
      | none =>
        rw [run, run, replace_unread matched, replace_unread matched]
        exact .refl

theorem returns_of_run {asked : Asked} {r : Except Fault Text} {fuel : Nat}
    (ended : (c.run asked fuel).run = some r) : Returns c asked r := by
  induction fuel generalizing asked r with
  | zero =>
    cases asked with
    | name key => cases ended
    | text input => cases ended
  | succ fuel ih =>
    cases asked with
    | name key =>
      cases found : c.getProperty key with
      | some text =>
        rw [run_name_defined found] at ended
        exact .property found (ih ended)
      | none =>
        rw [run_name_undefined found, fallback] at ended
        split at ended
        · rename_i blank
          obtain rfl := Option.some.inj ended
          subst blank
          exact .empty found
        · rename_i given
          obtain rfl := Option.some.inj ended
          exact .system found given
    | text input =>
      cases matched : matchPattern (trim input) with
      | some groups =>
        rw [run, replace_matched matched] at ended
        rcases Fuel.run_bind_eq_some_iff.mp ended with ⟨e, raised, rfl⟩ | ⟨value, looked, ended⟩
        · exact .raised matched (ih raised)
        · rcases Fuel.run_bind_eq_some_iff.mp ended with ⟨e, raised, rfl⟩ | ⟨rest, found, ended⟩
          · exact .placeholder matched (ih looked) (@ih (.text _) _ raised)
          · obtain rfl := Option.some.inj ended
            exact .placeholder matched (ih looked) (@ih (.text _) _ found)
      | none =>
        rw [run, replace_unread matched] at ended
        obtain rfl := Option.some.inj ended
        exact .unread matched

theorem Returns.settles {asked : Asked} {r : Except Fault Text} (returns : Returns c asked r) :
    Fuel.Settles (c.run asked) r := by
  induction returns with
  | property defined _ ih =>
    rw [← Fuel.settles_succ (steady_run _)]
    simp only [run_name_defined defined]
    exact ih
  | system undefined given =>
    refine ⟨1, ?_⟩
    rw [run_name_undefined undefined, fallback, if_neg given]
    rfl
  | empty undefined => exact ⟨1, by rw [run_name_undefined undefined]; rfl⟩
  | unread unmatched => exact ⟨1, by rw [run, replace_unread unmatched]; rfl⟩
  | raised matched _ ih =>
    obtain ⟨fuel, ended⟩ := ih
    refine ⟨fuel + 1, ?_⟩
    rw [run, replace_matched matched]
    exact Fuel.run_bind_eq_some_iff.mpr (.inl ⟨_, ended, rfl⟩)
  | @placeholder input left key right value r matched _ _ looked rest =>
    rw [← Fuel.settles_succ (steady_run _)]
    simp only [run, replace_matched matched]
    refine (Fuel.settles_bind (steady_run _) fun value => ?_).mpr (.inr ⟨value, looked, ?_⟩)
    · exact fun fuel => (steady_run (.text right) fuel).bind fun rest => .refl
    · obtain ⟨fuel, ended⟩ := rest
      refine ⟨fuel, Fuel.run_bind_eq_some_iff.mpr ?_⟩
      cases r with
      | error e => exact .inl ⟨e, ended, rfl⟩
      | ok rest => exact .inr ⟨rest, ended, rfl⟩

/-- **The results with enough fuel** are those of the relation. -/
theorem settles_iff {asked : Asked} {r : Except Fault Text} :
    Fuel.Settles (c.run asked) r ↔ Returns c asked r :=
  ⟨fun ⟨_, ended⟩ => returns_of_run ended, Returns.settles⟩

theorem getStringProp_settles_iff {text : Text} (defaultval : Option Text)
    {r : Except Fault (Option Text)} (defined : c.getProperty key = some text) :
    Fuel.Settles (c.getStringProp key defaultval) r ↔
      ∃ out, Returns c (.text text) out ∧ r = out.map some := by
  constructor
  · rintro ⟨fuel, ended⟩
    cases fuel with
    | zero => cases ended
    | succ fuel =>
      rw [getStringProp_defined defined, ExceptT.run_map, Option.map_eq_map,
        Option.map_eq_some_iff] at ended
      obtain ⟨out, ended, rfl⟩ := ended
      have returns : Returns c (.text text) out := returns_of_run ended
      exact ⟨out, returns, rfl⟩
  · rintro ⟨out, returns, rfl⟩
    obtain ⟨fuel, ended⟩ := returns.settles
    refine ⟨fuel + 1, ?_⟩
    rw [getStringProp_defined defined, ExceptT.run_map]
    exact congrArg (Option.map _) ended

/-! ## Termination -/

/-- The lookup of a name, or the replacement in a text, comes upon the empty name, which no property
has: an exception is raised. -/
inductive Raises (c : Properties) : Asked → Prop
  | empty (undefined : c.getProperty [] = none) : Raises c (.name [])
  | property {key text : Text} (defined : c.getProperty key = some text)
      (inside : Raises c (.text text)) : Raises c (.name key)
  | here {input left key right : Text} (matched : matchPattern (trim input) = some (left, key, right))
      (looked : Raises c (.name key)) : Raises c (.text input)
  | later {input left key right : Text} (matched : matchPattern (trim input) = some (left, key, right))
      (rest : Raises c (.text right)) : Raises c (.text input)

/-- `replace` of the text looks up the name. -/
inductive Visits (c : Properties) : Text → Text → Prop
  | here {input left key right : Text} (matched : matchPattern (trim input) = some (left, key, right)) :
      Visits c input key
  | later {input left key right next : Text}
      (matched : matchPattern (trim input) = some (left, key, right))
      (returned : ¬Raises c (.name key)) (rest : Visits c right next) : Visits c input next

/-- The text of the property `key` makes the code look up `next`. -/
def Follows (c : Properties) (next key : Text) : Prop :=
  ∃ text, c.getProperty key = some text ∧ c.Visits text next

theorem Returns.raises_iff {asked : Asked} {r : Except Fault Text} (returns : Returns c asked r) :
    Raises c asked ↔ ∃ fault, r = .error fault := by
  induction returns with
  | property defined _ ih =>
    refine ⟨fun raises => ih.mp ?_, fun raised => .property defined (ih.mpr raised)⟩
    cases raises with
    | empty undefined =>
      rw [defined] at undefined
      cases undefined
    | property defined' inside =>
      rw [defined] at defined'
      cases defined'
      exact inside
  | system undefined given =>
    refine ⟨fun raises => ?_, fun ⟨_, error⟩ => nomatch error⟩
    cases raises with
    | empty => exact absurd rfl given
    | property defined => exact absurd (undefined.symm.trans defined) nofun
  | empty undefined => exact ⟨fun _ => ⟨_, rfl⟩, fun _ => .empty undefined⟩
  | unread unmatched =>
    refine ⟨fun raises => ?_, fun ⟨_, error⟩ => nomatch error⟩
    cases raises with
    | here matched => exact absurd (unmatched.symm.trans matched) nofun
    | later matched => exact absurd (unmatched.symm.trans matched) nofun
  | raised matched _ ih => exact ⟨fun _ => ⟨_, rfl⟩, fun _ => .here matched (ih.mpr ⟨_, rfl⟩)⟩
  | @placeholder input left key right value r matched _ _ looked rest =>
    constructor
    · intro raises
      cases raises with
      | here matched' inside =>
        rw [matched] at matched'
        cases matched'
        obtain ⟨_, impossible⟩ := looked.mp inside
        cases impossible
      | later matched' inside =>
        rw [matched] at matched'
        cases matched'
        obtain ⟨fault, rfl⟩ := rest.mp inside
        exact ⟨fault, rfl⟩
    · rintro ⟨fault, raised⟩
      cases r with
      | ok out => cases raised
      | error e => exact .later matched (rest.mpr ⟨e, rfl⟩)

/-- Whatever an ended lookup has followed is accessible. -/
def Reached (c : Properties) : Asked → Prop
  | .name key => Acc c.Follows key
  | .text input => ∀ next, c.Visits input next → Acc c.Follows next

theorem Returns.reached {asked : Asked} {r : Except Fault Text} (returns : Returns c asked r) :
    c.Reached asked := by
  induction returns with
  | property defined _ ih =>
    refine ⟨_, fun next ⟨text, defined', visits⟩ => ih next ?_⟩
    rw [defined] at defined'
    cases defined'
    exact visits
  | system undefined =>
    exact ⟨_, fun next ⟨text, defined, _⟩ => absurd (undefined.symm.trans defined) nofun⟩
  | empty undefined =>
    exact ⟨_, fun next ⟨text, defined, _⟩ => absurd (undefined.symm.trans defined) nofun⟩
  | unread unmatched =>
    intro next visits
    cases visits with
    | here matched => exact absurd (unmatched.symm.trans matched) nofun
    | later matched => exact absurd (unmatched.symm.trans matched) nofun
  | raised matched looked ih =>
    intro next visits
    cases visits with
    | here matched' =>
      rw [matched] at matched'
      cases matched'
      exact ih
    | later matched' returned =>
      rw [matched] at matched'
      cases matched'
      exact absurd (looked.raises_iff.mpr ⟨_, rfl⟩) returned
  | placeholder matched _ _ looked rest =>
    intro next visits
    cases visits with
    | here matched' =>
      rw [matched] at matched'
      cases matched'
      exact looked
    | later matched' _ inside =>
      rw [matched] at matched'
      cases matched'
      exact rest next inside

/-- A text has a result if the names that it makes the code look up have one. -/
theorem exists_returns_text (input : Text)
    (looked : ∀ next, c.Visits input next → ∃ r, Returns c (.name next) r) :
    ∃ r, Returns c (.text input) r := by
  cases matched : matchPattern (trim input) with
  | none => exact ⟨_, .unread matched⟩
  | some groups =>
    obtain ⟨left, key, right⟩ := groups
    obtain ⟨r, returns⟩ := looked key (.here matched)
    cases r with
    | error fault => exact ⟨_, .raised matched returns⟩
    | ok value =>
      have returned : ¬Raises c (.name key) := by
        rw [returns.raises_iff]
        rintro ⟨_, impossible⟩
        cases impossible
      have shorter := length_right_lt matched
      obtain ⟨r, rest⟩ :=
        exists_returns_text right fun next visits => looked next (.later matched returned visits)
      exact ⟨_, .placeholder matched returns rest⟩
termination_by input.length

theorem exists_returns_of_acc (acc : Acc c.Follows key) : ∃ r, Returns c (.name key) r := by
  induction acc with
  | intro key _ ih =>
    cases found : c.getProperty key with
    | some text =>
      obtain ⟨r, returns⟩ :=
        exists_returns_text text fun next visits => ih next ⟨text, found, visits⟩
      exact ⟨r, .property found returns⟩
    | none =>
      by_cases given : key = []
      · subst given
        exact ⟨_, .empty found⟩
      · exact ⟨_, .system found given⟩

theorem Visits.mem_refs {next : Text} (visits : c.Visits input next) :
    next ∈ refs (parse (trim input)) := by
  induction visits with
  | here matched =>
    rw [parse_matched matched, refs_append_pieces]
    exact List.mem_cons_self
  | later matched _ _ ih =>
    obtain ⟨blanks, all, whole⟩ := exists_blanks_right matched
    rw [parse_matched matched, refs_append_pieces, whole,
      refs_append (all.not_mem rfl) (all.not_mem rfl)]
    exact List.mem_append_right _ ih

/-- The names that the texts of the properties have in their placeholders. -/
def names (c : Properties) : List Text := c.props.flatMap fun entry => refs (parse (trim entry.2))

theorem mem_names {text next : Text} (defined : c.getProperty key = some text)
    (member : next ∈ refs (parse (trim text))) : next ∈ c.names := by
  obtain ⟨before, after, whole, -⟩ := List.lookup_eq_some_iff.mp defined
  refine List.mem_flatMap.mpr ⟨(key, text), ?_, member⟩
  rw [whole]
  exact List.mem_append_right _ List.mem_cons_self

theorem follows_finite (c : Properties) : {next | ∃ key, c.Follows next key}.Finite := by
  refine c.names.finite_toSet.subset ?_
  rintro next ⟨key, text, defined, visits⟩
  exact mem_names defined visits.mem_refs

/-- The lookup of the property ends, with a value or an exception, if its calls may be deep enough. -/
def Ends (c : Properties) (key : Text) (defaultval : Option Text) : Prop :=
  ∃ fuel, (c.getStringProp key defaultval fuel).run.isSome

theorem ends_iff_acc (defaultval : Option Text) : c.Ends key defaultval ↔ Acc c.Follows key := by
  constructor
  · rintro ⟨fuel, ended⟩
    obtain ⟨r, ended⟩ := Option.isSome_iff_exists.mp ended
    cases found : c.getProperty key with
    | some text =>
      obtain ⟨out, returns, -⟩ := (getStringProp_settles_iff _ found).mp ⟨fuel, ended⟩
      exact (Returns.property found returns).reached
    | none => exact ⟨_, fun next ⟨text, defined, _⟩ => absurd (found.symm.trans defined) nofun⟩
  · intro acc
    cases found : c.getProperty key with
    | some text =>
      obtain ⟨r, returns⟩ := exists_returns_of_acc acc
      cases returns with
      | property defined inside =>
        obtain ⟨fuel, ended⟩ :=
          (getStringProp_settles_iff defaultval defined).mpr ⟨r, inside, rfl⟩
        exact ⟨fuel, by rw [ended]; rfl⟩
      | system undefined => exact absurd (found.symm.trans undefined) nofun
      | empty undefined => exact absurd (found.symm.trans undefined) nofun
    | none => exact ⟨1, by rw [getStringProp_undefined found]; rfl⟩

/-- **A lookup ends if and only if no name that it follows leads back to itself.** -/
theorem getStringProp_ends_iff (c : Properties) (key : Text) (defaultval : Option Text) :
    c.Ends key defaultval ↔ NoCycle c.Follows key := by
  rw [ends_iff_acc, acc_iff_noCycle c.follows_finite]

/-- A property that refers to itself. -/
theorem getStringProp_selfReference :
    ¬Ends ⟨[("a".toList, "$\x7ba\x7d".toList)], fun _ => none⟩ "a".toList none := by
  rw [ends_iff_acc]
  intro acc
  refine noCycle_of_acc acc _ .refl (.single ⟨"$\x7ba\x7d".toList, rfl, ?_⟩)
  have matched : matchPattern (trim "$\x7ba\x7d".toList) = some ([], "a".toList, []) := by decide
  exact .here matched

end Properties

end Clb.Configuration
