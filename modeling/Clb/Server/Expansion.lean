/-
# Server.Expansion -- what the placeholders of a property stand for

The expansion of a name is the text of its property with the expansions of the names in its
placeholders put in, or else the system property, or else the name itself. If no property refers to
itself through others there is one expansion of every name, and only one
(`existsUnique_expansion`).

`getStringProp` returns the expansions if and only if the texts are `Regular`
(`getStringProp_exact_iff`): it trims what follows a placeholder, stops at a text that the pattern
does not match, and raises an exception for the empty name. -/
import Clb.Server.Configuration

set_option autoImplicit false

namespace Clb.Configuration.Properties

open Clb.Lib
open Clb.Lib.Template

variable {c : Properties} {v : Text → Text} {key left right input out : Text}

/-! ## The expansions -/

structure Expansion (c : Properties) (v : Text → Text) : Prop where
  property : ∀ {key text}, c.getProperty key = some text → v key = fill v (parse (trim text))
  other : ∀ {key}, c.getProperty key = none → v key = (c.system key).getD key

/-- The text of the property `key` has a placeholder with the name `next`. -/
def Refers (c : Properties) (next key : Text) : Prop :=
  ∃ text, c.getProperty key = some text ∧ next ∈ refs (parse (trim text))

def Acyclic (c : Properties) : Prop := ∀ key, ¬Relation.TransGen c.Refers key key

theorem Acyclic.wellFounded (acyclic : c.Acyclic) : WellFounded c.Refers := by
  refine ⟨fun key => acc_of_noCycle (c.names.finite_toSet.subset ?_) fun other _ => acyclic other⟩
  rintro next ⟨key, text, defined, member⟩
  exact mem_names defined member

open Classical in
/-- The expansion of a name, given those of the names it refers to. -/
noncomputable def expandStep (c : Properties) (key : Text)
    (value : ∀ next, c.Refers next key → Text) : Text :=
  match c.getProperty key with
  | some text =>
    fill (fun next => if refers : c.Refers next key then value next refers else [])
      (parse (trim text))
  | none => (c.system key).getD key

/-- **Without cyclic references every name has exactly one expansion.** -/
theorem existsUnique_expansion (acyclic : c.Acyclic) : ∃! v, c.Expansion v := by
  refine ⟨acyclic.wellFounded.fix c.expandStep, ⟨fun {key text} defined => ?_, fun undefined => ?_⟩, ?_⟩
  · rw [WellFounded.fix_eq, expandStep, defined]
    exact fill_congr fun next member => dif_pos ⟨text, defined, member⟩
  · rw [WellFounded.fix_eq, expandStep, undefined]
  · intro v expansion
    funext key
    induction key using acyclic.wellFounded.induction with
    | _ key ih =>
      rw [WellFounded.fix_eq, expandStep]
      cases found : c.getProperty key with
      | none => exact expansion.other found
      | some text =>
        rw [expansion.property found]
        refine fill_congr fun next member => ?_
        rw [dif_pos ⟨text, found, member⟩]
        exact ih next ⟨text, found, member⟩

/-! ## Regular texts -/

/-- The texts that the code expands as they are meant: a text that the pattern does not match has
nothing to expand, and what follows a placeholder does not begin with a blank and is such a text
again. -/
inductive Regular (c : Properties) (v : Text → Text) : Text → Prop
  | unread {input : Text} (unmatched : matchPattern input = none)
      (same : fill v (parse input) = input) : Regular c v input
  | placeholder {input left key right : Text} (matched : matchPattern input = some (left, key, right))
      (named : key = [] → c.getProperty [] ≠ none) (trimmed : trim right = right)
      (rest : Regular c v right) : Regular c v input

/-- The property, if there is one, is returned as its expansion, and otherwise the default. -/
def Exact (c : Properties) (v : Text → Text) (key : Text) : Prop :=
  ∀ defaultval, Fuel.Settles (c.getStringProp key defaultval)
    (.ok (if (c.getProperty key).isSome then some (v key) else defaultval))

theorem exact_iff {text : Text} (defined : c.getProperty key = some text) :
    c.Exact v key ↔ Returns c (.text text) (.ok (v key)) := by
  unfold Exact
  simp only [defined, Option.isSome_some, if_true, getStringProp_settles_iff _ defined]
  constructor
  · intro settles
    obtain ⟨r, returns, same⟩ := settles none
    cases r with
    | error fault => cases same
    | ok out =>
      cases same
      exact returns
  · intro returns _
    exact ⟨_, returns, rfl⟩

theorem exact_of_undefined (undefined : c.getProperty key = none) : c.Exact v key := by
  intro defaultval
  refine ⟨1, ?_⟩
  rw [getStringProp_undefined undefined, undefined]
  rfl

theorem fill_matched (matched : matchPattern input = some (left, key, right)) :
    fill v (parse input) = left ++ v key ++ fill v (parse right) := by
  rw [parse_matched matched, fill_append_pieces]
  simp [fill, Piece.fill]

/-! ## Regular texts are expanded -/

theorem Regular.returns (expansion : c.Expansion v) {u : Text} (regular : Regular c v u)
    (exact_ : ∀ key ∈ refs (parse u), ∀ text, c.getProperty key = some text →
      Returns c (.text text) (.ok (v key)))
    {input : Text} (trimmed : trim input = u) : Returns c (.text input) (.ok (fill v (parse u))) := by
  induction regular generalizing input with
  | unread unmatched same =>
    subst trimmed
    rw [same]
    exact .unread unmatched
  | @placeholder u left key right matched named trimmedRight _ ih =>
    subst trimmed
    have pieces := congrArg refs (parse_matched matched)
    rw [refs_append_pieces] at pieces
    have looked : Returns c (.name key) (.ok (v key)) := by
      cases found : c.getProperty key with
      | some text =>
        refine .property found (exact_ key ?_ text found)
        rw [pieces]
        exact List.mem_cons_self
      | none =>
        rw [expansion.other found]
        refine .system found fun empty => ?_
        subst empty
        exact named rfl found
    have inRest : ∀ key ∈ refs (parse right), key ∈ refs (parse (trim input)) := by
      intro key member
      rw [pieces]
      exact List.mem_append_right _ member
    have rest := ih (fun key member => exact_ key (inRest key member)) trimmedRight
    rw [fill_matched matched]
    exact .placeholder matched looked rest

theorem exact_of_regular (acyclic : c.Acyclic) (expansion : c.Expansion v)
    (regular : ∀ key text, c.getProperty key = some text → Regular c v (trim text)) (key : Text) :
    c.Exact v key := by
  induction key using acyclic.wellFounded.induction with
  | _ key ih =>
    cases found : c.getProperty key with
    | none => exact exact_of_undefined found
    | some text =>
      rw [exact_iff found, expansion.property found]
      refine (regular key text found).returns expansion (fun next member text' found' => ?_) rfl
      exact (exact_iff found').mp (ih next ⟨text, found, member⟩)

/-! ## Only regular texts are expanded -/

theorem returns_ok_cases (returns : Returns c (.text input) (.ok out)) :
    (matchPattern (trim input) = none ∧ out = trim input) ∨
      ∃ left key right value rest, matchPattern (trim input) = some (left, key, right) ∧
        Returns c (.name key) (.ok value) ∧ Returns c (.text right) (.ok rest) ∧
        out = left ++ value ++ rest := by
  generalize ended : Except.ok out = r at returns
  cases returns with
  | unread unmatched =>
    cases ended
    exact .inl ⟨unmatched, rfl⟩
  | raised => cases ended
  | @placeholder _ left key right value r matched looked rest =>
    cases r with
    | error fault => cases ended
    | ok rest' =>
      cases ended
      exact .inr ⟨left, key, right, value, rest', matched, looked, rest, rfl⟩

theorem value_of_returns (expansion : c.Expansion v) (all : ∀ key, c.Exact v key) {value : Text}
    (looked : Returns c (.name key) (.ok value)) :
    value = v key ∧ (key = [] → c.getProperty [] ≠ none) := by
  cases looked with
  | property defined returns =>
    refine ⟨?_, fun empty undefined => ?_⟩
    · have same := Fuel.Settles.unique (steady_run _) returns.settles
        ((exact_iff defined).mp (all key)).settles
      exact Except.ok.inj same
    · rw [empty, undefined] at defined
      cases defined
  | system undefined given => exact ⟨(expansion.other undefined).symm, fun empty => absurd empty given⟩

/-- The blanks `b` stand for those that were trimmed away before the text: if the text is returned with
them, there were none and it is regular. -/
theorem regular_of_returns (expansion : c.Expansion v) (all : ∀ key, c.Exact v key) (input : Text)
    {b out : Text} (blanks : Blanks b) (returns : Returns c (.text input) (.ok out))
    (same : out = b ++ fill v (parse (trim input))) : b = [] ∧ Regular c v (trim input) := by
  rcases returns_ok_cases returns with
    ⟨unmatched, rfl⟩ | ⟨left, key, right, value, rest, matched, looked, returnsRest, rfl⟩
  · cases b with
    | nil => exact ⟨rfl, .unread unmatched same.symm⟩
    | cons d b =>
      have visible := (trimmed_trim input).head d (by rw [same]; rfl)
      rw [blanks d List.mem_cons_self] at visible
      cases visible
  · obtain ⟨rfl, named⟩ := value_of_returns expansion all looked
    obtain ⟨b₀, blanks₀, whole⟩ := exists_blanks_right matched
    have shorter := length_right_lt matched
    rw [fill_matched matched, whole, fill_append (blanks₀.not_mem rfl) (blanks₀.not_mem rfl)] at same
    obtain ⟨b', blanks', length, behind⟩ := blanks.exists_behind same
    rw [← List.append_assoc] at behind
    have blanksRest : Blanks (b' ++ b₀) := by
      intro d member
      exact (List.mem_append.mp member).elim (blanks' d) (blanks₀ d)
    obtain ⟨none_, regular⟩ := regular_of_returns expansion all right blanksRest returnsRest behind
    obtain ⟨rfl, rfl⟩ := List.append_eq_nil_iff.mp none_
    refine ⟨List.eq_nil_of_length_eq_zero length.symm, .placeholder matched named whole.symm ?_⟩
    rw [whole]
    exact regular
termination_by input.length

/-- **The code returns the expansions if and only if the texts are regular.** -/
theorem getStringProp_exact_iff (c : Properties) (acyclic : c.Acyclic) (v : Text → Text)
    (expansion : c.Expansion v) :
    (∀ key, c.Exact v key) ↔ ∀ key text, c.getProperty key = some text → Regular c v (trim text) := by
  refine ⟨fun all key text defined => ?_, exact_of_regular acyclic expansion⟩
  have returns := (exact_iff defined).mp (all key)
  rw [expansion.property defined] at returns
  exact (regular_of_returns (b := []) expansion all text nofun returns rfl).2

/-! ## One property -/

/-- A configuration with the property `k` only. -/
def single (text : Text) : Properties := ⟨[("k".toList, text)], fun _ => none⟩

def singleValue (value key : Text) : Text := if key = "k".toList then value else key

theorem getProperty_single {text text' : Text} :
    (single text).getProperty key = some text' ↔ key = "k".toList ∧ text = text' := by
  unfold getProperty single
  by_cases same : key = "k".toList
  · simp [same]
  · have other : (key == "k".toList) = false := beq_false_of_ne same
    rw [List.lookup_cons, other]
    exact iff_of_false (Option.some_ne_none text').symm fun found => same found.1

theorem acyclic_single {text : Text} (apart : "k".toList ∉ refs (parse (trim text))) :
    (single text).Acyclic := by
  intro key cycle
  obtain ⟨next, ⟨text', defined', member⟩, -⟩ := Relation.TransGen.head'_iff.mp cycle
  obtain ⟨before, -, text'', defined, -⟩ := Relation.TransGen.tail'_iff.mp cycle
  obtain ⟨rfl, -⟩ := getProperty_single.mp defined
  obtain ⟨-, rfl⟩ := getProperty_single.mp defined'
  exact apart member

theorem expansion_single {text value : Text}
    (filled : fill (singleValue value) (parse (trim text)) = value) :
    (single text).Expansion (singleValue value) where
  property {key text'} defined := by
    obtain ⟨rfl, rfl⟩ := getProperty_single.mp defined
    rw [filled]
    rfl
  other {key} undefined := by
    have other : key ≠ "k".toList := by
      rintro rfl
      cases undefined
    exact if_neg other

theorem getStringProp_exact_slash :
    (single "$\x7ba\x7d/b".toList).Acyclic ∧
      (single "$\x7ba\x7d/b".toList).Expansion (singleValue "a/b".toList) ∧
      ∀ key, (single "$\x7ba\x7d/b".toList).Exact (singleValue "a/b".toList) key := by
  have acyclic : (single "$\x7ba\x7d/b".toList).Acyclic := acyclic_single (by decide)
  have expansion : (single "$\x7ba\x7d/b".toList).Expansion (singleValue "a/b".toList) :=
    expansion_single (by decide)
  refine ⟨acyclic, expansion, (getStringProp_exact_iff _ acyclic _ expansion).mpr ?_⟩
  intro key text defined
  obtain ⟨-, rfl⟩ := getProperty_single.mp defined
  have matched : matchPattern (trim "$\x7ba\x7d/b".toList) = some ([], "a".toList, "/b".toList) := by
    decide
  exact .placeholder matched nofun (by decide) (.unread (by decide) (by decide))

/-- A blank after a placeholder is lost. -/
theorem getStringProp_blank_lost :
    (single "$\x7ba\x7d b".toList).Acyclic ∧
      (single "$\x7ba\x7d b".toList).Expansion (singleValue "a b".toList) ∧
      ((single "$\x7ba\x7d b".toList).getStringProp "k".toList none 4).run =
        some (.ok (some "ab".toList)) ∧
      ¬(single "$\x7ba\x7d b".toList).Exact (singleValue "a b".toList) "k".toList := by
  have returned : ((single "$\x7ba\x7d b".toList).getStringProp "k".toList none 4).run =
      some (.ok (some "ab".toList)) := by decide
  refine ⟨acyclic_single (by decide), expansion_single (by decide), returned, fun exact_ => ?_⟩
  have returns := (exact_iff (getProperty_single.mpr ⟨rfl, rfl⟩)).mp exact_
  obtain ⟨out, returns', same⟩ :=
    (getStringProp_settles_iff none (getProperty_single.mpr ⟨rfl, rfl⟩)).mp ⟨4, returned⟩
  obtain rfl := Fuel.Settles.unique (steady_run _) returns.settles returns'.settles
  exact absurd same (by decide)

end Clb.Configuration.Properties
