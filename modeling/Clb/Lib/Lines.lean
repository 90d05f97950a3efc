/-
# Lib.Lines -- texts by lines

`joinLines` ends every line by a line feed. Lines are told apart by how they begin: a `Marker` is a
property of the beginning of a text that no blank takes part in. A text is `Marked` if a line of it,
other than the first, has the marker. Joining lines without the marker does not make a marked text
(`not_marked_joinLines`), and trimming neither adds a marked line nor loses one behind a visible
character (`not_marked_trim`, `marked_trim`). -/
import Clb.Lib.Trim

set_option autoImplicit false

namespace Clb.Lib

def joinLines (lines : List (List Char)) : List Char := lines.flatMap (· ++ ['\n'])

/-- A property of the beginning of a text, up to its first blank. -/
structure Marker (special : List Char → Prop) : Prop where
  append : ∀ {l r}, special l → special (l ++ r)
  before : ∀ {l r c}, blank c = true → special (l ++ c :: r) → special l
  nil : ¬special []

/-- A later line of the text has the marker. -/
def Marked (special : List Char → Prop) (t : List Char) : Prop :=
  ∃ a b, t = a ++ '\n' :: b ∧ special b

variable {special : List Char → Prop} {a b l r t z : List Char} {lines : List (List Char)}

@[simp] theorem joinLines_nil : joinLines [] = [] := rfl

@[simp] theorem joinLines_cons : joinLines (l :: lines) = l ++ '\n' :: joinLines lines := by
  unfold joinLines
  rw [List.flatMap_cons, List.append_assoc]
  rfl

@[simp] theorem joinLines_append {lines' : List (List Char)} :
    joinLines (lines ++ lines') = joinLines lines ++ joinLines lines' :=
  List.flatMap_append

theorem Marker.of_append_blanks (marker : Marker special) (all : Blanks z) (begins : special (b ++ z)) :
    special b := by
  cases z with
  | nil => rwa [List.append_nil] at begins
  | cons c z => exact marker.before (all c List.mem_cons_self) begins

theorem Marker.not_blanks (marker : Marker special) (begins : special b) : ¬Blanks b :=
  fun all => marker.nil (marker.of_append_blanks (b := []) all begins)

theorem not_marked_joinLines (marker : Marker special)
    (plain : ∀ l ∈ lines, '\n' ∉ l ∧ ¬special l) : ¬Marked special (joinLines lines) := by
  induction lines with
  | nil =>
    rintro ⟨a, b, whole, -⟩
    exact List.append_ne_nil_of_right_ne_nil a (List.cons_ne_nil _ b) whole.symm
  | cons line lines ih =>
    rintro ⟨a, b, whole, begins⟩
    have plainLines : ∀ l ∈ lines, '\n' ∉ l ∧ ¬special l :=
      fun l member => plain l (List.mem_cons_of_mem _ member)
    have notNext : ¬special (joinLines lines) := by
      cases lines with
      | nil => exact marker.nil
      | cons next lines =>
        rw [joinLines_cons]
        exact fun begins => (plainLines next List.mem_cons_self).2 (marker.before rfl begins)
    rw [joinLines_cons] at whole
    rcases List.append_eq_append_iff.mp whole with ⟨between, rfl, rest⟩ | ⟨between, inside, rest⟩
    · rcases List.cons_eq_append_iff.mp rest with ⟨rfl, same⟩ | ⟨between', rfl, rest'⟩
      · exact notNext ((List.cons.inj same).2 ▸ begins)
      · exact ih plainLines ⟨between', b, rest', begins⟩
    · rcases List.cons_eq_append_iff.mp rest with ⟨rfl, same⟩ | ⟨between', rfl, -⟩
      · exact notNext ((List.cons.inj same).2 ▸ begins)
      · -- the line feed would be inside of `line`
        refine (plain line List.mem_cons_self).1 ?_
        rw [inside]
        simp

theorem not_marked_trim (marker : Marker special) (plain : ¬Marked special t) :
    ¬Marked special (trim t) := by
  rintro ⟨a, b, whole, begins⟩
  obtain ⟨front, behind, -, -, split⟩ := exists_trim_split t
  refine plain ⟨front ++ a, b ++ behind, ?_, marker.append begins⟩
  rw [split, whole]
  simp

theorem marked_trim (marker : Marker special) (visible : ¬Blanks a) (begins : special b) :
    Marked special (trim (a ++ '\n' :: b)) := by
  obtain ⟨front, behind, blanksFront, blanksBehind, whole⟩ := exists_trim_split (a ++ '\n' :: b)
  rw [List.append_assoc] at whole
  rcases List.append_eq_append_iff.mp whole with ⟨rest, same, -⟩ | ⟨rest, rfl, split⟩
  · refine absurd (fun c member => blanksFront c ?_) visible
    rw [same]
    exact List.mem_append_left _ member
  · rcases List.append_eq_append_iff.mp split with ⟨kept, -, same⟩ | ⟨kept, same, tail⟩
    · refine absurd (fun c member => blanksBehind c ?_) (marker.not_blanks begins)
      rw [same]
      simp [member]
    · rcases List.cons_eq_append_iff.mp tail with ⟨rfl, same'⟩ | ⟨kept', rfl, rfl⟩
      · refine absurd (fun c member => blanksBehind c ?_) (marker.not_blanks begins)
        rw [same']
        simp [member]
      · exact ⟨rest, kept', same, marker.of_append_blanks blanksBehind begins⟩

/-- A line with the marker, somewhere behind a line that is not blank. -/
theorem marked_trim_joinLines (marker : Marker special) {before after : List (List Char)}
    (visible : ∃ v ∈ before, ¬Blanks v) (begins : special l) :
    Marked special (trim (joinLines (before ++ l :: after))) := by
  obtain ⟨v, member, visible⟩ := visible
  rcases before.eq_nil_or_concat with rfl | ⟨init, w, rfl⟩
  · cases member
  · have split : joinLines ((init ++ [w]) ++ l :: after) =
        (joinLines init ++ w) ++ '\n' :: (l ++ '\n' :: joinLines after) := by simp
    rw [List.concat_eq_append] at member ⊢
    rw [split]
    refine marked_trim marker (fun all => visible fun c inside => all c ?_) (marker.append begins)
    rcases List.mem_append.mp member with earlier | same
    · refine List.mem_append_left _ (List.mem_flatMap.mpr ⟨v, earlier, ?_⟩)
      exact List.mem_append_left _ inside
    · rw [List.mem_singleton.mp same] at inside
      exact List.mem_append_right _ inside

/-- Beginning with a word is a marker, if no blank is read as a character of the word. -/
theorem marker_word {f : Char → Char} {w : List Char} (given : w ≠ [])
    (visible : ∀ c, blank c = true → f c ∉ w) : Marker fun t => w <+: t.map f where
  append begins := begins.trans (by rw [List.map_append]; exact List.prefix_append _ _)
  before {l r c} isBlank begins := by
    rw [List.map_append, List.map_cons] at begins
    rcases List.prefix_or_prefix_of_prefix begins (List.prefix_append _ _) with inside | ⟨rest, rfl⟩
    · exact inside
    · rw [List.prefix_append_right_inj] at begins
      cases rest with
      | nil => simp
      | cons d rest =>
        obtain ⟨rfl, -⟩ := List.cons_prefix_cons.mp begins
        exact absurd (by simp) (visible c isBlank)
  nil begins := given (List.prefix_nil.mp begins)

theorem Marker.or {special' : List Char → Prop} (first : Marker special) (second : Marker special') :
    Marker fun t => special t ∨ special' t where
  append begins := begins.imp first.append second.append
  before isBlank begins := begins.imp (first.before isBlank) (second.before isBlank)
  nil begins := begins.elim first.nil second.nil

/-- What stands before the first element without a property is all that has it, if and only if no
element that has it comes later. -/
theorem takeWhile_eq_filter_iff {α : Type} {p : α → Bool} {l : List α} :
    l.takeWhile p = l.filter p ↔ l.Pairwise fun a later => p a = false → p later = false := by
  induction l with
  | nil => simp
  | cons a l ih =>
    rw [List.pairwise_cons]
    cases found : p a with
    | true => simp [found, ih]
    | false =>
      have none_ : l.filter p = [] ↔ ∀ later ∈ l, p later = false := by simp
      rw [List.takeWhile_cons_of_neg (by simp [found]), List.filter_cons_of_neg (by simp [found]),
        eq_comm, none_]
      constructor
      · intro behind
        refine ⟨fun later member _ => behind later member, ?_⟩
        exact List.pairwise_of_forall_mem_list fun _ _ later member _ => behind later member
      · rintro ⟨behind, -⟩
        exact fun later member => behind later member rfl

end Clb.Lib
