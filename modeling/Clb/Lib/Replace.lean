/-
# Lib.Replace -- replacing every occurrence of a text

`replace target replacement text` reads the text from the left and puts the replacement for every
occurrence of a nonempty target that does not overlap an earlier one. A text without an occurrence is
left alone (`replace_of_not_infix`), one that starts with the target loses it there
(`replace_target_append`), a beginning that cannot overlap an occurrence is kept
(`replace_append_of_absent`), and deleting the target changes every text in which it occurs
(`replace_nil_eq_self_iff`). -/
import Mathlib.Data.List.Infix

set_option autoImplicit false

namespace Clb.Lib

variable {α : Type} [DecidableEq α] (target replacement : List α)

/-- The text from a position on, of which the first `skip` elements belong to an occurrence. -/
def replaceFrom : Nat → List α → List α
  | _, [] => []
  | skip + 1, _ :: rest => replaceFrom skip rest
  | 0, a :: rest =>
    if target.isPrefixOf (a :: rest) then
      replacement ++ replaceFrom (target.length - 1) rest
    else
      a :: replaceFrom 0 rest

def replace (text : List α) : List α := replaceFrom target replacement 0 text

variable {target replacement} {text : List α} {a : α}

@[simp] theorem replace_nil : replace target replacement ([] : List α) = [] := by
  rw [replace, replaceFrom]

theorem replaceFrom_eq_drop (skip : Nat) :
    replaceFrom target replacement skip text = replace target replacement (text.drop skip) := by
  induction text generalizing skip with
  | nil => rw [List.drop_nil, replace_nil, replaceFrom]
  | cons a rest ih =>
    cases skip with
    | zero => rfl
    | succ skip => rw [List.drop_succ_cons, ← ih, replaceFrom]

theorem replace_cons_of_not_isPrefix (differs : ¬target <+: a :: text) :
    replace target replacement (a :: text) = a :: replace target replacement text := by
  rw [replace, replaceFrom, if_neg fun starts => differs (List.isPrefixOf_iff_prefix.mp starts)]
  rfl

theorem replace_target_append (nonempty : target ≠ []) :
    replace target replacement (target ++ text) = replacement ++ replace target replacement text := by
  obtain ⟨b, others, rfl⟩ := List.exists_cons_of_ne_nil nonempty
  rw [replace, List.cons_append, replaceFrom,
    if_pos (List.isPrefixOf_iff_prefix.mpr ⟨text, List.cons_append⟩), replaceFrom_eq_drop,
    List.length_cons, Nat.add_sub_cancel, List.drop_left]

theorem replace_of_not_infix (absent : ¬target <:+: text) :
    replace target replacement text = text := by
  induction text with
  | nil => exact replace_nil
  | cons a rest ih =>
    rw [replace_cons_of_not_isPrefix fun starts => absent starts.isInfix,
      ih fun inside => absent (List.infix_cons inside)]

/-- A beginning in which the second element of the target does not occur is kept. -/
theorem replace_append_of_absent {b : α} {others start : List α} (absent : b ∉ start)
    (apart : text.head? ≠ some b) :
    replace (a :: b :: others) replacement (start ++ text) =
      start ++ replace (a :: b :: others) replacement text := by
  induction start with
  | nil => rfl
  | cons c start ih =>
    have absentLater : b ∉ start := fun later => absent (List.mem_cons_of_mem c later)
    rw [List.cons_append, replace_cons_of_not_isPrefix, ih absentLater, List.cons_append]
    intro starts
    obtain ⟨-, next⟩ := List.cons_prefix_cons.mp starts
    cases start with
    | nil =>
      obtain ⟨d, later, rfl⟩ := List.exists_cons_of_ne_nil (next.ne_nil (by simp))
      exact apart (congrArg some (List.cons_prefix_cons.mp next).1.symm)
    | cons d start =>
      exact absentLater ((List.cons_prefix_cons.mp next).1 ▸ List.mem_cons_self)

/-! ## Deleting the target -/

theorem length_replaceFrom_nil_le (skip : Nat) :
    (replaceFrom target [] skip text).length ≤ text.length := by
  fun_induction replaceFrom target [] skip text with
  | case1 => exact Nat.le_refl _
  | case2 skip a rest ih => exact Nat.le_succ_of_le ih
  | case3 a rest starts ih => exact Nat.le_succ_of_le ih
  | case4 a rest differs ih => exact Nat.succ_le_succ ih

theorem length_replace_nil_lt (nonempty : target ≠ []) (inside : target <:+: text) :
    (replace target [] text).length < text.length := by
  induction text with
  | nil => exact absurd (List.infix_nil.mp inside) nonempty
  | cons a rest ih =>
    by_cases starts : target <+: a :: rest
    · rw [replace, replaceFrom, if_pos (List.isPrefixOf_iff_prefix.mpr starts), List.nil_append]
      exact Nat.lt_succ_of_le (length_replaceFrom_nil_le _)
    · rw [replace_cons_of_not_isPrefix starts]
      exact Nat.succ_lt_succ (ih ((List.infix_cons_iff.mp inside).resolve_left starts))

theorem replace_nil_eq_self_iff (nonempty : target ≠ []) :
    replace target [] text = text ↔ ¬target <:+: text := by
  refine ⟨fun same inside => ?_, replace_of_not_infix⟩
  have shorter := length_replace_nil_lt nonempty inside
  rw [same] at shorter
  exact absurd shorter (Nat.lt_irrefl _)

end Clb.Lib
