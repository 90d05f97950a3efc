/-
# Lib.Machine -- runs of a state machine under a guard

`Reaches step guard start s`: a run from `start` leads to `s` in which every label was taken in a
state that its guard admits. `Reaches.append` extends it by a list of labels. `Reaches.invariant` is
the rule for run properties: what holds at the start and is kept by each admitted step holds in every
state reached. -/
import Mathlib.Tactic.Common

set_option autoImplicit false

namespace Clb.Lib

section

variable {σ Label : Type}

inductive Reaches (step : Label → σ → σ) (guard : Label → σ → Prop) (start : σ) : σ → Prop
  | refl : Reaches step guard start start
  | tail {s : σ} (l : Label) (run : Reaches step guard start s) (admitted : guard l s) :
      Reaches step guard start (step l s)

/-- The state after a list of labels. -/
def run (step : Label → σ → σ) (labels : List Label) (s : σ) : σ :=
  labels.foldl (fun s l => step l s) s

/-- Every label of the list is taken in a state that its guard admits. -/
def Admits (step : Label → σ → σ) (guard : Label → σ → Prop) : List Label → σ → Prop
  | [], _ => True
  | l :: rest, s => guard l s ∧ Admits step guard rest (step l s)

instance admitsDecidable (step : Label → σ → σ) (guard : Label → σ → Prop)
    [∀ l s, Decidable (guard l s)] : ∀ labels s, Decidable (Admits step guard labels s)
  | [], _ => .isTrue trivial
  | l :: rest, s =>
    have := admitsDecidable step guard rest (step l s)
    inferInstanceAs (Decidable (guard l s ∧ Admits step guard rest (step l s)))

variable {step : Label → σ → σ} {guard : Label → σ → Prop} {start s : σ}

theorem admits_always (labels : List Label) (s : σ) : Admits step (fun _ _ => True) labels s := by
  induction labels generalizing s with
  | nil => trivial
  | cons l rest ih => exact ⟨trivial, ih _⟩

theorem Reaches.append {labels : List Label} (reached : Reaches step guard start s)
    (admitted : Admits step guard labels s) : Reaches step guard start (run step labels s) := by
  induction labels generalizing s with
  | nil => exact reached
  | cons l rest ih => exact ih (.tail l reached admitted.1) admitted.2

theorem Reaches.invariant {holds : σ → Prop} (run : Reaches step guard start s)
    (initial : holds start) (kept : ∀ l s, guard l s → holds s → holds (step l s)) : holds s := by
  induction run with
  | refl => exact initial
  | tail l _ admitted ih => exact kept l _ admitted ih

/-- A run under a guard is a run under every weaker one. -/
theorem Reaches.mono {weaker : Label → σ → Prop} (run : Reaches step guard start s)
    (implies : ∀ l s, guard l s → weaker l s) : Reaches step weaker start s := by
  induction run with
  | refl => exact .refl
  | tail l _ admitted ih => exact .tail l ih (implies l _ admitted)

end

end Clb.Lib
