/-
# Lib.Fuel -- recursion with a bound on its depth

A function of a source that may call itself without end is run with a bound on the depth of its calls,
and `none` says that the bound was too small. `x.Extends y` says that `y`, which has more fuel, agrees
with `x` wherever `x` has ended; `Extends.bind` carries it through the body of a function.

A run `Settles` on a result if some bound is large enough. Of a steady run the bound does not matter:
`settles_succ` and `settles_bind` are its rules, and no proof about the function needs the fuel. -/
import Mathlib.Tactic.Common

set_option autoImplicit false

namespace Clb.Lib.Fuel

variable {ε α β : Type}

/-- `y` ends as `x` does, if `x` ends. -/
def Extends (x y : ExceptT ε Option α) : Prop := ∀ r, x.run = some r → y.run = some r

theorem Extends.refl {x : ExceptT ε Option α} : Extends x x := fun _ ended => ended

/-- A sequence that has ended: its first part raised an exception, or both parts ended. -/
theorem run_bind_eq_some_iff {x : ExceptT ε Option α} {f : α → ExceptT ε Option β} {r : Except ε β} :
    (x >>= f).run = some r ↔
      (∃ e, x.run = some (.error e) ∧ r = .error e) ∨
        ∃ a, x.run = some (.ok a) ∧ (f a).run = some r := by
  rw [ExceptT.run_bind]
  cases run : x.run with
  | none => simp
  | some result =>
    cases result with
    | ok a => simp
    | error e => simp [eq_comm]

theorem Extends.bind {x y : ExceptT ε Option α} {f g : α → ExceptT ε Option β} (first : Extends x y)
    (second : ∀ a, Extends (f a) (g a)) : Extends (x >>= f) (y >>= g) := by
  intro r ended
  rw [run_bind_eq_some_iff] at ended ⊢
  rcases ended with ⟨e, raised, rfl⟩ | ⟨a, returned, ended⟩
  · exact .inl ⟨e, first _ raised, rfl⟩
  · exact .inr ⟨a, first _ returned, second a r ended⟩

/-- More fuel changes no result. -/
def Steady (x : Nat → ExceptT ε Option α) : Prop := ∀ fuel, Extends (x fuel) (x (fuel + 1))

def Settles (x : Nat → ExceptT ε Option α) (r : Except ε α) : Prop := ∃ fuel, (x fuel).run = some r

variable {x : Nat → ExceptT ε Option α} {f : α → Nat → ExceptT ε Option β} {r r' : Except ε α}

theorem Steady.le (steady : Steady x) {fuel fuel' : Nat} (enough : fuel ≤ fuel') :
    Extends (x fuel) (x fuel') := by
  induction enough with
  | refl => exact .refl
  | step _ ih => exact fun r ended => steady _ r (ih r ended)

theorem Settles.unique (steady : Steady x) (first : Settles x r) (second : Settles x r') : r = r' := by
  obtain ⟨fuel, ended⟩ := first
  obtain ⟨fuel', ended'⟩ := second
  have whole := steady.le (Nat.le_max_left fuel fuel') r ended
  rw [steady.le (Nat.le_max_right fuel fuel') r' ended'] at whole
  exact (Option.some.inj whole).symm

theorem settles_succ (steady : Steady x) : Settles (fun fuel => x (fuel + 1)) r ↔ Settles x r :=
  ⟨fun ⟨fuel, ended⟩ => ⟨fuel + 1, ended⟩, fun ⟨fuel, ended⟩ => ⟨fuel, steady fuel r ended⟩⟩

/-- **Runs one after the other.** The second one is reached if the first one returns a value. -/
theorem settles_bind {out : Except ε β} (steady : Steady x) (steadyNext : ∀ a, Steady (f a)) :
    Settles (fun fuel => x fuel >>= fun a => f a fuel) out ↔
      (∃ e, Settles x (.error e) ∧ out = .error e) ∨ ∃ a, Settles x (.ok a) ∧ Settles (f a) out := by
  constructor
  · rintro ⟨fuel, ended⟩
    rcases run_bind_eq_some_iff.mp ended with ⟨e, raised, rfl⟩ | ⟨a, returned, ended⟩
    · exact .inl ⟨e, ⟨fuel, raised⟩, rfl⟩
    · exact .inr ⟨a, ⟨fuel, returned⟩, ⟨fuel, ended⟩⟩
  · rintro (⟨e, ⟨fuel, raised⟩, rfl⟩ | ⟨a, ⟨fuel, returned⟩, ⟨fuel', ended⟩⟩)
    · exact ⟨fuel, run_bind_eq_some_iff.mpr (.inl ⟨e, raised, rfl⟩)⟩
    · refine ⟨max fuel fuel', run_bind_eq_some_iff.mpr (.inr ⟨a, ?_, ?_⟩)⟩
      · exact steady.le (Nat.le_max_left fuel fuel') _ returned
      · exact (steadyNext a).le (Nat.le_max_right fuel fuel') _ ended

end Clb.Lib.Fuel
