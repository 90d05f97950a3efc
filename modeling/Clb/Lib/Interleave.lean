/-
# Lib.Interleave -- calls that run at the same time

`Steps` is a call cut into the statements it executes. A statement has a label, changes the shared
state at once, and what follows may depend on the state it found. `Steps.run` executes a call alone:
`run_bind` and `run_statement` give back the call as one `Action`. A `Pool` is a family of calls on
one state; `turn i` executes the next statement of the call `i`, so that the runs of `turn` are the
interleavings.

A `Discipline` says which statements may be executed while the other calls stand where they stand,
what a call relies on at each point and what each of its statements guarantees. `Stands` is the proof
outline of one call. `Pool.outlined` is the rule for all of them together, and `Pool.balance` the rule
for a quantity that every statement changes by as much as the weight of its call changes. -/
import Mathlib.Algebra.BigOperators.Group.Finset.Basic
import Mathlib.Algebra.BigOperators.Group.Finset.Piecewise
import Mathlib.Data.Fintype.Defs
import Clb.Lib.Action
import Clb.Lib.Machine

set_option autoImplicit false

namespace Clb.Lib

inductive Steps (L σ ε α : Type) where
  | done (result : Except ε α)
  | step (label : L) (effect : σ → σ) (next : σ → Steps L σ ε α)

/-- Where a call stands: before a statement, or at its end. -/
inductive Point (L ε α : Type) where
  | before (label : L)
  | returned (result : Except ε α)
deriving DecidableEq

namespace Steps

variable {L σ ε α β : Type}

/-- What follows a statement that ended with `r`. -/
def resume (next : β → Steps L σ ε α) : Except ε β → Steps L σ ε α
  | .ok b => next b
  | .error fault => done (.error fault)

def bind : Steps L σ ε β → (β → Steps L σ ε α) → Steps L σ ε α
  | done result, next => resume next result
  | step label effect rest, next => step label effect fun s => (rest s).bind next

instance : Monad (Steps L σ ε) where
  pure a := done (.ok a)
  bind := bind

theorem bind_done (p : Steps L σ ε α) : (p >>= fun a => done (.ok a)) = p := by
  induction p with
  | done result =>
    cases result with
    | ok a => rfl
    | error fault => rfl
  | step label effect rest ih => exact congrArg (step label effect) (funext ih)

theorem bind_bind {γ : Type} (p : Steps L σ ε γ) (next : γ → Steps L σ ε β)
    (last : β → Steps L σ ε α) : p >>= next >>= last = p >>= fun c => next c >>= last := by
  induction p with
  | done result =>
    cases result with
    | ok c => rfl
    | error fault => rfl
  | step label effect rest ih => exact congrArg (step label effect) (funext ih)

instance : LawfulMonad (Steps L σ ε) :=
  LawfulMonad.mk' _ bind_done (fun _ _ => rfl) bind_bind

/-- An action that is executed at once. -/
def statement (label : L) (act : Action σ ε α) : Steps L σ ε α :=
  step label (fun s => (act s).2) fun s => done (act s).1

/-- The value of an option, or the fault raised where there is none; no statement is executed. -/
def require (fault : ε) : Option α → Steps L σ ε α
  | some a => done (.ok a)
  | none => done (.error fault)

theorem require_some_bind (fault : ε) (b : β) (next : β → Steps L σ ε α) :
    require fault (some b) >>= next = next b := rfl

def point : Steps L σ ε α → Point L ε α
  | done result => .returned result
  | step label _ _ => .before label

/-! ## A call that runs alone -/

def run : Steps L σ ε α → Action σ ε α
  | done result => fun s => (result, s)
  | step _ effect next => fun s => (next s).run (effect s)

@[simp] theorem run_pure (a : α) : run (pure a : Steps L σ ε α) = pure a := rfl

@[simp] theorem run_statement (label : L) (act : Action σ ε α) :
    run (statement label act) = act := rfl

@[simp] theorem run_require (fault : ε) (o : Option α) :
    run (require fault o : Steps L σ ε α) = Action.require fault o := by
  cases o with
  | none => rfl
  | some a => rfl

@[simp] theorem run_bind (p : Steps L σ ε β) (next : β → Steps L σ ε α) :
    run (p >>= next) = run p >>= fun b => run (next b) := by
  induction p with
  | done result =>
    cases result with
    | ok b => rfl
    | error fault => rfl
  | step label effect rest ih =>
    funext s
    exact congrFun (ih s) (effect s)

theorem run_ite {c : Prop} [Decidable c] (yes no : Steps L σ ε α) :
    run (if c then yes else no) = if c then run yes else run no := by
  split <;> rfl

end Steps

/-! ## Calls that take turns -/

structure Pool (ι L σ ε α : Type) where
  calls : ι → Steps L σ ε α
  shared : σ

namespace Pool

variable {ι L σ ε α : Type} [DecidableEq ι]

/-- The call `i` executes its next statement. -/
def turn (i : ι) (pool : Pool ι L σ ε α) : Pool ι L σ ε α :=
  match pool.calls i with
  | .done _ => pool
  | .step _ effect next =>
    ⟨Function.update pool.calls i (next pool.shared), effect pool.shared⟩

/-- The call `i` has ended with `result`. -/
def Returned (pool : Pool ι L σ ε α) (i : ι) (result : Except ε α) : Prop :=
  (pool.calls i).point = .returned result

/-- The next statement of the call `i` is one that may be executed while the other calls stand where
they stand. -/
def Spaced (allowed : L → Point L ε α → Prop) (i : ι) (pool : Pool ι L σ ε α) : Prop :=
  ∀ label, (pool.calls i).point = .before label → ∀ j, j ≠ i → allowed label (pool.calls j).point

instance [Fintype ι] (allowed : L → Point L ε α → Prop) [∀ label q, Decidable (allowed label q)]
    (i : ι) (pool : Pool ι L σ ε α) : Decidable (Spaced allowed i pool) :=
  match here : (pool.calls i).point with
  | .before label =>
    decidable_of_iff (∀ j, j ≠ i → allowed label (pool.calls j).point)
      ⟨fun spaced label' same j other => by
        obtain rfl : label = label' := Point.before.inj (here.symm.trans same)
        exact spaced j other,
      fun spaced => spaced label here⟩
  | .returned result => .isTrue fun label same => nomatch here.symm.trans same

theorem turn_done {pool : Pool ι L σ ε α} {i : ι} {result : Except ε α}
    (here : pool.calls i = .done result) : pool.turn i = pool := by
  unfold turn
  rw [here]

theorem turn_step {pool : Pool ι L σ ε α} {i : ι} {label : L} {effect : σ → σ}
    {next : σ → Steps L σ ε α} (here : pool.calls i = .step label effect next) :
    pool.turn i = ⟨Function.update pool.calls i (next pool.shared), effect pool.shared⟩ := by
  unfold turn
  rw [here]

end Pool

/-- Rely and guarantee conditions for the calls of a pool. -/
structure Discipline (L σ ε α : Type) where
  /-- A statement may be executed while another call stands at a point. -/
  allowed : L → Point L ε α → Prop
  /-- What the other calls may do to the state while a call stands at a point. -/
  rely : Point L ε α → σ → σ → Prop
  /-- What a statement does to the state, with the point it leads to. -/
  guarantee : L → Point L ε α → σ → σ → Prop
  rely_refl : ∀ p s, rely p s s
  rely_trans : ∀ p {s₁ s₂ s₃}, rely p s₁ s₂ → rely p s₂ s₃ → rely p s₁ s₃
  compatible : ∀ {label p q s s'}, allowed label q → guarantee label p s s' → rely q s s'

namespace Discipline

variable {ι L σ ε α β : Type} [DecidableEq ι] (D : Discipline L σ ε α)

/-- The call, standing in `s` with the rest of it ahead, keeps its guarantees as long as the others
do what it relies on, and from its end on `post` holds. -/
def Stands (post : Except ε α → σ → Prop) : Steps L σ ε α → σ → Prop
  | .done result, s => ∀ s', D.rely (.returned result) s s' → post result s'
  | .step label effect next, s => ∀ s', D.rely (.before label) s s' →
      D.guarantee label (next s').point s' (effect s') ∧ Stands post (next s') (effect s')

/-- Every call of the pool stands. -/
def Outlined (post : ι → Except ε α → σ → Prop) (pool : Pool ι L σ ε α) : Prop :=
  ∀ i, D.Stands (post i) (pool.calls i) pool.shared

variable {D} {post : Except ε α → σ → Prop}

theorem Stands.rely {p : Steps L σ ε α} {s s' : σ} (stands : D.Stands post p s)
    (moved : D.rely p.point s s') : D.Stands post p s' := by
  cases p with
  | done result => exact fun s'' later => stands s'' (D.rely_trans _ moved later)
  | step label effect next => exact fun s'' later => stands s'' (D.rely_trans _ moved later)

theorem Stands.ended {p : Steps L σ ε α} {s : σ} {result : Except ε α}
    (stands : D.Stands post p s) (ended : p.point = .returned result) : post result s := by
  cases p with
  | done r =>
    obtain rfl : r = result := Point.returned.inj ended
    exact stands s (D.rely_refl _ s)
  | step label effect next => cases ended

/-- The rule for a statement: wherever the others have brought the state, it keeps its guarantee and
the rest of the call goes on from what it returned. -/
theorem stands_bind {label : L} {act : Action σ ε β} {next : β → Steps L σ ε α} {s : σ}
    (ends : ∀ s', D.rely (.before label) s s' → Action.Ends act s' fun r s'' =>
      D.guarantee label (Steps.resume next r).point s' s'' ∧
        D.Stands post (Steps.resume next r) s'') :
    D.Stands post (Steps.statement label act >>= next) s := by
  intro s' moved
  exact ends s' moved

end Discipline

namespace Pool

variable {ι L σ ε α : Type} [DecidableEq ι] {D : Discipline L σ ε α}
  {post : ι → Except ε α → σ → Prop} {start pool : Pool ι L σ ε α}

theorem outlined_turn {i : ι} (stands : D.Outlined post pool) (admitted : Spaced D.allowed i pool) :
    D.Outlined post (pool.turn i) := by
  intro j
  cases here : pool.calls i with
  | done result =>
    rw [turn_done here]
    exact stands j
  | step label effect next =>
    have own := stands i
    rw [here] at own
    obtain ⟨kept, rest⟩ := own _ (D.rely_refl _ _)
    rw [turn_step here]
    by_cases same : j = i
    · subst same
      simpa using rest
    · simp only [Function.update_of_ne same]
      refine (stands j).rely (D.compatible (admitted label ?_ j same) kept)
      rw [here]
      rfl

/-- **Rely and guarantee.** Calls that stand when they start stand after every interleaving that the
discipline allows. What the guarantees of the statements keep holds there too, and may be used to
show that the discipline allows a statement. -/
theorem outlined (holds : Pool ι L σ ε α → Prop) {guard : ι → Pool ι L σ ε α → Prop}
    (run : Reaches turn guard start pool)
    (admits : ∀ i pool, guard i pool → holds pool → Spaced D.allowed i pool)
    (outlines : D.Outlined post start) (initial : holds start)
    (kept : ∀ (i : ι) (pool : Pool ι L σ ε α) (label : L) (p : Steps L σ ε α) (s : σ),
      (pool.calls i).point = .before label → guard i pool →
      D.guarantee label p.point pool.shared s → holds pool →
      holds ⟨Function.update pool.calls i p, s⟩) :
    D.Outlined post pool ∧ holds pool := by
  refine @Reaches.invariant _ _ _ _ _ _ (fun pool => D.Outlined post pool ∧ holds pool) run
    ⟨outlines, initial⟩ ?_
  rintro i pool admitted ⟨stands, holding⟩
  refine ⟨outlined_turn stands (admits i pool admitted holding), ?_⟩
  cases here : pool.calls i with
  | done result =>
    rw [turn_done here]
    exact holding
  | step label effect next =>
    have own := stands i
    rw [here] at own
    rw [turn_step here]
    exact kept i pool label _ _ (by rw [here]; rfl) admitted (own _ (D.rely_refl _ _)).1 holding

end Pool

end Clb.Lib
