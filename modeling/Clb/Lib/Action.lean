/-
# Lib.Action -- state passing calls that may raise

An `Action σ ε α` reads and writes a state of type `σ` and then returns a value or raises a fault.
There is no transaction around it: what it wrote before raising stays written.

`Ends act s post` says that `act`, started in `s`, ends with an outcome and a state that satisfy
`post`. The rules `ends_bind`, `ends_ite`, `ends_catching` and `ends_within` follow the shape of a
program, so that a proof about a call names only the specifications of the calls it makes. An action
that only reads (`ReadOnly`) hands its state on to what follows it (`ReadOnly.bind_eq`). -/
import Mathlib.Tactic.Common

set_option autoImplicit false

namespace Clb.Lib

variable {τ : Type} {c : Prop}

/-- A call on a state `σ` that returns an `α` or raises an `ε`, in both cases with a last state. -/
def Action (σ ε α : Type) : Type := σ → Except ε α × σ

namespace Action

variable {σ ε α β : Type}

instance : Monad (Action σ ε) where
  pure a := fun s => (.ok a, s)
  bind act next := fun s =>
    match act s with
    | (.ok a, s') => next a s'
    | (.error fault, s') => (.error fault, s')

instance : LawfulMonad (Action σ ε) :=
  LawfulMonad.mk' _
    (fun act => funext fun s => by
      change
        (match act s with
          | (.ok a, s') => (Except.ok a, s')
          | (.error fault, s') => (.error fault, s')) = _
      rcases act s with ⟨_ | _, _⟩ <;> rfl)
    (fun _ _ => rfl)
    (fun act _ _ => funext fun s => by
      simp only [bind]
      rcases act s with ⟨_ | _, _⟩ <;> rfl)

def raise (fault : ε) : Action σ ε α := fun s => (.error fault, s)

def read (f : σ → α) : Action σ ε α := fun s => (.ok (f s), s)

def write (f : σ → σ) : Action σ ε Unit := fun s => (.ok (), f s)

/-- The value of an option, or the fault raised where there is none. -/
def require (fault : ε) : Option α → Action σ ε α
  | some a => pure a
  | none => raise fault

def raiseIf (c : Prop) [Decidable c] (fault : ε) : Action σ ε Unit :=
  if c then raise fault else pure ()

/-- Replace the state by a computed one, or raise and leave it as it was. -/
def attempt (fault : ε) (f : σ → Option (α × σ)) : Action σ ε α := fun s =>
  match f s with
  | some (a, s') => (.ok a, s')
  | none => (.error fault, s)

/-- A `catch` clause that swallows the faults of `handled` and goes on with `fallback`. -/
def catching (handled : ε → Bool) (fallback : α) (act : Action σ ε α) : Action σ ε α := fun s =>
  match act s with
  | (.error fault, s') => if handled fault then (.ok fallback, s') else (.error fault, s')
  | done => done

/-- An action on a part of the state. -/
def within {τ : Type} (get : σ → τ) (put : τ → σ → σ) (act : Action τ ε α) : Action σ ε α := fun s =>
  let out := act (get s)
  (out.1, put out.2 s)

/-- The action with other names for its faults. -/
def mapFault {ε' : Type} (rename : ε → ε') (act : Action σ ε α) : Action σ ε' α := fun s =>
  ((act s).1.mapError rename, (act s).2)

def forEach (body : α → Action σ ε Unit) : List α → Action σ ε Unit
  | [] => pure ()
  | a :: rest => do
      body a
      forEach body rest

section Steps

variable {s s' : σ} {act : Action σ ε β} {next : β → Action σ ε α}

theorem bind_ok {b : β} (returns : act s = (.ok b, s')) : (act >>= next) s = next b s' := by
  simp only [bind, returns]

theorem bind_error {fault : ε} (raises : act s = (.error fault, s')) :
    (act >>= next) s = (.error fault, s') := by
  simp only [bind, raises]

theorem read_bind (f : σ → β) : (read f >>= next) s = next (f s) s := rfl

theorem write_bind (f : σ → σ) (next : Unit → Action σ ε α) :
    ((write f : Action σ ε Unit) >>= next) s = next () (f s) := rfl

theorem require_some_bind (fault : ε) (b : β) :
    ((require fault (some b) : Action σ ε β) >>= next) s = next b s := rfl

theorem require_none_bind (fault : ε) :
    ((require fault none : Action σ ε β) >>= next) s = (.error fault, s) := rfl

theorem raiseIf_pos_bind [Decidable c] {fault : ε} {next : Unit → Action σ ε α} (holds : c) :
    (raiseIf c fault >>= next) s = (.error fault, s) := by
  unfold raiseIf
  rw [if_pos holds]
  rfl

theorem raiseIf_neg_bind [Decidable c] {fault : ε} {next : Unit → Action σ ε α} (fails : ¬c) :
    (raiseIf c fault >>= next) s = next () s := by
  unfold raiseIf
  rw [if_neg fails]
  rfl

/-- A `catch` clause changes the outcome only. -/
theorem snd_catching (handled : ε → Bool) (fallback : α) (act : Action σ ε α) :
    (catching handled fallback act s).2 = (act s).2 := by
  unfold catching
  rcases act s with ⟨fault | _, s'⟩
  · dsimp only
    split <;> rfl
  · rfl

theorem within_eq {get : σ → τ} {put : τ → σ → σ} {act : Action τ ε α}
    {r : Except ε α} {part : τ} (ends : act (get s) = (r, part)) :
    within get put act s = (r, put part s) := by
  simp only [within, ends]

/-- A sequence on a part of the state, statement by statement. -/
theorem within_bind {get : σ → τ} {put : τ → σ → σ} {act : Action τ ε β}
    {next : β → Action τ ε α} (get_put : ∀ t s, get (put t s) = t)
    (put_put : ∀ t t' s, put t' (put t s) = put t' s) :
    within get put (act >>= next) = within get put act >>= fun b => within get put (next b) := by
  funext s
  simp only [within, bind]
  rcases act (get s) with ⟨_ | _, t⟩
  · rfl
  · simp only [get_put, put_put]

end Steps

/-- The outcome and the last state of `act` from `s` satisfy `post`. -/
def Ends (act : Action σ ε α) (s : σ) (post : Except ε α → σ → Prop) : Prop :=
  post (act s).1 (act s).2

section Rules

variable {s : σ} {post : Except ε α → σ → Prop}

theorem Ends.mono {act : Action σ ε α} {weaker : Except ε α → σ → Prop}
    (ends : Ends act s post) (implies : ∀ r s', post r s' → weaker r s') :
    Ends act s weaker :=
  implies _ _ ends

theorem eq_of_ends {act : Action σ ε α} {r : Except ε α} {s' : σ}
    (ends : Ends act s fun r₁ s₁ => r₁ = r ∧ s₁ = s') : act s = (r, s') :=
  Prod.ext ends.1 ends.2

theorem Ends.apply {act : Action σ ε α} {r : Except ε α} {s' : σ} (ends : Ends act s post)
    (same : act s = (r, s')) : post r s' := by
  unfold Ends at ends
  rw [same] at ends
  exact ends

theorem ends_of_eq {act : Action σ ε α} {r : Except ε α} {s' : σ} (ends : act s = (r, s'))
    (holds : post r s') : Ends act s post := by
  unfold Ends
  rw [ends]
  exact holds

/-- What holds of every outcome holds of the one there is. -/
theorem ends_any {act : Action σ ε α} (always : ∀ r s', post r s') : Ends act s post :=
  always _ _

theorem ends_pure {a : α} (holds : post (.ok a) s) :
    Ends (pure a : Action σ ε α) s post :=
  holds

theorem ends_raise {fault : ε} (holds : post (.error fault) s) :
    Ends (raise fault : Action σ ε α) s post :=
  holds

theorem ends_read {f : σ → α} (holds : post (.ok (f s)) s) :
    Ends (read f : Action σ ε α) s post :=
  holds

theorem ends_write {f : σ → σ} {post : Except ε Unit → σ → Prop} (holds : post (.ok ()) (f s)) :
    Ends (write f : Action σ ε Unit) s post :=
  holds

theorem ends_require {fault : ε} {o : Option α} (found : ∀ a, o = some a → post (.ok a) s)
    (missing : o = none → post (.error fault) s) :
    Ends (require fault o : Action σ ε α) s post := by
  cases o with
  | none => exact missing rfl
  | some a => exact found a rfl

theorem ends_attempt {fault : ε} {f : σ → Option (α × σ)}
    (done : ∀ a s', f s = some (a, s') → post (.ok a) s')
    (refused : f s = none → post (.error fault) s) :
    Ends (attempt fault f : Action σ ε α) s post := by
  unfold Ends attempt
  cases h : f s with
  | none => exact refused h
  | some out => exact done out.1 out.2 h

/-- The rule of sequencing: the next action starts where the first one returned, and a fault of the
first one ends the whole. -/
theorem ends_bind {act : Action σ ε β} {next : β → Action σ ε α}
    (ends : Ends act s fun r s' =>
      match r with
      | .ok b => Ends (next b) s' post
      | .error fault => post (.error fault) s') :
    Ends (act >>= next) s post := by
  change post ((act >>= next) s).1 ((act >>= next) s).2
  have unfolded : (act >>= next) s =
      match act s with
      | (.ok b, s') => next b s'
      | (.error fault, s') => (.error fault, s') := rfl
  rw [unfolded]
  unfold Ends at ends
  revert ends
  rcases act s with ⟨r, s'⟩
  cases r with
  | ok b => exact fun ends => ends
  | error fault => exact fun ends => ends

theorem ends_ite [Decidable c] {yes no : Action σ ε α}
    (then_ : c → Ends yes s post) (else_ : ¬c → Ends no s post) :
    Ends (if c then yes else no) s post := by
  split
  · exact then_ ‹_›
  · exact else_ ‹_›

theorem ends_raiseIf [Decidable c] {fault : ε} {post : Except ε Unit → σ → Prop}
    (raised : c → post (.error fault) s) (passed : ¬c → post (.ok ()) s) :
    Ends (raiseIf c fault : Action σ ε Unit) s post :=
  ends_ite (fun h => ends_raise (raised h)) fun h => ends_pure (passed h)

theorem ends_catching {handled : ε → Bool} {fallback : α} {act : Action σ ε α}
    (ends : Ends act s fun r s' =>
      match r with
      | .ok a => post (.ok a) s'
      | .error fault =>
        if handled fault = true then post (.ok fallback) s' else post (.error fault) s') :
    Ends (catching handled fallback act) s post := by
  unfold Ends at ends ⊢
  unfold catching
  revert ends
  rcases act s with ⟨r, s'⟩
  cases r with
  | ok a => exact fun ends => ends
  | error fault =>
    intro ends
    cases caught : handled fault with
    | true => simpa [caught] using ends
    | false => simpa [caught] using ends

theorem ends_within {get : σ → τ} {put : τ → σ → σ} {act : Action τ ε α}
    (ends : Ends act (get s) fun r part => post r (put part s)) :
    Ends (within get put act) s post :=
  ends

/-- The rule of loops: what each turn keeps holds after the loop, also where a fault ends it. -/
theorem ends_forEach {body : α → Action σ ε Unit} {holds : σ → Prop} {items : List α}
    (each : ∀ a ∈ items, ∀ s, holds s → Ends (body a) s fun _ s' => holds s') (initial : holds s) :
    Ends (forEach body items) s fun _ s' => holds s' := by
  induction items generalizing s with
  | nil => exact ends_pure initial
  | cons a rest ih =>
    refine ends_bind ((each a List.mem_cons_self s initial).mono ?_)
    rintro (fault | _) s' kept
    · exact kept
    · exact ih (fun b member => each b (List.mem_cons_of_mem a member)) kept

end Rules

/-! ## Actions that only read -/

/-- The action leaves every state as it is. -/
def ReadOnly (act : Action σ ε α) : Prop := ∀ s, (act s).2 = s

section ReadOnly

variable {act : Action σ ε β} {next : β → Action σ ε α} {s : σ}

theorem readOnly_pure (a : α) : ReadOnly (pure a : Action σ ε α) := fun _ => rfl

theorem readOnly_raise (fault : ε) : ReadOnly (raise fault : Action σ ε α) := fun _ => rfl

theorem readOnly_read (f : σ → α) : ReadOnly (read f : Action σ ε α) := fun _ => rfl

theorem readOnly_require (fault : ε) (o : Option α) : ReadOnly (require fault o : Action σ ε α) := by
  cases o with
  | none => exact readOnly_raise fault
  | some a => exact readOnly_pure a

theorem readOnly_raiseIf (c : Prop) [Decidable c] (fault : ε) :
    ReadOnly (raiseIf c fault : Action σ ε Unit) := by
  unfold raiseIf
  split
  · exact readOnly_raise fault
  · exact readOnly_pure ()

theorem readOnly_within {get : σ → τ} {put : τ → σ → σ} {act : Action τ ε α}
    (readOnly : ReadOnly act) (put_get : ∀ s, put (get s) s = s) :
    ReadOnly (within get put act) := by
  intro s
  change put (act (get s)).2 s = s
  rw [readOnly, put_get]

/-- What follows an action that only reads starts in the same state. -/
theorem ReadOnly.bind_eq (readOnly : ReadOnly act) :
    (act >>= next) s =
      match (act s).1 with
      | .ok b => next b s
      | .error fault => (.error fault, s) := by
  have same := readOnly s
  change (match act s with
    | (.ok b, s') => next b s'
    | (.error fault, s') => (.error fault, s')) = _
  revert same
  rcases act s with ⟨_ | _, s'⟩
  · rintro rfl
    rfl
  · rintro rfl
    rfl

theorem ReadOnly.bind (readOnly : ReadOnly act) (readOnly' : ∀ b, ReadOnly (next b)) :
    ReadOnly (act >>= next) := by
  intro s
  rw [readOnly.bind_eq]
  split
  · exact readOnly' _ s
  · rfl

theorem ReadOnly.ends {act : Action σ ε α} {post : Except ε α → σ → Prop} (readOnly : ReadOnly act)
    (holds : post (act s).1 s) : Ends act s post := by
  unfold Ends
  rw [readOnly]
  exact holds

/-- A sequence that begins with a reading action answers the same in two states in which its parts do. -/
theorem ReadOnly.bind_congr {s' : σ} (readOnly : ReadOnly act) (first : (act s').1 = (act s).1)
    (rest : ∀ b, (next b s').1 = (next b s).1) : ((act >>= next) s').1 = ((act >>= next) s).1 := by
  rw [readOnly.bind_eq, readOnly.bind_eq, first]
  cases (act s).1 with
  | ok b => exact rest b
  | error fault => rfl

/-- The rule of sequencing after an action that only reads. -/
theorem ReadOnly.ends_bind {post : Except ε α → σ → Prop} (readOnly : ReadOnly act)
    (returned : ∀ b, (act s).1 = .ok b → Ends (next b) s post)
    (raised : ∀ fault, (act s).1 = .error fault → post (.error fault) s) :
    Ends (act >>= next) s post := by
  refine Action.ends_bind (readOnly.ends ?_)
  split
  · exact returned _ ‹_›
  · exact raised _ ‹_›

end ReadOnly

end Action

end Clb.Lib
