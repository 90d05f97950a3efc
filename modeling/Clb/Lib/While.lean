/-
# Lib.While -- while loops on a state

`whileLoop` runs a body as long as a test holds. The local variables that the body assigns are a value
`b` that one turn hands to the next. A bound on the turns makes it a total function, which raises
`exhausted` where the bound was too small. `ends_whileLoop` is the rule of total correctness: an
invariant, and a measure that every turn lowers. A bound above the measure is large enough. -/
import Clb.Lib.Action

set_option autoImplicit false

namespace Clb.Lib.Action

variable {σ ε α β : Type}

def whileLoop (exhausted : ε) (test : β → σ → Bool) (body : β → Action σ ε β) :
    Nat → β → Action σ ε β
  | 0, _ => raise exhausted
  | turns + 1, b => do
      let goesOn ← read (test b)
      if goesOn then do
        let b ← body b
        whileLoop exhausted test body turns b
      else
        pure b

/-- **The rule of while loops.** -/
theorem ends_whileLoop {exhausted : ε} {test : β → σ → Bool} {body : β → Action σ ε β} {b : β} {s : σ}
    {post : Except ε β → σ → Prop} {turns : Nat} (inv : β → σ → Prop) (left : β → σ → Nat)
    (turn : ∀ b s, inv b s → test b s = true →
      Ends (body b) s fun r s' =>
        match r with
        | .ok b' => inv b' s' ∧ left b' s' < left b s
        | .error fault => post (.error fault) s')
    (done : ∀ b s, inv b s → test b s = false → post (.ok b) s)
    (initial : inv b s) (enough : left b s < turns) :
    Ends (whileLoop exhausted test body turns b) s post := by
  induction turns generalizing b s with
  | zero => exact absurd enough (Nat.not_lt_zero _)
  | succ turns ih =>
    refine ends_bind (ends_read ?_)
    cases goesOn : test b s with
    | false => exact ends_pure (done b s initial goesOn)
    | true =>
      refine ends_bind ((turn b s initial goesOn).mono ?_)
      rintro (fault | b') s' ended
      · exact ended
      · exact ih ended.1 (Nat.lt_of_lt_of_le ended.2 (Nat.le_of_lt_succ enough))

end Clb.Lib.Action
