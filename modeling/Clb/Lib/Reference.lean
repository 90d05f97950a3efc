/-
# Lib.Reference -- references without cycles

`refers x y` says that `y` refers to `x`. Only finitely many things are referred to, so following the
references from a thing ends if and only if nothing that is met on the way leads back to itself
(`acc_iff_noCycle`). -/
import Mathlib.Data.Set.Finite.Basic
import Mathlib.Order.WellFounded
import Mathlib.Logic.Relation
import Mathlib.Data.Fintype.Card

set_option autoImplicit false

namespace Clb.Lib

open Relation

variable {α : Type} {refers : α → α → Prop} {a : α}

/-- Nothing that the references from `a` lead to leads back to itself. -/
def NoCycle (refers : α → α → Prop) (a : α) : Prop :=
  ∀ b, ReflTransGen refers b a → ¬TransGen refers b b

theorem acc_of_noCycle (finite : {x | ∃ y, refers x y}.Finite) (acyclic : NoCycle refers a) :
    Acc refers a := by
  -- what is reached from `a`, with the references between its members
  let Reached := {b // ReflTransGen refers b a}
  have reached : {b | ReflTransGen refers b a}.Finite := by
    refine (finite.insert a).subset fun b leads => ?_
    rcases leads.cases_head with rfl | ⟨c, step, -⟩
    · exact Set.mem_insert _ _
    · exact Set.mem_insert_of_mem _ ⟨c, step⟩
  have : Finite Reached := reached
  let below (b c : Reached) : Prop := TransGen refers b.1 c.1
  have : IsTrans Reached below := ⟨fun _ _ _ first second => first.trans second⟩
  have : Std.Irrefl below := ⟨fun b => acyclic b.1 b.2⟩
  have wellFounded : WellFounded below := Finite.wellFounded_of_trans_of_irrefl below
  have all : ∀ b : Reached, Acc refers b.1 := by
    intro b
    induction b using wellFounded.induction with
    | _ b ih => exact ⟨_, fun c step => ih ⟨c, .head step b.2⟩ (.single step)⟩
  exact all ⟨a, .refl⟩

theorem noCycle_of_acc (acc : Acc refers a) : NoCycle refers a := by
  intro b leads
  have accB : Acc (TransGen refers) b := by
    refine Acc.transGen ?_
    induction leads using ReflTransGen.head_induction_on with
    | refl => exact acc
    | head step _ ih => exact ih.inv step
  induction accB with
  | intro b _ ih =>
    intro cycle
    exact ih b cycle leads cycle

theorem acc_iff_noCycle (finite : {x | ∃ y, refers x y}.Finite) : Acc refers a ↔ NoCycle refers a :=
  ⟨noCycle_of_acc, acc_of_noCycle finite⟩

end Clb.Lib
