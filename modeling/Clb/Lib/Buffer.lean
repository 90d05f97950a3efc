/-
# Lib.Buffer -- streams read into buffers

`blit` overwrites a part of a buffer and leaves its length (`length_blit`, `take_blit`). A stream is
the list of the blocks that it delivers. `readBlock len` reads at most `len` elements, and never
beyond the end of a block: what a read returns and what it leaves make up the stream
(`readBlock_flatten`), and the `weight` of the stream goes down (`readBlock_weight`). -/
import Mathlib.Tactic.Common

set_option autoImplicit false

namespace Clb.Lib

variable {α : Type}

/-- The buffer with `data` copied to the position `start`. -/
def blit (buffer : List α) (start : Nat) (data : List α) : List α :=
  buffer.take start ++ data ++ buffer.drop (start + data.length)

section Blit

variable {buffer data : List α} {start : Nat}

theorem length_blit (fits : start + data.length ≤ buffer.length) :
    (blit buffer start data).length = buffer.length := by
  unfold blit
  rw [List.length_append, List.length_append, List.length_take, List.length_drop]
  omega

theorem take_blit (fits : start ≤ buffer.length) :
    (blit buffer start data).take (start + data.length) = buffer.take start ++ data := by
  have front : (buffer.take start ++ data).length = start + data.length := by
    rw [List.length_append, List.length_take, Nat.min_eq_left fits]
  unfold blit
  rw [← front, List.take_left]

end Blit

/-! ## Streams -/

/-- One read of at most `len` elements: what it returns and the stream behind it, or `none` at the
end. -/
def readBlock (len : Nat) : List (List α) → Option (List α × List (List α))
  | [] => none
  | block :: rest =>
    if block.length ≤ len then some (block, rest) else some (block.take len, block.drop len :: rest)

/-- The number of elements and of blocks. -/
def weight (blocks : List (List α)) : Nat := blocks.flatten.length + blocks.length

section ReadBlock

variable {blocks rest : List (List α)} {got : List α} {len : Nat}

theorem readBlock_eq_none : readBlock len blocks = none ↔ blocks = [] := by
  cases blocks with
  | nil => simp [readBlock]
  | cons block rest =>
    rw [readBlock]
    split <;> simp

/-- The two ways to read: a whole block, or the front of one. -/
theorem readBlock_cases (read : readBlock len blocks = some (got, rest)) :
    (blocks = got :: rest ∧ got.length ≤ len) ∨
      ∃ behind more, blocks = (got ++ behind) :: more ∧ got.length = len ∧ behind ≠ [] ∧
        rest = behind :: more := by
  cases blocks with
  | nil => cases read
  | cons block more =>
    rw [readBlock] at read
    split at read
    · rename_i whole
      cases read
      exact .inl ⟨rfl, whole⟩
    · rename_i long
      cases read
      refine .inr ⟨block.drop len, more, by rw [List.take_append_drop], ?_, ?_, rfl⟩
      · rw [List.length_take]
        omega
      · exact fun none_ => long (List.drop_eq_nil_iff.mp none_)

theorem length_readBlock (read : readBlock len blocks = some (got, rest)) : got.length ≤ len := by
  rcases readBlock_cases read with ⟨-, short⟩ | ⟨behind, more, -, full, -⟩
  · exact short
  · exact Nat.le_of_eq full

theorem readBlock_flatten (read : readBlock len blocks = some (got, rest)) :
    got ++ rest.flatten = blocks.flatten := by
  rcases readBlock_cases read with ⟨rfl, -⟩ | ⟨behind, more, rfl, -, -, rfl⟩
  · rfl
  · rw [List.flatten_cons, List.flatten_cons, List.append_assoc]

theorem readBlock_weight (positive : 0 < len) (read : readBlock len blocks = some (got, rest)) :
    weight rest < weight blocks := by
  rcases readBlock_cases read with ⟨rfl, -⟩ | ⟨behind, more, rfl, full, -, rfl⟩
  · simp only [weight, List.flatten_cons, List.length_append, List.length_cons]
    omega
  · simp only [weight, List.flatten_cons, List.length_append, List.length_cons]
    omega

/-- A stream without empty blocks delivers something with every read. -/
theorem readBlock_nonempty (positive : 0 < len) (nonempty : ∀ block ∈ blocks, block ≠ [])
    (read : readBlock len blocks = some (got, rest)) :
    got ≠ [] ∧ ∀ block ∈ rest, block ≠ [] := by
  rcases readBlock_cases read with ⟨rfl, -⟩ | ⟨behind, more, rfl, full, left, rfl⟩
  · exact List.forall_mem_cons.mp nonempty
  · refine ⟨List.ne_nil_of_length_pos (full ▸ positive), ?_⟩
    exact List.forall_mem_cons.mpr ⟨left, (List.forall_mem_cons.mp nonempty).2⟩

end ReadBlock

end Clb.Lib
