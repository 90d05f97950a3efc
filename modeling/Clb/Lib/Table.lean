/-
# Lib.Table -- tables with a numbered primary key

A `Table` is the list of its rows in the order of insertion and the number the next row receives.
Rows are inserted at the end, updated in place and deleted by a condition. `Numbered` says that the
rows carry pairwise different numbers below the next one; every operation keeps it
(`Numbered.insert`, `Numbered.update`, `Numbered.delete`), and under it an update that names the
number of a row changes that row only (`Numbered.update_eq_replace`). `valuesAt` reads a table as a
set of values for each key, with an equation for each operation. -/
import Mathlib.Data.List.Nodup
import Mathlib.Data.Set.Basic

set_option autoImplicit false

namespace Clb.Lib

/-- An entry is found by its key, if the keys are distinct. -/
theorem find?_key {α κ : Type} [BEq κ] [LawfulBEq κ] {key : α → κ} {entries : List α} {x : α}
    (distinct : (entries.map key).Nodup) (member : x ∈ entries) :
    entries.find? (fun y => key y == key x) = some x := by
  have present : (entries.find? fun y => key y == key x).isSome = true :=
    List.find?_isSome.mpr ⟨x, member, beq_self_eq_true _⟩
  obtain ⟨y, found⟩ := Option.isSome_iff_exists.mp present
  have same : key y = key x := by simpa using List.find?_some found
  rw [found, List.inj_on_of_nodup_map distinct (List.mem_of_find?_eq_some found) member same]

structure Table (R : Type) where
  rows : List R
  next : Int

namespace Table

variable {R : Type}

def empty : Table R := ⟨[], 1⟩

def insert (withId : Int → R → R) (r : R) (t : Table R) : Table R :=
  ⟨t.rows ++ [withId t.next r], t.next + 1⟩

def update (selected : R → Bool) (edit : R → R) (t : Table R) : Table R :=
  { t with rows := t.rows.map fun r => if selected r then edit r else r }

def delete (selected : R → Bool) (t : Table R) : Table R :=
  { t with rows := t.rows.filter fun r => !selected r }

/-- The row of the same number as `row` becomes `new`. -/
def replace (ident : R → Int) (row new : R) (t : Table R) : Table R :=
  t.update (fun r => ident r == ident row) fun _ => new

@[simp] theorem rows_empty : (empty : Table R).rows = [] := rfl

@[simp] theorem rows_insert (withId : Int → R → R) (r : R) (t : Table R) :
    (t.insert withId r).rows = t.rows ++ [withId t.next r] := rfl

@[simp] theorem rows_update (selected : R → Bool) (edit : R → R) (t : Table R) :
    (t.update selected edit).rows = t.rows.map fun r => if selected r then edit r else r := rfl

@[simp] theorem rows_delete (selected : R → Bool) (t : Table R) :
    (t.delete selected).rows = t.rows.filter fun r => !selected r := rfl

theorem mem_update {selected : R → Bool} {edit : R → R} {t : Table R} {r : R} :
    r ∈ (t.update selected edit).rows ↔
      (∃ old ∈ t.rows, selected old = true ∧ edit old = r) ∨ (r ∈ t.rows ∧ selected r = false) := by
  simp only [rows_update, List.mem_map]
  constructor
  · rintro ⟨old, member, rfl⟩
    cases h : selected old with
    | true => exact .inl ⟨old, member, h, by simp⟩
    | false => exact .inr ⟨by simpa using member, by simpa using h⟩
  · rintro (⟨old, member, h, rfl⟩ | ⟨member, h⟩)
    · exact ⟨old, member, by simp [h]⟩
    · exact ⟨r, member, by simp [h]⟩

/-- A condition that an update does not touch selects the same rows before and after it. -/
theorem filter_update {p selected : R → Bool} {edit : R → R} {t : Table R}
    (keeps : ∀ r ∈ t.rows, selected r = true → p (edit r) = p r) :
    (t.update selected edit).rows.filter p =
      (t.rows.filter p).map fun r => if selected r then edit r else r := by
  rw [rows_update, List.filter_map]
  refine congrArg _ (List.filter_congr fun r member => ?_)
  cases h : selected r with
  | true => simpa [h] using keeps r member h
  | false => simp [h]

/-- A condition that no updated row meets, before or after, selects the same rows. -/
theorem filter_update_apart {p selected : R → Bool} {edit : R → R} {t : Table R}
    (apart : ∀ r ∈ t.rows, selected r = true → p r = false ∧ p (edit r) = false) :
    (t.update selected edit).rows.filter p = t.rows.filter p := by
  rw [filter_update fun r member chosen => by rw [(apart r member chosen).1, (apart r member chosen).2]]
  refine (List.map_congr_left fun r member => ?_).trans (List.map_id _)
  obtain ⟨inside, holds⟩ := List.mem_filter.mp member
  refine if_neg fun chosen => ?_
  rw [(apart r inside chosen).1] at holds
  cases holds

theorem filter_insert_apart {p : R → Bool} {withId : Int → R → R} {t : Table R} {r : R}
    (apart : p (withId t.next r) = false) : (t.insert withId r).rows.filter p = t.rows.filter p := by
  simp [apart]

/-! ## Properties of all rows -/

theorem forall_mem_insert {P : R → Prop} {withId : Int → R → R} {t : Table R} {r : R}
    (old : ∀ row ∈ t.rows, P row) (new : P (withId t.next r)) :
    ∀ row ∈ (t.insert withId r).rows, P row := by
  intro row member
  rcases List.mem_append.mp member with inside | last
  · exact old row inside
  · rw [List.mem_singleton.mp last]
    exact new

theorem forall_mem_update {P : R → Prop} {selected : R → Bool} {edit : R → R} {t : Table R}
    (old : ∀ row ∈ t.rows, P row) (kept : ∀ row ∈ t.rows, P row → P (edit row)) :
    ∀ row ∈ (t.update selected edit).rows, P row := by
  intro row member
  rcases mem_update.mp member with ⟨before, inside, -, rfl⟩ | ⟨inside, -⟩
  · exact kept before inside (old before inside)
  · exact old row inside

theorem forall_mem_replace {P : R → Prop} {ident : R → Int} {row new : R} {t : Table R}
    (old : ∀ r ∈ t.rows, P r) (written : P new) : ∀ r ∈ (t.replace ident row new).rows, P r :=
  forall_mem_update old fun _ _ _ => written

theorem mem_delete {selected : R → Bool} {t : Table R} {r : R} :
    r ∈ (t.delete selected).rows ↔ r ∈ t.rows ∧ ¬selected r = true := by
  simp [delete]

/-- A condition that no deleted row meets selects the same rows. -/
theorem filter_delete {p selected : R → Bool} {t : Table R}
    (apart : ∀ r ∈ t.rows, selected r = true → p r = false) :
    (t.delete selected).rows.filter p = t.rows.filter p := by
  rw [rows_delete, List.filter_filter]
  refine List.filter_congr fun r member => ?_
  cases chosen : selected r with
  | true => rw [apart r member chosen]; rfl
  | false => rw [Bool.not_false, Bool.and_true]

theorem forall_mem_delete {P : R → Prop} {selected : R → Bool} {t : Table R}
    (old : ∀ row ∈ t.rows, P row) : ∀ row ∈ (t.delete selected).rows, P row :=
  fun row member => old row (List.mem_of_mem_filter member)

/-- No two rows agree in the columns of `key`. -/
def UniqueBy {K : Type} (key : R → K) (t : Table R) : Prop :=
  ∀ a ∈ t.rows, ∀ b ∈ t.rows, key a = key b → a = b

namespace UniqueBy

variable {K : Type} {key : R → K} {t : Table R}

theorem empty : UniqueBy key (Table.empty : Table R) := by
  intro a member
  cases member

theorem insert {withId : Int → R → R} {r : R} (unique : t.UniqueBy key)
    (free : ∀ a ∈ t.rows, key a ≠ key (withId t.next r)) : (t.insert withId r).UniqueBy key := by
  intro a memberA b memberB equal
  rcases List.mem_append.mp memberA with insideA | lastA
  · rcases List.mem_append.mp memberB with insideB | lastB
    · exact unique a insideA b insideB equal
    · rw [List.mem_singleton.mp lastB] at equal
      exact absurd equal (free a insideA)
  · rw [List.mem_singleton.mp lastA] at equal ⊢
    rcases List.mem_append.mp memberB with insideB | lastB
    · exact absurd equal.symm (free b insideB)
    · exact (List.mem_singleton.mp lastB).symm

/-- An update that leaves the columns of `key` alone. -/
theorem update {selected : R → Bool} {edit : R → R} (unique : t.UniqueBy key)
    (kept : ∀ row ∈ t.rows, selected row = true → key (edit row) = key row) :
    (t.update selected edit).UniqueBy key := by
  have image : ∀ r ∈ (t.update selected edit).rows, ∃ r₀ ∈ t.rows,
      key r₀ = key r ∧ r = if selected r₀ then edit r₀ else r₀ := by
    intro r member
    obtain ⟨r₀, inside, rfl⟩ := List.mem_map.mp member
    refine ⟨r₀, inside, ?_, rfl⟩
    split
    · rename_i chosen
      exact (kept r₀ inside chosen).symm
    · rfl
  intro a memberA b memberB equal
  obtain ⟨a₀, insideA, keyA, formA⟩ := image a memberA
  obtain ⟨b₀, insideB, keyB, formB⟩ := image b memberB
  rw [formA, formB, unique a₀ insideA b₀ insideB (by rw [keyA, keyB, equal])]

theorem delete {selected : R → Bool} (unique : t.UniqueBy key) :
    (t.delete selected).UniqueBy key :=
  fun a memberA b memberB =>
    unique a (List.mem_of_mem_filter memberA) b (List.mem_of_mem_filter memberB)

end UniqueBy

/-- Rows carry pairwise different positive numbers below the next one. -/
structure Numbered (ident : R → Int) (t : Table R) : Prop where
  positive : ∀ r ∈ t.rows, 0 < ident r
  below : ∀ r ∈ t.rows, ident r < t.next
  next_pos : 0 < t.next
  distinct : (t.rows.map ident).Nodup

namespace Numbered

variable {ident : R → Int} {t : Table R}

theorem empty : Numbered ident (Table.empty : Table R) :=
  ⟨by simp, by simp, Int.one_pos, by simp⟩

theorem eq_of_ident_eq (numbered : Numbered ident t) {r r' : R} (member : r ∈ t.rows)
    (member' : r' ∈ t.rows) (same : ident r = ident r') : r = r' :=
  List.inj_on_of_nodup_map numbered.distinct member member' same

theorem insert {withId : Int → R → R} (numbered : Numbered ident t)
    (assigned : ∀ n r, ident (withId n r) = n) (r : R) : Numbered ident (t.insert withId r) where
  positive := by
    intro r' member
    rcases List.mem_append.mp member with old | new
    · exact numbered.positive r' old
    · rw [List.mem_singleton.mp new, assigned]
      exact numbered.next_pos
  below := by
    intro r' member
    rcases List.mem_append.mp member with old | new
    · exact Int.lt_trans (numbered.below r' old) (Int.lt_succ _)
    · rw [List.mem_singleton.mp new, assigned]
      exact Int.lt_succ _
  next_pos := Int.lt_trans numbered.next_pos (Int.lt_succ _)
  distinct := by
    rw [rows_insert, List.map_append, List.nodup_append]
    refine ⟨numbered.distinct, by simp, ?_⟩
    intro n old n' new same
    obtain ⟨r', member, rfl⟩ := List.mem_map.mp old
    simp only [List.map_cons, List.map_nil, List.mem_singleton, assigned] at new
    have := numbered.below r' member
    omega

/-- Only the numbers of the rows matter. -/
theorem of_map_eq {t' : Table R} (numbered : Numbered ident t)
    (same : t'.rows.map ident = t.rows.map ident) (next : t'.next = t.next) : Numbered ident t' := by
  have within : ∀ r ∈ t'.rows, ∃ old ∈ t.rows, ident old = ident r := by
    intro r member
    have : ident r ∈ t.rows.map ident := same ▸ List.mem_map_of_mem member
    exact List.mem_map.mp this
  refine ⟨?_, ?_, next ▸ numbered.next_pos, same ▸ numbered.distinct⟩
  · intro r member
    obtain ⟨old, memberOld, h⟩ := within r member
    exact h ▸ numbered.positive old memberOld
  · intro r member
    obtain ⟨old, memberOld, h⟩ := within r member
    rw [next]
    exact h ▸ numbered.below old memberOld

theorem update {selected : R → Bool} {edit : R → R} (numbered : Numbered ident t)
    (keeps : ∀ r, ident (edit r) = ident r) : Numbered ident (t.update selected edit) := by
  have same : (t.update selected edit).rows.map ident = t.rows.map ident := by
    rw [rows_update, List.map_map]
    refine List.map_congr_left fun r _ => ?_
    change ident (if selected r then edit r else r) = ident r
    split
    · exact keeps r
    · rfl
  exact numbered.of_map_eq same rfl

theorem delete {selected : R → Bool} (numbered : Numbered ident t) :
    Numbered ident (t.delete selected) :=
  ⟨fun r member => numbered.positive r (List.mem_of_mem_filter member),
    fun r member => numbered.below r (List.mem_of_mem_filter member), numbered.next_pos,
    numbered.distinct.sublist (List.filter_sublist.map ident)⟩

theorem ident_ne (numbered : Numbered ident t) {r row : R} (member : r ∈ t.rows)
    (memberRow : row ∈ t.rows) (other : r ≠ row) : ident r ≠ ident row :=
  fun same => other (numbered.eq_of_ident_eq member memberRow same)

/-- A condition that holds neither for a row nor for what replaces it selects the same rows. -/
theorem filter_replace {p : R → Bool} {row new : R} (numbered : Numbered ident t) (member : row ∈ t.rows)
    (before : p row = false) (after : p new = false) :
    (t.replace ident row new).rows.filter p = t.rows.filter p := by
  unfold Table.replace
  have chosen : ∀ r ∈ t.rows, (ident r == ident row) = true → r = row := fun r inside same =>
    numbered.eq_of_ident_eq inside member (by simpa using same)
  rw [filter_update fun r inside same => by rw [chosen r inside same, before, after]]
  conv_rhs => rw [← List.map_id (t.rows.filter p)]
  refine List.map_congr_left fun r inside => ?_
  obtain ⟨inRows, holds⟩ := List.mem_filter.mp inside
  rw [if_neg]
  · rfl
  · intro same
    rw [chosen r inRows same, before] at holds
    cases holds

/-- An update by number rewrites the row of that number and no other. -/
theorem update_eq_replace {edit : R → R} (numbered : Numbered ident t) {row : R}
    (member : row ∈ t.rows) :
    t.update (fun r => ident r == ident row) edit = t.replace ident row (edit row) := by
  unfold Table.replace Table.update
  congr 1
  refine List.map_congr_left fun r memberR => ?_
  split
  · rename_i same
    rw [numbered.eq_of_ident_eq memberR member (by simpa using same)]
  · rfl

theorem mem_replace (numbered : Numbered ident t) {row new r : R} (member : row ∈ t.rows) :
    r ∈ (t.replace ident row new).rows ↔ r = new ∨ (r ∈ t.rows ∧ r ≠ row) := by
  unfold Table.replace
  rw [mem_update]
  constructor
  · rintro (⟨old, memberOld, same, rfl⟩ | ⟨memberR, other⟩)
    · exact .inl rfl
    · exact .inr ⟨memberR, by rintro rfl; simp at other⟩
  · rintro (rfl | ⟨memberR, other⟩)
    · exact .inl ⟨row, member, by simp, rfl⟩
    · exact .inr ⟨memberR, by simpa using numbered.ident_ne memberR member other⟩

/-- An update of one row changes a count by that row. -/
theorem countP_update {selected : R → Bool} {edit : R → R} (numbered : Numbered ident t) {row : R}
    (member : row ∈ t.rows) (only : ∀ r ∈ t.rows, selected r = true ↔ r = row) (p : R → Bool) :
    (t.update selected edit).rows.countP p + (if p row then 1 else 0) =
      t.rows.countP p + (if p (edit row) then 1 else 0) := by
  have distinct : t.rows.Nodup := List.Nodup.of_map ident numbered.distinct
  obtain ⟨before, after, split⟩ := List.append_of_mem member
  rw [rows_update]
  rw [split] at only distinct ⊢
  obtain ⟨-, rest, apart⟩ := List.nodup_append.mp distinct
  have notAfter : row ∉ after := (List.nodup_cons.mp rest).1
  have unchanged : ∀ l : List R, (∀ r ∈ l, r ∈ before ++ row :: after ∧ r ≠ row) →
      (l.map fun r => if selected r then edit r else r) = l := by
    intro l others
    conv_rhs => rw [← List.map_id l]
    refine List.map_congr_left fun r inside => ?_
    obtain ⟨memberR, other⟩ := others r inside
    rw [if_neg fun chosen => other ((only r memberR).mp chosen)]
    rfl
  have chosen : selected row = true := (only row (by simp)).mpr rfl
  rw [List.map_append, List.map_cons, if_pos chosen, unchanged before, unchanged after,
    List.countP_append, List.countP_append, List.countP_cons, List.countP_cons]
  · omega
  · intro r inside
    exact ⟨by simp [inside], by rintro rfl; exact notAfter inside⟩
  · intro r inside
    exact ⟨by simp [inside], apart r inside row List.mem_cons_self⟩

/-- Replacing the row just inserted is inserting the other row. -/
theorem replace_insert {withId : Int → R → R} (numbered : Numbered ident t)
    (assigned : ∀ n r, ident (withId n r) = n) (r r' : R) :
    (t.insert withId r).replace ident (withId t.next r) (withId t.next r') = t.insert withId r' := by
  have others : (t.rows.map fun row =>
      if ident row == ident (withId t.next r) then withId t.next r' else row) = t.rows := by
    conv_rhs => rw [← List.map_id t.rows]
    refine List.map_congr_left fun row member => ?_
    have below := numbered.below row member
    rw [assigned, if_neg]
    · rfl
    · simp only [beq_iff_eq]
      omega
  unfold Table.replace Table.update Table.insert
  simp only [List.map_append, others, List.map_cons, List.map_nil, beq_self_eq_true, if_true]

/-- Replacing a row by one of the same key. -/
theorem unique_replace {K : Type} {key : R → K} {row new : R} (numbered : Numbered ident t)
    (unique : t.UniqueBy key) (member : row ∈ t.rows) (kept : key new = key row) :
    (t.replace ident row new).UniqueBy key := by
  refine unique.update fun r memberR chosen => ?_
  rw [numbered.eq_of_ident_eq memberR member (by simpa using chosen)]
  exact kept

theorem replace {row new : R} (numbered : Numbered ident t) (same : ident new = ident row) :
    Numbered ident (t.replace ident row new) := by
  have unchanged : (t.replace ident row new).rows.map ident = t.rows.map ident := by
    unfold Table.replace
    rw [rows_update, List.map_map]
    refine List.map_congr_left fun r _ => ?_
    change ident (if ident r == ident row then new else r) = ident r
    split
    · rename_i selected
      rw [same]
      exact (by simpa using selected : ident r = ident row).symm
    · rfl
  exact numbered.of_map_eq unchanged rfl

end Numbered

/-! ## The values of the rows with a key -/

section Values

variable {K V : Type} {key : R → K} {value : R → V} {k : K} {t : Table R}

/-- The values of the rows with key `k`. -/
def valuesAt (key : R → K) (value : R → V) (k : K) (t : Table R) : Set V :=
  { v | ∃ r ∈ t.rows, key r = k ∧ value r = v }

theorem valuesAt_eq_empty_iff : t.valuesAt key value k = ∅ ↔ ∀ r ∈ t.rows, key r ≠ k := by
  refine Set.eq_empty_iff_forall_notMem.trans ⟨fun none_ r member same => ?_, ?_⟩
  · exact none_ (value r) ⟨r, member, same, rfl⟩
  · rintro none_ v ⟨r, member, same, -⟩
    exact none_ r member same

theorem valuesAt_empty : (empty : Table R).valuesAt key value k = ∅ :=
  valuesAt_eq_empty_iff.mpr fun _ member => absurd member List.not_mem_nil

theorem valuesAt_insert_self {withId : Int → R → R} {r : R} (sameKey : key (withId t.next r) = k)
    (sameValue : value (withId t.next r) = value r) :
    (t.insert withId r).valuesAt key value k = Insert.insert (value r) (t.valuesAt key value k) := by
  ext v
  constructor
  · rintro ⟨row, member, same, rfl⟩
    rcases List.mem_append.mp member with old | new
    · exact .inr ⟨row, old, same, rfl⟩
    · rw [List.mem_singleton.mp new]
      exact .inl sameValue
  · rintro (rfl | ⟨row, member, same, rfl⟩)
    · exact ⟨_, List.mem_append_right _ (List.mem_singleton_self _), sameKey, sameValue⟩
    · exact ⟨row, List.mem_append_left _ member, same, rfl⟩

theorem valuesAt_insert_ne {withId : Int → R → R} {r : R} (other : key (withId t.next r) ≠ k) :
    (t.insert withId r).valuesAt key value k = t.valuesAt key value k := by
  ext v
  constructor
  · rintro ⟨row, member, same, rfl⟩
    rcases List.mem_append.mp member with old | new
    · exact ⟨row, old, same, rfl⟩
    · rw [List.mem_singleton.mp new] at same
      exact absurd same other
  · rintro ⟨row, member, same, rfl⟩
    exact ⟨row, List.mem_append_left _ member, same, rfl⟩

/-- An update that keeps keys and values. -/
theorem valuesAt_update {selected : R → Bool} {edit : R → R} (sameKey : ∀ r, key (edit r) = key r)
    (sameValue : ∀ r, value (edit r) = value r) :
    (t.update selected edit).valuesAt key value k = t.valuesAt key value k := by
  ext v
  constructor
  · rintro ⟨row, member, same, rfl⟩
    rcases mem_update.mp member with ⟨old, inside, -, rfl⟩ | ⟨inside, -⟩
    · exact ⟨old, inside, (sameKey old).symm.trans same, (sameValue old).symm⟩
    · exact ⟨row, inside, same, rfl⟩
  · rintro ⟨row, member, same, rfl⟩
    refine ⟨_, List.mem_map.mpr ⟨row, member, rfl⟩, ?_⟩
    split
    · exact ⟨(sameKey row).trans same, sameValue row⟩
    · exact ⟨same, rfl⟩

/-- An update that gives the rows with a key one value. -/
theorem valuesAt_update_self {selected : R → Bool} {edit : R → R} {v₀ : V}
    (sameKey : ∀ r, key (edit r) = key r) (newValue : ∀ r, value (edit r) = v₀)
    (selects : ∀ r, key r = k → selected r = true) :
    (t.update selected edit).valuesAt key value k =
      { v | v = v₀ ∧ (t.valuesAt key value k).Nonempty } := by
  ext v
  constructor
  · rintro ⟨row, member, same, rfl⟩
    rcases mem_update.mp member with ⟨old, inside, -, rfl⟩ | ⟨inside, unselected⟩
    · exact ⟨newValue old, value old, old, inside, (sameKey old).symm.trans same, rfl⟩
    · rw [selects row same] at unselected
      cases unselected
  · rintro ⟨rfl, _, row, member, same, -⟩
    refine ⟨edit row, mem_update.mpr (.inl ⟨row, member, selects row same, rfl⟩), ?_, newValue row⟩
    exact (sameKey row).trans same

theorem valuesAt_update_ne {selected : R → Bool} {edit : R → R}
    (sameKey : ∀ r, key (edit r) = key r) (spares : ∀ r, key r = k → selected r = false) :
    (t.update selected edit).valuesAt key value k = t.valuesAt key value k := by
  ext v
  constructor
  · rintro ⟨row, member, same, rfl⟩
    rcases mem_update.mp member with ⟨old, -, chosen, rfl⟩ | ⟨inside, -⟩
    · rw [spares old ((sameKey old).symm.trans same)] at chosen
      cases chosen
    · exact ⟨row, inside, same, rfl⟩
  · rintro ⟨row, member, same, rfl⟩
    exact ⟨row, mem_update.mpr (.inr ⟨member, spares row same⟩), same, rfl⟩

/-- A deletion by key and value. -/
theorem valuesAt_delete {selected : R → Bool} {gone : K → V → Prop}
    (selects : ∀ r, selected r = true ↔ gone (key r) (value r)) :
    (t.delete selected).valuesAt key value k =
      { v | v ∈ t.valuesAt key value k ∧ ¬gone k v } := by
  ext v
  constructor
  · rintro ⟨row, member, rfl, rfl⟩
    obtain ⟨inside, kept⟩ := mem_delete.mp member
    exact ⟨⟨row, inside, rfl, rfl⟩, fun selected => kept ((selects row).mpr selected)⟩
  · rintro ⟨⟨row, member, rfl, rfl⟩, kept⟩
    exact ⟨row, mem_delete.mpr ⟨member, fun selected => kept ((selects row).mp selected)⟩, rfl, rfl⟩

end Values

end Table

end Clb.Lib
