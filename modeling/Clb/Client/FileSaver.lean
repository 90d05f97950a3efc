/-
# Client.FileSaver -- a name for a downloaded file

`CommonFileSaver.guessFile` tries the name of the file and then the name with a count before its
suffix, until there is no such file in the directory. If the name is free it is the result. If it is
taken the result is never the name with a count (`guessFile_iff`): `rename` cuts off one character too
many before the dot, and raises an exception if there is no character to cut off.

For the other names the search still ends on a name that is free (`guessFile_ends`). -/
import Mathlib.Data.Finset.Card
import Mathlib.Order.Interval.Finset.Nat
import Clb.Lib.Fuel
import Clb.Document.Decimal

set_option autoImplicit false

namespace Clb.CommonFileSaver

open Clb.Lib

/-- The name of a file in a directory. -/
structure FileName where
  text : Text
  given : text ≠ []
  inside : '/' ∉ text

/-! ## The search -/

/-- `String.lastIndexOf` of a character. -/
def lastIndexOf (c : Char) : Text → Int
  | [] => -1
  | d :: rest =>
    if lastIndexOf c rest = -1 then if d = c then 0 else -1 else lastIndexOf c rest + 1

/-- `String.substring`. -/
def substring (t : Text) (start stop : Int) : Except Fault Text :=
  if 0 ≤ start ∧ start ≤ stop ∧ stop ≤ t.length then .ok ((t.take stop.toNat).drop start.toNat)
  else .error .indexOutOfBounds

/-- A count in brackets between two texts. -/
def numbered (front suffix : Text) (count : Int) : Text :=
  front ++ '(' :: (decimalText count ++ ')' :: suffix)

def rename (filename : Text) (count : Int) : Except Fault Text :=
  if count = 1 then .ok filename
  else do
    let pos := lastIndexOf '.' filename
    let suffix ← substring filename pos filename.length
    let front ← substring filename 0 (pos - 1)
    pure (numbered front suffix count)

/-- The loop of `guessFile` from a count on. `existing` are the names that exist in the directory. -/
def guess (existing : Finset Text) (dir filename : Text) (count : Int) :
    Nat → ExceptT Fault Option Text
  | 0 => none
  | fuel + 1 =>
    match rename filename count with
    | .error fault => throw fault
    | .ok name =>
      if name ∈ existing then guess existing dir filename (Int.bmod (count + 1) (2 ^ 32)) fuel
      else pure (dir ++ '/' :: name)

def guessFile (existing : Finset Text) (dir filename : Text) : Nat → ExceptT Fault Option Text :=
  guess existing dir filename 1

variable {existing : Finset Text} {dir front rest t : Text} {c : Char} {count : Int}

/-! ## The names that are tried -/

theorem lastIndexOf_none (free : c ∉ t) : lastIndexOf c t = -1 := by
  induction t with
  | nil => rfl
  | cons d t ih =>
    rw [List.mem_cons, not_or] at free
    rw [lastIndexOf, if_pos (ih free.2), if_neg (Ne.symm free.1)]

theorem lastIndexOf_last (free : c ∉ rest) : lastIndexOf c (front ++ c :: rest) = front.length := by
  induction front with
  | nil => rw [List.nil_append, lastIndexOf, if_pos (lastIndexOf_none free), if_pos rfl]; rfl
  | cons d front ih =>
    rw [List.cons_append, lastIndexOf, ih, if_neg (by omega), List.length_cons]
    rfl

theorem substring_eq {before middle behind : Text} {start stop : Int}
    (whole : t = before ++ (middle ++ behind)) (first : start = before.length)
    (last : stop = before.length + middle.length) : substring t start stop = .ok middle := by
  subst whole first last
  rw [substring, if_pos (by simp only [List.length_append]; omega)]
  have split : (before ++ (middle ++ behind)).take (before.length + middle.length) = before ++ middle := by
    rw [← List.append_assoc, ← List.length_append, List.take_left]
  have natStop : ((before.length : Int) + middle.length).toNat = before.length + middle.length := by omega
  rw [natStop, split, Int.toNat_natCast, List.drop_left]

theorem rename_without_dot (free : '.' ∉ t) (later : count ≠ 1) :
    rename t count = .error .indexOutOfBounds := by
  rw [rename, if_neg later, lastIndexOf_none free]
  rfl

theorem rename_dot_first (free : '.' ∉ rest) (later : count ≠ 1) :
    rename ('.' :: rest) count = .error .indexOutOfBounds := by
  have pos := @lastIndexOf_last [] rest '.' free
  rw [List.nil_append] at pos
  rw [rename, if_neg later, pos]
  simp [substring]
  rfl

theorem rename_dot (free : '.' ∉ rest) (later : count ≠ 1) :
    rename (front ++ c :: '.' :: rest) count = .ok (numbered front ('.' :: rest) count) := by
  have pos := @lastIndexOf_last (front ++ [c]) rest '.' free
  rw [List.append_assoc, List.singleton_append] at pos
  have suffix : substring (front ++ c :: '.' :: rest) (front ++ [c]).length
      (front ++ c :: '.' :: rest).length = .ok ('.' :: rest) :=
    @substring_eq _ (front ++ [c]) ('.' :: rest) [] _ _ (by simp) rfl (by simp; omega)
  have kept : substring (front ++ c :: '.' :: rest) 0 ((front ++ [c]).length - 1) = .ok front :=
    @substring_eq _ [] front (c :: '.' :: rest) _ _ rfl rfl (by simp)
  rw [rename, if_neg later]
  simp only [pos, suffix, kept]
  rfl

theorem decimalText_ne_nil (n : Int) : decimalText n ≠ [] := by
  unfold decimalText
  split
  · exact List.cons_ne_nil _ _
  · exact Nat.toDigits_ne_nil

/-- The count stands one character too early. -/
theorem numbered_ne {suffix : Text} {n : Int} :
    numbered front suffix count ≠ numbered (front ++ [c]) suffix n := by
  intro same
  unfold numbered at same
  rw [List.append_assoc, List.append_cancel_left_eq, List.singleton_append, List.cons.injEq] at same
  obtain ⟨d, digits, written⟩ := List.exists_cons_of_ne_nil (decimalText_ne_nil count)
  rw [written] at same
  obtain rfl : d = '(' := (List.cons.inj same.2).1
  have member : '(' ∈ decimalText count := written ▸ List.mem_cons_self
  rcases mem_decimalText member with minus | digit
  · exact absurd minus (by decide)
  · exact absurd digit (by decide)

theorem guess_free {filename name : Text} (renamed : rename filename count = .ok name)
    (free : name ∉ existing) :
    Fuel.Settles (guess existing dir filename count) (.ok (dir ++ '/' :: name)) := by
  refine ⟨1, ?_⟩
  rw [guess, renamed]
  simp only [free, if_false]
  rfl

theorem guess_taken {filename name : Text} (renamed : rename filename count = .ok name)
    (taken : name ∈ existing) (fuel : Nat) : guess existing dir filename count (fuel + 1) =
      guess existing dir filename (Int.bmod (count + 1) (2 ^ 32)) fuel := by
  rw [guess, renamed]
  simp only [taken, if_true]

/-! ## What the result should be -/

/-- The suffix of a name begins at its last dot, and is empty if there is none. -/
inductive LastDot : Text → Text → Prop
  | none {name : Text} (free : '.' ∉ name) : LastDot name []
  | dot {front rest : Text} (free : '.' ∉ rest) : LastDot front ('.' :: rest)

/-- The name for the file: its own one if that is free, and otherwise one with a count. -/
structure Guessed (existing : Finset Text) (name : FileName) (result : Text) : Prop where
  new : result ∉ existing
  own : name.text ∉ existing → result = name.text
  counted : name.text ∈ existing → ∃ front suffix n, name.text = front ++ suffix ∧ LastDot front suffix ∧
    2 ≤ n ∧ result = numbered front suffix n

theorem guess_ok {filename path : Text} {fuel : Nat}
    (ended : (guess existing dir filename count fuel).run = some (.ok path)) :
    ∃ n name, rename filename n = .ok name ∧ name ∉ existing ∧ path = dir ++ '/' :: name := by
  induction fuel generalizing count with
  | zero => cases ended
  | succ fuel ih =>
    unfold guess at ended
    split at ended
    · cases ended
    · rename_i name renamed
      split at ended
      · exact ih ended
      · rename_i free
        cases ended
        exact ⟨count, name, renamed, free, rfl⟩

/-- **The name is what it should be if and only if the file's own name is free.** -/
theorem guessFile_iff (existing : Finset Text) (dir : Text) (name : FileName) :
    (∃ result, Guessed existing name result ∧
        Fuel.Settles (guessFile existing dir name.text) (.ok (dir ++ '/' :: result))) ↔
      name.text ∉ existing := by
  constructor
  · rintro ⟨result, guessed, fuel, ended⟩ taken
    obtain ⟨front, suffix, n, whole, split, -, rfl⟩ := guessed.counted taken
    obtain ⟨count, other, renamed, free, same⟩ := guess_ok ended
    obtain rfl : numbered front suffix n = other := by simpa using same
    have later : count ≠ 1 := by
      rintro rfl
      rw [rename, if_pos rfl] at renamed
      exact free (Except.ok.inj renamed ▸ taken)
    rw [whole] at renamed
    cases split with
    | none noDot =>
      rw [List.append_nil, rename_without_dot noDot later] at renamed
      cases renamed
    | dot noDot =>
      rcases front.eq_nil_or_concat with rfl | ⟨front, c, rfl⟩
      · rw [List.nil_append, rename_dot_first noDot later] at renamed
        cases renamed
      · rw [List.concat_eq_append, List.append_assoc, List.singleton_append,
          rename_dot noDot later] at renamed
        exact numbered_ne (Except.ok.inj renamed)
  · intro free
    exact ⟨name.text, ⟨free, fun _ => rfl, fun taken => absurd taken free⟩, guess_free (if_pos rfl) free⟩

/-- The name of a file that exists is taken with one character less, or an exception is raised. -/
theorem guessFile_taken :
    (guessFile {"a.txt".toList} "d".toList "a.txt".toList 2).run = some (.ok "d/(2).txt".toList) ∧
      (guessFile {"README".toList} "d".toList "README".toList 2).run =
        some (.error .indexOutOfBounds) := by
  decide

/-! ## The search ends -/

/-- If the name for a later count is free, the search ends on a free name. -/
theorem guess_ends (noDot : '.' ∉ rest) (steps : Nat) (later : 2 ≤ count)
    (fits : count + steps < 2 ^ 31)
    (free : numbered front ('.' :: rest) (count + steps) ∉ existing) :
    ∃ result, result ∉ existing ∧ Fuel.Settles
      (guess existing dir (front ++ c :: '.' :: rest) count) (.ok (dir ++ '/' :: result)) := by
  induction steps generalizing count with
  | zero =>
    have here : numbered front ('.' :: rest) count ∉ existing := by simpa using free
    exact ⟨_, here, guess_free (rename_dot noDot (by omega)) here⟩
  | succ steps ih =>
    by_cases here : numbered front ('.' :: rest) count ∈ existing
    · have next : Int.bmod (count + 1) (2 ^ 32) = count + 1 := by
        rw [Int.bmod_eq_of_le]
        all_goals omega
      have shifted : count + ((steps + 1 : Nat) : Int) = count + 1 + steps := by omega
      obtain ⟨result, new, fuel, ended⟩ :=
        @ih (count + 1) (by omega) (by omega) (shifted ▸ free)
      refine ⟨result, new, fuel + 1, ?_⟩
      rw [guess_taken (rename_dot noDot (by omega)) here, next]
      exact ended
    · exact ⟨_, here, guess_free (rename_dot noDot (by omega)) here⟩

theorem numbered_injective {suffix : Text} :
    Function.Injective fun n : Nat => numbered front suffix (2 + n) := by
  intro m n same
  have texts : decimalText (2 + m) = decimalText (2 + n) := by
    have tails := (List.cons.inj (List.append_cancel_left same)).2
    exact List.append_cancel_right tails
  have := @decimalText_natCast_injective (2 + m) (2 + n) (by exact_mod_cast texts)
  omega

/-- **With a character before its last dot, a name leads to a free one**, in a directory that does not
hold all of the names with a count. -/
theorem guessFile_ends (existing : Finset Text) (dir front rest : Text) (c : Char) (noDot : '.' ∉ rest)
    (few : existing.card < 2 ^ 31 - 2) :
    ∃ result, result ∉ existing ∧ Fuel.Settles
      (guessFile existing dir (front ++ c :: '.' :: rest)) (.ok (dir ++ '/' :: result)) := by
  have room : existing.card < ((Finset.range (existing.card + 1)).map
      ⟨_, @numbered_injective front ('.' :: rest)⟩).card := by
    rw [Finset.card_map, Finset.card_range]
    omega
  obtain ⟨name, tried, free⟩ := Finset.exists_mem_notMem_of_card_lt_card room
  obtain ⟨n, bound, rfl⟩ := Finset.mem_map.mp tried
  rw [Finset.mem_range] at bound
  by_cases taken : front ++ c :: '.' :: rest ∈ existing
  · obtain ⟨result, new, fuel, ended⟩ :=
      @guess_ends existing dir front rest c 2 noDot n le_rfl (by omega) free
    refine ⟨result, new, fuel + 1, ?_⟩
    rw [guessFile, guess_taken (if_pos rfl) taken]
    exact ended
  · exact ⟨_, taken, guess_free (if_pos rfl) taken⟩

end Clb.CommonFileSaver
