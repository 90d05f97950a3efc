/-
# Lib.Template -- texts with placeholders

A template is a text in which `$` and a name in braces stand for a value. `parse` cuts a text into
plain pieces and placeholders: a closing brace belongs to the last opening before it, and one without
an opening is plain text. `fill` puts the values in, `refs` are the names.

`parse_plain` and `parse_brace` are the equations of `parse`; text without a dollar sign or a brace in
front of a template changes nothing else (`fill_append`). -/
import Mathlib.Data.List.Basic

set_option autoImplicit false

namespace Clb.Lib.Template

inductive Piece where
  | plain (t : List Char)
  | ref (name : List Char)
deriving DecidableEq, Repr

/-- A text around its last opening of a placeholder. -/
def lastOpen : List Char → Option (List Char × List Char)
  | [] => none
  | c :: rest =>
    match lastOpen rest with
    | some (left, name) => some (c :: left, name)
    | none => if c = '$' ∧ rest.head? = some '\x7b' then some ([], rest.tail) else none

/-- What stands before a closing brace, which may end a placeholder. -/
def close (before : List Char) : List Piece :=
  match lastOpen before with
  | some (left, name) => [.plain left, .ref name]
  | none => [.plain (before ++ ['\x7d'])]

def parseFrom : List Char → List Char → List Piece
  | before, [] => [.plain before]
  | before, c :: rest =>
    if c = '\x7d' then close before ++ parseFrom [] rest else parseFrom (before ++ [c]) rest

def parse (t : List Char) : List Piece := parseFrom [] t

def Piece.fill (value : List Char → List Char) : Piece → List Char
  | .plain t => t
  | .ref name => value name

def fill (value : List Char → List Char) (pieces : List Piece) : List Char :=
  pieces.flatMap (Piece.fill value)

def Piece.ref? : Piece → Option (List Char)
  | .plain _ => none
  | .ref name => some name

def refs (pieces : List Piece) : List (List Char) := pieces.filterMap Piece.ref?

variable {value : List Char → List Char} {b before after left name s t : List Char}

/-! ## The last opening -/

theorem lastOpen_eq_some (found : lastOpen s = some (left, name)) :
    s = left ++ '$' :: '\x7b' :: name := by
  induction s generalizing left with
  | nil => cases found
  | cons c rest ih =>
    cases later : lastOpen rest with
    | some pair =>
      simp only [lastOpen, later] at found
      obtain ⟨rfl, rfl⟩ := Prod.mk.inj (Option.some.inj found)
      rw [ih later]
      rfl
    | none =>
      simp only [lastOpen, later] at found
      split at found
      · rename_i opened
        obtain ⟨rfl, rfl⟩ := Prod.mk.inj (Option.some.inj found)
        obtain ⟨tail, rfl⟩ := List.head?_eq_some_iff.mp opened.2
        rw [opened.1]
        rfl
      · cases found

/-- The last opening is found, and no other one leaves more before it. -/
theorem lastOpen_longest (left name : List Char) :
    ∃ left' name', lastOpen (left ++ '$' :: '\x7b' :: name) = some (left', name') ∧
      left.length ≤ left'.length := by
  induction left with
  | nil =>
    rw [List.nil_append, lastOpen]
    cases lastOpen ('\x7b' :: name) with
    | some pair => exact ⟨_, _, rfl, Nat.zero_le _⟩
    | none => exact ⟨_, _, if_pos ⟨rfl, rfl⟩, Nat.zero_le _⟩
  | cons c rest ih =>
    obtain ⟨left', name', found, longer⟩ := ih
    refine ⟨c :: left', name', ?_, Nat.succ_le_succ longer⟩
    rw [List.cons_append, lastOpen, found]

theorem lastOpen_append (without : '$' ∉ b) :
    lastOpen (b ++ s) = (lastOpen s).map fun pair => (b ++ pair.1, pair.2) := by
  induction b with
  | nil => simp
  | cons c rest ih =>
    rw [List.mem_cons, not_or] at without
    rw [List.cons_append, lastOpen, ih without.2]
    cases lastOpen s with
    | some pair => rfl
    | none => exact if_neg fun opened => without.1 opened.1.symm

/-! ## Parsing -/

theorem parseFrom_append (before : List Char) (without : '\x7d' ∉ t) :
    parseFrom before (t ++ s) = parseFrom (before ++ t) s := by
  induction t generalizing before with
  | nil => rw [List.nil_append, List.append_nil]
  | cons c rest ih =>
    rw [List.mem_cons, not_or] at without
    rw [List.cons_append, parseFrom, if_neg (Ne.symm without.1), ih _ without.2, List.append_assoc]
    rfl

theorem parse_plain (without : '\x7d' ∉ t) : parse t = [.plain t] := by
  have whole := parseFrom_append [] (s := []) without
  rwa [List.append_nil, List.nil_append] at whole

theorem parse_brace (without : '\x7d' ∉ before) :
    parse (before ++ '\x7d' :: after) = close before ++ parse after := by
  unfold parse
  rw [parseFrom_append [] without, List.nil_append, parseFrom, if_pos rfl]

/-- Every text has a closing brace or none. -/
theorem brace_cases (t : List Char) :
    '\x7d' ∉ t ∨ ∃ before after, t = before ++ '\x7d' :: after ∧ '\x7d' ∉ before := by
  by_cases member : '\x7d' ∈ t
  · obtain ⟨before, after, whole, without⟩ := List.eq_append_cons_of_mem member
    exact .inr ⟨before, after, whole, without⟩
  · exact .inl member

/-! ## Filling in -/

theorem fill_close_append (without : '$' ∉ b) :
    fill value (close (b ++ before)) = b ++ fill value (close before) := by
  unfold close
  rw [lastOpen_append without]
  cases lastOpen before with
  | some pair => simp [fill, Piece.fill]
  | none => simp [fill, Piece.fill]

theorem refs_close_append (without : '$' ∉ b) : refs (close (b ++ before)) = refs (close before) := by
  unfold close
  rw [lastOpen_append without]
  cases lastOpen before with
  | some pair => rfl
  | none => rfl

theorem fill_append_pieces (p q : List Piece) : fill value (p ++ q) = fill value p ++ fill value q :=
  List.flatMap_append

theorem refs_append_pieces (p q : List Piece) : refs (p ++ q) = refs p ++ refs q :=
  List.filterMap_append

/-- Only the values of the names of a template matter. -/
theorem fill_congr {value' : List Char → List Char} {pieces : List Piece}
    (same : ∀ name ∈ refs pieces, value name = value' name) :
    fill value pieces = fill value' pieces := by
  refine List.flatMap_congr fun piece member => ?_
  cases piece with
  | plain t => rfl
  | ref name => exact same name (List.mem_filterMap.mpr ⟨_, member, rfl⟩)

/-- Text in front of a template, without a dollar sign and a closing brace, is kept. -/
theorem fill_append (dollar : '$' ∉ b) (brace : '\x7d' ∉ b) :
    fill value (parse (b ++ s)) = b ++ fill value (parse s) := by
  rcases brace_cases s with plain | ⟨before, after, rfl, without⟩
  · rw [parse_plain plain, parse_plain (List.not_mem_append brace plain)]
    simp [fill, Piece.fill]
  · rw [← List.append_assoc, parse_brace (List.not_mem_append brace without), parse_brace without,
      fill_append_pieces, fill_append_pieces, fill_close_append dollar, List.append_assoc]

theorem refs_append (dollar : '$' ∉ b) (brace : '\x7d' ∉ b) :
    refs (parse (b ++ s)) = refs (parse s) := by
  rcases brace_cases s with plain | ⟨before, after, rfl, without⟩
  · rw [parse_plain plain, parse_plain (List.not_mem_append brace plain)]
    rfl
  · rw [← List.append_assoc, parse_brace (List.not_mem_append brace without), parse_brace without,
      refs_append_pieces, refs_append_pieces, refs_close_append dollar]

end Clb.Lib.Template
