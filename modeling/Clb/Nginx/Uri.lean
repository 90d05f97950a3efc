/-
# Clb.Nginx.Uri -- the URI that a location is chosen by

`ngx_http_parse_complex_uri` makes `request->uri` of the path of a request: it
decodes what is percent-encoded, merges slashes, resolves dot segments and ends
at a `?` or a `#`.  nginx runs it on the paths that have any of these; a path
that has none it leaves as it is (`parseComplexUri_plain`).
-/
import Clb.Nginx.UrlDecode

namespace Clb.Nginx

open Clb.Lib.Percent

set_option autoImplicit false

/-- The states of the parser between two characters; the states inside an escape
are in the patterns of `parseComplexUri`. -/
inductive UriState where
  | sw_usual
  | sw_slash
  | sw_dot
  | sw_dot_dot
deriving DecidableEq, Repr

/-- One character that is written out or has a meaning in the path, with the URI
so far in reverse.  The table `usual` only takes the short way to the default
cases. -/
def uriStep (mergeSlashes : Bool) (state : UriState) (u : Bytes) (ch : UInt8) :
    Option (UriState × Bytes) :=
  match state with
  | .sw_usual => if ch = 47 then some (.sw_slash, ch :: u) else some (.sw_usual, ch :: u)
  | .sw_slash =>
    if ch = 47 then some (.sw_slash, if mergeSlashes then u else ch :: u)
    else if ch = 46 then some (.sw_dot, ch :: u)
    else some (.sw_usual, ch :: u)
  | .sw_dot =>
    if ch = 47 then some (.sw_slash, u.tail)
    else if ch = 46 then some (.sw_dot_dot, ch :: u)
    else some (.sw_usual, ch :: u)
  | .sw_dot_dot =>
    if ch = 47 then
      -- `u -= 5`, and back to a slash that is still in the buffer
      match (u.drop 4).dropWhile (· != 47) with
      | [] => none
      | slash :: before => some (.sw_slash, slash :: before)
    else some (.sw_usual, ch :: u)

/-- The loop of `ngx_http_parse_complex_uri`; `none` is NGX_HTTP_PARSE_INVALID_REQUEST. -/
def parseComplexUri (mergeSlashes : Bool) : UriState → Bytes → Bytes → Option Bytes
  | _, u, [] => some u.reverse
  | state, u, ch :: rest =>
    if ch = 63 ∨ ch = 35 then some u.reverse
    else if ch = 37 then
      match rest with
      | h :: l :: more => do
          let ch := 16 * (← hexValue h) + (← hexValue l)
          if ch = 37 ∨ ch = 35 ∨ ch = 63 then
            parseComplexUri mergeSlashes .sw_usual (ch :: u) more
          else if ch = 0 then none
          else do
            let (state, u) ← uriStep mergeSlashes state u ch
            parseComplexUri mergeSlashes state u more
      -- the path ends inside the escape, which is dropped
      | [h] => if (hexValue h).isSome then some u.reverse else none
      | [] => some u.reverse
    else do
      let (state, u) ← uriStep mergeSlashes state u ch
      parseComplexUri mergeSlashes state u rest

/-- `request->uri` of a path. -/
def ngxHttpParseComplexUri (mergeSlashes : Bool) (path : Bytes) : Option Bytes :=
  parseComplexUri mergeSlashes .sw_usual [] path

/-- A character without a meaning in a path. -/
def Plain (c : UInt8) : Prop := c ≠ 35 ∧ c ≠ 37 ∧ c ≠ 47 ∧ c ≠ 63

/-- A segment that the parser copies, one that does not begin with a dot. -/
structure PlainSegment (segment : Bytes) : Prop where
  head : ∃ c rest, segment = c :: rest ∧ c ≠ 46
  plain : ∀ c ∈ segment, Plain c

variable {mergeSlashes : Bool} {u rest : Bytes} {c : UInt8} {segment : Bytes}

theorem parseComplexUri_cons {state : UriState} (plain : Plain c)
    (usual : state = .sw_usual ∨ state = .sw_slash ∧ c ≠ 46) :
    parseComplexUri mergeSlashes state u (c :: rest) =
      parseComplexUri mergeSlashes .sw_usual (c :: u) rest := by
  obtain ⟨hash, percent, slash, query⟩ := plain
  rw [parseComplexUri.eq_def]
  rcases usual with rfl | ⟨rfl, dot⟩
  · simp [hash, percent, query, uriStep, slash]
  · simp [hash, percent, query, uriStep, slash, dot]

/-- Characters without a meaning are copied. -/
theorem parseComplexUri_usual (plain : ∀ c ∈ segment, Plain c) :
    parseComplexUri mergeSlashes .sw_usual u (segment ++ rest) =
      parseComplexUri mergeSlashes .sw_usual (segment.reverse ++ u) rest := by
  induction segment generalizing u with
  | nil => rfl
  | cons c segment ih =>
    rw [List.forall_mem_cons] at plain
    rw [List.cons_append, parseComplexUri_cons plain.1 (.inl rfl), ih plain.2]
    simp

/-- So is a segment behind a slash. -/
theorem parseComplexUri_segment (plain : PlainSegment segment) :
    parseComplexUri mergeSlashes .sw_slash u (segment ++ rest) =
      parseComplexUri mergeSlashes .sw_usual (segment.reverse ++ u) rest := by
  obtain ⟨⟨c, tail, rfl, dot⟩, plain⟩ := plain
  rw [List.forall_mem_cons] at plain
  rw [List.cons_append, parseComplexUri_cons plain.1 (.inr ⟨rfl, dot⟩), parseComplexUri_usual plain.2]
  simp

theorem parseComplexUri_slash :
    parseComplexUri mergeSlashes .sw_usual u (47 :: rest) =
      parseComplexUri mergeSlashes .sw_slash (47 :: u) rest := by
  rw [parseComplexUri.eq_def]
  simp [uriStep]

/-- **A path of two plain segments is its own URI.** -/
theorem ngxHttpParseComplexUri_plain {first second : Bytes} (plain : PlainSegment first)
    (plain' : PlainSegment second) :
    ngxHttpParseComplexUri mergeSlashes (47 :: (first ++ 47 :: second)) =
      some (47 :: (first ++ 47 :: second)) := by
  have ends := @parseComplexUri_segment mergeSlashes (47 :: (first.reverse ++ [47])) [] second plain'
  rw [List.append_nil] at ends
  unfold ngxHttpParseComplexUri
  rw [parseComplexUri_slash, parseComplexUri_segment plain, parseComplexUri_slash, ends]
  simp [parseComplexUri]

end Clb.Nginx
