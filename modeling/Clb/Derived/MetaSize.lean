/-
# Derived.MetaSize -- the size that the metadata shows

A version row holds the size of its file or the placeholder -1, for which the handlers ask the store
and write the length back. `GetDocMetaInfoHandler` shows a `long`, the deprecated `GetMetaInfoHandler`
an `int`, and both take the length from `updateMetaSize`, which returns an `int`.

`metaSizes_iff` says for which lengths both handlers are right. The placeholder must not stand for an
empty file, whose length the update does not write, or for one of 2 GiB or more; and a size must not
be -1 once it is cast. -/
import Clb.Derived.System
import Clb.Derived.UpdateLaw

set_option autoImplicit false

namespace Clb

open Clb.Lib Clb.Dao Clb.Lib.Action DocumentFacade Handlers

/-! ## The deprecated handler -/

/-- What `GetMetaInfoHandler` answers; the dates are left out. -/
structure MetaInfo where
  version : Text
  filename : Option Text
  size : Int
  docid : Int
  isPub : Int
deriving DecidableEq, Repr

namespace Handlers

/-- The test of `GetMetaInfoHandler` for the placeholder, on the size as an `int`. -/
def takenForPlaceholder (dv : DocVersion) : Bool := decide (dv.size.bmod (2 ^ 32) = -1)

/-- `GetMetaInfoHandler`. -/
def getMetaInfo (session : Session) (dp : DocPair) : Act MetaInfo := do
  let p ← openDocument session dp
  let dm ← getDocMetaByDocid session.appid p.docid
  let dv ← getDocVersion p
  let size ← if takenForPlaceholder dv then updateMetaSize dv else pure (dv.size.bmod (2 ^ 32))
  return ⟨decimalText dv.version, dv.filename, size, dv.docid, dm.isPub⟩

end Handlers

/-! ## A document whose metadata is asked for -/

/-- A request for the metadata of a document that is open to the session, with the file of its version,
whose row has the length of the file or the placeholder. -/
structure Shown (digest : GridFSFile → Option Text) (session : Session) (dp : DocPair) (s : Store) where
  p : DPair
  dm : DocMeta
  dv : DocVersion
  key : ObjectId
  file : GridFSFile
  md5 : Text
  opened : openDocument session dp s = (.ok p, s)
  found : getDocMetaByDocid session.appid p.docid s = (.ok dm, s)
  version : getDocVersion p s = (.ok dv, s)
  keyed : dv.storageKey = some key
  stored : s.mongo.readFile key = some file
  digested : digest file = some md5
  numbered : Table.Numbered DocVersion.id s.versions
  member : dv ∈ s.versions.rows
  fits : docVersionDAO.fits dv = true
  length : 0 ≤ file.length ∧ file.length < 2 ^ 63
  size : dv.size = file.length ∨ dv.size = -1

namespace Shown

variable {digest : GridFSFile → Option Text} {session : Session} {dp : DocPair} {s : Store}

/-- `GetDocMetaInfoHandler` shows the length of the file and leaves it in the row. -/
def DocMetaInfoRight (shown : Shown digest session dp s) : Prop :=
  ∃ info s', getDocMetaInfo digest session dp s = (.ok info, s') ∧ info.size = shown.file.length ∧
    ∃ row, readById DocVersion.id shown.dv.id s'.versions = some row ∧ row.size = shown.file.length

/-- `GetMetaInfoHandler` shows the length of the file if that is an `int`, and takes no size for the
placeholder. -/
def MetaInfoRight (shown : Shown digest session dp s) : Prop :=
  (IsInt shown.file.length → ∃ info s', getMetaInfo session dp s = (.ok info, s') ∧
    info.size = shown.file.length) ∧
  (shown.dv.size = shown.file.length → takenForPlaceholder shown.dv = false)

/-! ## The handlers -/

/-- The row after its size was looked up; a length of zero is not written. -/
def rewritten (shown : Shown digest session dp s) : DocVersion :=
  { shown.dv with size := if shown.file.length = 0 then shown.dv.size else shown.file.length }

def after (shown : Shown digest session dp s) : Store :=
  { s with versions := s.versions.replace DocVersion.id shown.dv shown.rewritten }

theorem updateObject_size (shown : Shown digest session dp s) :
    docVersionDAO.updateObject { shown.dv with size := shown.file.length } s.versions =
      some shown.after.versions := by
  rw [@BaseDAO.updateObject_eq _ docVersionDAO { shown.dv with size := shown.file.length } _
    shown.numbered shown.dv shown.member rfl, docVersion_set_size]
  exact if_pos shown.fits

theorem updateMetaSize_eq (shown : Shown digest session dp s) :
    updateMetaSize shown.dv s = (.ok (shown.file.length.bmod (2 ^ 32)), shown.after) := by
  refine eq_of_ends ?_
  unfold updateMetaSize
  refine ends_bind (ends_require (fun key keyed => ?_) fun missing => ?_)
  · obtain rfl : shown.key = key := Option.some.inj (shown.keyed.symm.trans keyed)
    refine ends_bind (ends_read (ends_bind ?_))
    rw [shown.stored]
    refine ends_require (fun f same => ?_) nofun
    obtain rfl := Option.some.inj same
    refine ends_bind (ends_within (ends_attempt ?_ ?_))
    · rintro ⟨⟩ table updated
      rw [shown.updateObject_size] at updated
      cases updated
      exact ends_pure ⟨rfl, rfl⟩
    · intro refused
      rw [shown.updateObject_size] at refused
      cases refused
  · exact absurd (shown.keyed.symm.trans missing) nofun

/-- The answer of `GetDocMetaInfoHandler`, up to the size. -/
def docMetaInfo (shown : Shown digest session dp s) (size : Int) : DocMetaInfo :=
  ⟨decimalText shown.dv.version, shown.dv.filename, size, shown.dv.docid, shown.dm.isPub, shown.md5⟩

/-- The answer of `GetMetaInfoHandler`, up to the size. -/
def metaInfo (shown : Shown digest session dp s) (size : Int) : MetaInfo :=
  ⟨decimalText shown.dv.version, shown.dv.filename, size, shown.dv.docid, shown.dm.isPub⟩

theorem getDocMetaInfo_eq (shown : Shown digest session dp s) :
    getDocMetaInfo digest session dp s =
      if shown.dv.size = -1 then (.ok (shown.docMetaInfo (shown.file.length.bmod (2 ^ 32))), shown.after)
      else (.ok (shown.docMetaInfo shown.dv.size), s) := by
  have digested : queryMd5 digest shown.dv.storageKey s = (.ok shown.md5, s) := by
    rw [queryMd5, shown.keyed, require_some_bind, read_bind, shown.stored]
    exact congrArg (fun o => Action.require _ o s) shown.digested
  rw [getDocMetaInfo, bind_ok shown.opened, bind_ok shown.found, bind_ok shown.version,
    bind_ok digested]
  by_cases unknown : shown.dv.size = -1
  · rw [if_pos unknown, if_pos unknown, bind_ok shown.updateMetaSize_eq]
    rfl
  · rw [if_neg unknown, if_neg unknown]
    rfl

theorem getMetaInfo_eq (shown : Shown digest session dp s) :
    getMetaInfo session dp s =
      if takenForPlaceholder shown.dv then
        (.ok (shown.metaInfo (shown.file.length.bmod (2 ^ 32))), shown.after)
      else (.ok (shown.metaInfo (shown.dv.size.bmod (2 ^ 32))), s) := by
  rw [getMetaInfo, bind_ok shown.opened, bind_ok shown.found, bind_ok shown.version]
  by_cases unknown : takenForPlaceholder shown.dv = true
  · rw [if_pos unknown, if_pos unknown, bind_ok shown.updateMetaSize_eq]
    rfl
  · rw [if_neg unknown, if_neg unknown]
    rfl

/-! ## Which sizes are right -/

theorem bmod_eq_self_iff {n : Int} (nonneg : 0 ≤ n) : n.bmod (2 ^ 32) = n ↔ n < 2 ^ 31 := by
  simp only [Int.bmod]
  split <;> omega

theorem bmod_eq_neg_one_iff {n : Int} : n.bmod (2 ^ 32) = -1 ↔ n % 2 ^ 32 = 2 ^ 32 - 1 := by
  simp only [Int.bmod]
  split <;> omega

theorem readById_after (shown : Shown digest session dp s) :
    readById DocVersion.id shown.dv.id shown.after.versions = some shown.rewritten := by
  have numbered : Table.Numbered DocVersion.id shown.after.versions :=
    shown.numbered.replace rfl
  refine (BaseDAO.readById_eq_some numbered).mpr ⟨?_, rfl⟩
  exact (shown.numbered.mem_replace shown.member).mpr (.inl rfl)

theorem docMetaInfoRight_iff (shown : Shown digest session dp s) :
    shown.DocMetaInfoRight ↔
      (shown.dv.size = -1 → 0 < shown.file.length ∧ shown.file.length < 2 ^ 31) := by
  have nonneg := shown.length.1
  unfold DocMetaInfoRight
  rw [shown.getDocMetaInfo_eq]
  by_cases unknown : shown.dv.size = -1
  · rw [if_pos unknown, forall_prop_of_true unknown]
    constructor
    · rintro ⟨info, s', ended, size, row, found, held⟩
      obtain ⟨rfl, rfl⟩ : shown.docMetaInfo _ = info ∧ shown.after = s' := by simpa using ended
      rw [shown.readById_after] at found
      obtain rfl := Option.some.inj found
      have fits := (bmod_eq_self_iff nonneg).mp size
      refine ⟨?_, fits⟩
      by_contra empty
      rw [rewritten, if_pos (by omega), unknown] at held
      omega
    · rintro ⟨positive, fits⟩
      refine ⟨_, _, rfl, (bmod_eq_self_iff nonneg).mpr fits, _, shown.readById_after, ?_⟩
      exact if_neg (by omega)
  · rw [if_neg unknown]
    have known := shown.size.resolve_right unknown
    refine iff_of_true ⟨_, _, rfl, known, shown.dv, ?_, known⟩ fun same => absurd same unknown
    exact (BaseDAO.readById_eq_some shown.numbered).mpr ⟨shown.member, rfl⟩

theorem metaInfoRight_iff (shown : Shown digest session dp s) :
    shown.MetaInfoRight ↔ (shown.dv.size = shown.file.length →
      shown.file.length % 2 ^ 32 ≠ 2 ^ 32 - 1) := by
  have nonneg := shown.length.1
  have taken : shown.dv.size = shown.file.length →
      (takenForPlaceholder shown.dv = false ↔ shown.file.length % 2 ^ 32 ≠ 2 ^ 32 - 1) := by
    intro known
    rw [takenForPlaceholder, known, decide_eq_false_iff_not, bmod_eq_neg_one_iff]
  constructor
  · intro right known
    exact (taken known).mp (right.2 known)
  · intro other
    refine ⟨fun fits => ?_, fun known => (taken known).mpr (other known)⟩
    have same : shown.file.length.bmod (2 ^ 32) = shown.file.length :=
      (bmod_eq_self_iff nonneg).mpr (Int.lt_of_le_of_lt fits.2 (by decide))
    rw [shown.getMetaInfo_eq]
    by_cases unknown : takenForPlaceholder shown.dv = true
    · rw [if_pos unknown]
      exact ⟨_, _, rfl, same⟩
    · rw [if_neg unknown]
      refine ⟨_, _, rfl, ?_⟩
      rcases shown.size with known | placeholder
      · exact (congrArg (Int.bmod · (2 ^ 32)) known).trans same
      · exact absurd (by rw [takenForPlaceholder, placeholder]; decide) unknown

/-- **Both handlers are right if and only if** the placeholder stands for a file that is not empty and
smaller than 2 GiB, and a size is not -1 as an `int`. -/
theorem metaSizes_iff (shown : Shown digest session dp s) :
    shown.DocMetaInfoRight ∧ shown.MetaInfoRight ↔
      (shown.dv.size = -1 → 0 < shown.file.length ∧ shown.file.length < 2 ^ 31) ∧
        (shown.dv.size = shown.file.length → shown.file.length % 2 ^ 32 ≠ 2 ^ 32 - 1) :=
  and_congr shown.docMetaInfoRight_iff shown.metaInfoRight_iff

end Shown

/-! ## One document -/

def shownDoc : DocMeta := { id := 1, isPub := 1, lastVersion := 1, authId := some [], appid := 1, docid := 1 }

def shownVersion (size : Int) : DocVersion :=
  { id := 1, docid := 1, appid := 1, version := 1, size, storageKey := some ⟨0⟩ }

def shownFile (length : Int) : GridFSFile := ⟨⟨1⟩, none, ⟨0⟩, 1, 1, 1, length, 1024⟩

/-- A store with one document, by the size in its row and the length of its file. -/
def shownStore (size length : Int) : Store :=
  { Store.empty with
    docs := ⟨[shownDoc], 2⟩, versions := ⟨[shownVersion size], 2⟩, mongo := ⟨[shownFile length], [], 2⟩ }

def shownDocument (size length : Int) (range : 0 ≤ length ∧ length < 2 ^ 63)
    (either : size = length ∨ size = -1) :
    Shown (fun _ => some []) someSession ⟨1, "latest".toList⟩ (shownStore size length) where
  p := ⟨1, 1, DPair.LATEST⟩
  dm := shownDoc
  dv := shownVersion size
  key := ⟨0⟩
  file := shownFile length
  md5 := []
  opened := rfl
  found := rfl
  version := rfl
  keyed := rfl
  stored := rfl
  digested := rfl
  numbered := ⟨by simp [shownStore, shownVersion], by simp [shownStore, shownVersion],
    by simp [shownStore], by simp [shownStore]⟩
  member := List.mem_cons_self
  fits := rfl
  length := range
  size := either

/-- The placeholder for a file of five bytes. -/
theorem metaSizes_iff_small : (shownDocument (-1) 5 (by decide) (.inr rfl)).DocMetaInfoRight ∧
    (shownDocument (-1) 5 (by decide) (.inr rfl)).MetaInfoRight :=
  (Shown.metaSizes_iff _).mpr ⟨fun _ => by decide, fun known => absurd known (by decide)⟩

/-- The placeholder for a file of 3 GB and for an empty file, and a size that is taken for the
placeholder. -/
theorem metaSizes_wrong :
    ¬(shownDocument (-1) 3000000000 (by decide) (.inr rfl)).DocMetaInfoRight ∧
      ¬(shownDocument (-1) 0 (by decide) (.inr rfl)).DocMetaInfoRight ∧
      ¬(shownDocument 4294967295 4294967295 (by decide) (.inl rfl)).MetaInfoRight := by
  rw [Shown.docMetaInfoRight_iff, Shown.docMetaInfoRight_iff, Shown.metaInfoRight_iff]
  refine ⟨fun right => ?_, fun right => ?_, fun right => ?_⟩
  · exact absurd (right rfl).2 (by decide)
  · exact absurd (right rfl).1 (by decide)
  · exact right rfl (by decide)

end Clb
