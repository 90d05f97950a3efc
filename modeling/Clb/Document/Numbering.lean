/-
# Document.Numbering -- version numbers given out by concurrent calls

`createDocVersion` takes its number in a transaction that reads the greatest version from a snapshot
and inserts the next one; the row is filled and the document's lastVersion is written after the
commit. No constraint of the schema keeps two rows of one version apart.

`Moved` lists what one step of a call does to the two tables. `versions_numbered` says that in every
interleaving in which no transaction of a document begins while another one of it is open, and no
version is written to its document while a smaller one is still to be written, the versions given out
for a document are pairwise different and its lastVersion ends as the greatest one. `versions_clash`
shows both ways to fail. -/
import Mathlib.Data.Fintype.Basic
import Clb.Document.Linked
import Clb.Document.Steps

set_option autoImplicit false

namespace Clb

open Clb.Lib Clb.Dao Clb.Lib.Action

variable {version : Int}

/-! ## The rows by their numbers -/

/-- The rows of clb_doc_version, as far as the numbers go. -/
def entries (versions : Table DocVersion) : Set (Int × Int × Int × Int) :=
  { e | ∃ r ∈ versions.rows, (r.id, r.appid, r.docid, r.version) = e }

theorem mem_versionNumbers_iff {versions : Table DocVersion} {appid docid n : Int} :
    n ∈ versionNumbers appid docid versions ↔ ∃ id, (id, appid, docid, n) ∈ entries versions := by
  constructor
  · rintro ⟨r, member, owner, rfl⟩
    obtain ⟨rfl, rfl⟩ := Prod.mk.inj owner
    exact ⟨r.id, r, member, rfl⟩
  · rintro ⟨id, r, member, same⟩
    simp only [Prod.mk.injEq] at same
    exact ⟨r, member, Prod.ext same.2.1 same.2.2.1, same.2.2.2⟩

theorem versionNumbers_congr {versions versions' : Table DocVersion}
    (same : entries versions' = entries versions) (appid docid : Int) :
    versionNumbers appid docid versions' = versionNumbers appid docid versions := by
  ext n
  rw [mem_versionNumbers_iff, mem_versionNumbers_iff, same]

/-- A row committed under the number `id`. -/
theorem mem_versionNumbers_commit {versions versions' : Table DocVersion}
    {id appid docid version a i n : Int}
    (added : entries versions' = insert (id, appid, docid, version) (entries versions)) :
    n ∈ versionNumbers a i versions' ↔
      n ∈ versionNumbers a i versions ∨ ((a, i) = (appid, docid) ∧ n = version) := by
  simp only [mem_versionNumbers_iff, added, Set.mem_insert_iff, Prod.mk.injEq]
  constructor
  · rintro ⟨k, ⟨-, sameApp, sameDoc, rfl⟩ | old⟩
    · exact .inr ⟨⟨sameApp, sameDoc⟩, rfl⟩
    · exact .inl ⟨k, old⟩
  · rintro (⟨k, old⟩ | ⟨⟨rfl, rfl⟩, rfl⟩)
    · exact ⟨k, .inr old⟩
    · exact ⟨id, .inl ⟨rfl, rfl, rfl, rfl⟩⟩

/-- The tables satisfy the constraints of the schema, and versions are positive. -/
structure VersionsWf (s : Store) : Prop where
  numbered : Table.Numbered DocVersion.id s.versions
  fits : ∀ r ∈ s.versions.rows, docVersionDAO.fits r = true
  positive : ∀ r ∈ s.versions.rows, 0 < r.version
  docsFit : ∀ d ∈ s.docs.rows, docMetaDAO.fits d = true

/-! ## One step -/

abbrev VersionPoint := Point DbStep Fault DocVersion

/-- The document whose transaction is open. -/
def transactionOf : VersionPoint → Option (Int × Int)
  | .before (.insertVersion appid docid _) => some (appid, docid)
  | .before (.selectInserted appid docid _ _) => some (appid, docid)
  | .before (.commitVersion appid docid _ _) => some (appid, docid)
  | _ => none

/-- The row number that is taken and not yet committed. -/
def reservedOf : VersionPoint → Option Int
  | .before (.selectInserted _ _ id _) => some id
  | .before (.commitVersion _ _ id _) => some id
  | _ => none

/-- The version that is committed and not yet written to its document. -/
def pendingOf : VersionPoint → Option (Int × Int × Int)
  | .before (.updateVersion appid docid _ version) => some (appid, docid, version)
  | .before (.updateDocMeta appid docid version) => some (appid, docid, version)
  | _ => none

/-- The version that the call was given. -/
def givenOf : VersionPoint → Option (Int × Int × Int)
  | .returned (.ok ndv) => some (ndv.appid, ndv.docid, ndv.version)
  | p => pendingOf p

/-- What a step of `createDocVersion` does, and the point it leads to. -/
inductive Moved (s : Store) : DbStep → VersionPoint → Store → Prop
  | keyed {appid docid : Int} {s' : Store} (versions : s'.versions = s.versions)
      (docs : s'.docs = s.docs) :
      Moved s .newObjectId (.before (.selectMaxVersion appid docid)) s'
  | unnamed {fault : Fault} {s' : Store} (versions : s'.versions = s.versions)
      (docs : s'.docs = s.docs) :
      Moved s .newObjectId (.returned (.error fault)) s'
  | selected {appid docid version : Int} :
      Moved s (.selectMaxVersion appid docid) (.before (.insertVersion appid docid version)) s
  | refused {appid docid version : Int} {fault : Fault} :
      Moved s (.insertVersion appid docid version) (.returned (.error fault)) s
  | inserted {appid docid version : Int} :
      Moved s (.insertVersion appid docid version)
        (.before (.selectInserted appid docid s.versions.next version))
        { s with versions := { s.versions with next := s.versions.next + 1 } }
  | readBack {appid docid id version : Int} :
      Moved s (.selectInserted appid docid id version)
        (.before (.commitVersion appid docid id version)) s
  | committed {appid docid id version : Int} {s' : Store}
      (above : ∀ n ∈ versionNumbers appid docid s.versions, n < version)
      (added : entries s'.versions = insert (id, appid, docid, version) (entries s.versions))
      (next : s'.versions.next = s.versions.next) (docs : s'.docs = s.docs) :
      Moved s (.commitVersion appid docid id version)
        (.before (.updateVersion appid docid id version)) s'
  | written {appid docid id version : Int} {s' : Store}
      (same : entries s'.versions = entries s.versions)
      (next : s'.versions.next = s.versions.next) (docs : s'.docs = s.docs) :
      Moved s (.updateVersion appid docid id version)
        (.before (.updateDocMeta appid docid version)) s'
  | linked {ndv : DocVersion} (appid_ne : ndv.appid ≠ 0) (docid_ne : ndv.docid ≠ 0) :
      Moved s (.updateDocMeta ndv.appid ndv.docid ndv.version) (.returned (.ok ndv))
        { s with docs := setLast ndv.appid ndv.docid ndv.version s.docs }

/-- What a call at a point relies on: rows stay, the versions of a document with an open transaction
stay as they are, and nobody else uses the row number that it took. -/
structure Undisturbed (q : VersionPoint) (s s' : Store) : Prop where
  wf : VersionsWf s → VersionsWf s'
  grows : entries s.versions ⊆ entries s'.versions
  next : s.versions.next ≤ s'.versions.next
  snapshot : ∀ appid docid, transactionOf q = some (appid, docid) →
    versionNumbers appid docid s'.versions = versionNumbers appid docid s.versions
  reserved : ∀ id, reservedOf q = some id → ∀ e ∈ entries s'.versions, e.1 = id →
    e ∈ entries s.versions

theorem Undisturbed.refl (q : VersionPoint) (s : Store) : Undisturbed q s s :=
  ⟨fun wf => wf, Set.Subset.refl _, Int.le_refl _, fun _ _ _ => rfl, fun _ _ _ member _ => member⟩

theorem Undisturbed.trans {q : VersionPoint} {s₁ s₂ s₃ : Store} (first : Undisturbed q s₁ s₂)
    (second : Undisturbed q s₂ s₃) : Undisturbed q s₁ s₃ where
  wf holds := second.wf (first.wf holds)
  grows := first.grows.trans second.grows
  next := first.next.trans second.next
  snapshot appid docid inside :=
    (second.snapshot appid docid inside).trans (first.snapshot appid docid inside)
  reserved id taken e member same :=
    first.reserved id taken e (second.reserved id taken e member same) same

section Outline

variable {session : Session} {docid : Int} {s : Store}

end Outline

/-! ## What a step changes -/

namespace Moved

variable {step : DbStep} {q : VersionPoint} {s s' : Store} {appid docid : Int}

theorem transaction (moved : Moved s step q s') (inside : transactionOf q = some (appid, docid)) :
    transactionOf (.before step) = some (appid, docid) ∨ step = .selectMaxVersion appid docid := by
  cases moved with
  | keyed | unnamed | refused | committed | written | linked => cases inside
  | selected =>
    obtain ⟨rfl, rfl⟩ := Prod.mk.inj (Option.some.inj inside)
    exact .inr rfl
  | inserted | readBack => exact .inl inside

theorem next (moved : Moved s step q s') : s.versions.next ≤ s'.versions.next := by
  cases moved with
  | keyed versions _ | unnamed versions _ => rw [versions]
  | selected | refused | readBack | linked => exact Int.le_refl _
  | inserted => exact Int.le_of_lt (Int.lt_succ _)
  | committed _ _ next _ | written _ next _ => exact next.ge

theorem reserved {id : Int} (moved : Moved s step q s') (taken : reservedOf q = some id) :
    reservedOf (.before step) = some id ∨
      (id = s.versions.next ∧ s'.versions.next = s.versions.next + 1) := by
  cases moved with
  | keyed | unnamed | selected | refused | committed | written | linked => cases taken
  | inserted => exact .inr ⟨(Option.some.inj taken).symm, rfl⟩
  | readBack => exact .inl taken

theorem given (moved : Moved s step q s') (has : givenOf q = some (appid, docid, version)) :
    givenOf (.before step) = some (appid, docid, version) ∨
      ∃ id, step = .commitVersion appid docid id version := by
  cases moved with
  | keyed | unnamed | selected | refused | inserted | readBack => cases has
  | written | linked => exact .inl has
  | committed =>
    obtain ⟨rfl, rest⟩ := Prod.mk.inj (Option.some.inj has)
    obtain ⟨rfl, rfl⟩ := Prod.mk.inj rest
    exact .inr ⟨_, rfl⟩

/-- A version stays pending until it is written to its document. -/
theorem pending_iff (moved : Moved s step q s')
    (noCommit : ∀ id version, step ≠ .commitVersion appid docid id version)
    (noLink : ∀ version, step ≠ .updateDocMeta appid docid version) :
    pendingOf q = some (appid, docid, version) ↔
      pendingOf (.before step) = some (appid, docid, version) := by
  cases moved with
  | keyed | unnamed | selected | refused | inserted | readBack => exact iff_of_false nofun nofun
  | written => exact Iff.rfl
  | committed =>
    refine iff_of_false (fun has => ?_) nofun
    obtain ⟨rfl, rest⟩ := Prod.mk.inj (Option.some.inj has)
    obtain ⟨rfl, rfl⟩ := Prod.mk.inj rest
    exact noCommit _ _ rfl
  | linked =>
    refine iff_of_false nofun fun has => ?_
    obtain ⟨sameApp, rest⟩ := Prod.mk.inj (Option.some.inj has)
    obtain ⟨sameDoc, -⟩ := Prod.mk.inj rest
    rw [← sameApp, ← sameDoc] at noLink
    exact noLink _ rfl

theorem numbers (moved : Moved s step q s') {n : Int} :
    n ∈ versionNumbers appid docid s'.versions ↔
      n ∈ versionNumbers appid docid s.versions ∨
        ∃ id, step = .commitVersion appid docid id n := by
  cases moved with
  | keyed versions _ | unnamed versions _ =>
    rw [versions]
    exact (or_iff_left nofun).symm
  | selected | refused | inserted | readBack | linked => exact (or_iff_left nofun).symm
  | written same _ _ =>
    rw [versionNumbers_congr same]
    exact (or_iff_left nofun).symm
  | committed _ added _ _ =>
    rw [mem_versionNumbers_commit added]
    refine or_congr_right ⟨?_, ?_⟩
    · rintro ⟨owner, rfl⟩
      obtain ⟨rfl, rfl⟩ := Prod.mk.inj owner
      exact ⟨_, rfl⟩
    · rintro ⟨id, same⟩
      cases same
      exact ⟨rfl, rfl⟩

theorem last (moved : Moved s step q s')
    (noLink : ∀ version, step ≠ .updateDocMeta appid docid version) :
    lastVersions appid docid s'.docs = lastVersions appid docid s.docs := by
  cases moved with
  | keyed _ docs | unnamed _ docs | committed _ _ _ docs | written _ _ docs => rw [docs]
  | selected | refused | inserted | readBack => rfl
  | @linked ndv appid_ne docid_ne =>
    refine lastVersions_setLast_ne appid_ne docid_ne _ fun same => ?_
    obtain ⟨sameApp, sameDoc⟩ := Prod.mk.inj same
    rw [← sameApp, ← sameDoc] at noLink
    exact noLink _ rfl

end Moved

/-! ## All calls together -/

section Run

variable {ι : Type} [DecidableEq ι] {points : ι → VersionPoint} {i : ι} {q : VersionPoint}
  {start s s' : Store} {step : DbStep} {appid docid : Int}

/-- No two calls have the same value of an attribute. -/
def Apart {X : Type} (f : VersionPoint → Option X) (points : ι → VersionPoint) : Prop :=
  ∀ i j, i ≠ j → ∀ x, f (points i) = some x → f (points j) ≠ some x

theorem Apart.update {X : Type} {f : VersionPoint → Option X} (apart : Apart f points)
    (new : ∀ x, f q = some x → f (points i) = some x ∨ ∀ j, j ≠ i → f (points j) ≠ some x) :
    Apart f (Function.update points i q) := by
  have others : ∀ j, j ≠ i → ∀ x, f q = some x → f (points j) ≠ some x := by
    intro j other x here
    rcases new x here with before | free
    · exact apart i j other.symm x before
    · exact free j other
  intro j k other x atJ atK
  by_cases first : j = i
  · subst first
    rw [Function.update_self] at atJ
    rw [Function.update_of_ne other.symm] at atK
    exact others k other.symm x atJ atK
  · rw [Function.update_of_ne first] at atJ
    by_cases second : k = i
    · subst second
      rw [Function.update_self] at atK
      exact others j first x atK atJ
    · rw [Function.update_of_ne second] at atK
      exact apart j k other x atJ atK

/-- The lastVersion of a document is the greatest version, or the greatest one is still to be written;
or nothing has happened to the document yet. -/
def Settled (start : Store) (points : ι → VersionPoint) (s : Store) (appid docid : Int) : Prop :=
  (∃ i version, pendingOf (points i) = some (appid, docid, version) ∧
      IsGreatest (versionNumbers appid docid s.versions) version) ∨
    ((∀ i version, pendingOf (points i) ≠ some (appid, docid, version)) ∧
      ((∀ n ∈ lastVersions appid docid s.docs,
          IsGreatest (versionNumbers appid docid s.versions) n) ∨
        ((∀ i version, givenOf (points i) ≠ some (appid, docid, version)) ∧
          versionNumbers appid docid s.versions = versionNumbers appid docid start.versions ∧
          lastVersions appid docid s.docs = lastVersions appid docid start.docs)))

/-- What holds of all calls at every moment. -/
structure Ordered (start : Store) (points : ι → VersionPoint) (s : Store) : Prop where
  transactions : Apart transactionOf points
  reserved : Apart reservedOf points
  reservedBelow : ∀ i id, reservedOf (points i) = some id → id < s.versions.next
  given : Apart givenOf points
  givenIn : ∀ i appid docid version, givenOf (points i) = some (appid, docid, version) →
    version ∈ versionNumbers appid docid s.versions
  settled : ∀ appid docid, Settled start points s appid docid

/-- The document whose transaction a step begins. -/
def beginsOf : DbStep → Option (Int × Int)
  | .selectMaxVersion appid docid => some (appid, docid)
  | _ => none

/-- The version that a step writes to its document. -/
def linksOf : DbStep → Option (Int × Int × Int)
  | .updateDocMeta appid docid version => some (appid, docid, version)
  | _ => none

/-- A transaction of a document begins while no other one of it is open, and a version is written to
its document while no smaller one is still to be written. -/
def inOrder (step : DbStep) (q : VersionPoint) : Prop :=
  (∀ document ∈ beginsOf step, transactionOf q ≠ some document) ∧
    ∀ x ∈ linksOf step, ∀ y ∈ pendingOf q, (y.1, y.2.1) = (x.1, x.2.1) → x.2.2 ≤ y.2.2

instance (step : DbStep) (q : VersionPoint) : Decidable (inOrder step q) :=
  inferInstanceAs (Decidable (_ ∧ _))

theorem givenOf_of_pending {x : Int × Int × Int} (pending : pendingOf q = some x) :
    givenOf q = some x := by
  cases q with
  | before step => exact pending
  | returned result => cases pending

/-- A call on another document, or before its commit, does not unsettle a document. -/
theorem Settled.other (settled : Settled start points s appid docid) (here : points i = .before step)
    (moved : Moved s step q s')
    (noCommit : ∀ id version, step ≠ .commitVersion appid docid id version)
    (noLink : ∀ version, step ≠ .updateDocMeta appid docid version) :
    Settled start (Function.update points i q) s' appid docid := by
  have numbers : versionNumbers appid docid s'.versions = versionNumbers appid docid s.versions := by
    ext n
    rw [moved.numbers]
    exact or_iff_left fun ⟨id, same⟩ => noCommit id n same
  have pending : ∀ j version,
      pendingOf (Function.update points i q j) = some (appid, docid, version) ↔
        pendingOf (points j) = some (appid, docid, version) := by
    intro j version
    by_cases same : j = i
    · subst same
      rw [Function.update_self, here]
      exact moved.pending_iff noCommit noLink
    · rw [Function.update_of_ne same]
  unfold Settled
  rw [numbers, moved.last noLink]
  simp only [pending, ne_eq]
  refine settled.imp id (And.imp_right (Or.imp_right (And.imp_left fun none_ j version => ?_)))
  by_cases same : j = i
  · subst same
    rw [Function.update_self]
    intro has
    rcases moved.given has with before | ⟨id, commit⟩
    · rw [← here] at before
      exact none_ j version before
    · exact noCommit id version commit
  · rw [Function.update_of_ne same]
    exact none_ j version

/-- The lastVersion of a document is written. -/
theorem Settled.link (ordered : Ordered start points s)
    (here : points i = .before (.updateDocMeta appid docid version))
    (order : ∀ j, j ≠ i → inOrder (.updateDocMeta appid docid version) (points j))
    (moved : Moved s (.updateDocMeta appid docid version) q s') :
    Settled start (Function.update points i q) s' appid docid := by
  have own : pendingOf (points i) = some (appid, docid, version) := by
    rw [here]
    rfl
  have done : pendingOf q = none := by
    cases moved with
    | linked => rfl
  have numbers : versionNumbers appid docid s'.versions = versionNumbers appid docid s.versions := by
    ext n
    rw [moved.numbers]
    exact or_iff_left nofun
  rcases ordered.settled appid docid with ⟨j, greatest, pending, isGreatest⟩ | ⟨none_, -⟩
  · by_cases same : j = i
    · -- the greatest version is written: every other pending one would be smaller
      subst same
      obtain rfl : greatest = version := by
        rw [own] at pending
        exact (Prod.mk.inj (Prod.mk.inj (Option.some.inj pending)).2).2.symm
      refine .inr ⟨fun k smaller => ?_, .inl ?_⟩
      · by_cases self : k = j
        · subst self
          rw [Function.update_self, done]
          exact nofun
        · rw [Function.update_of_ne self]
          intro waits
          have low := isGreatest.2 (ordered.givenIn k _ _ _ (givenOf_of_pending waits))
          have high : greatest ≤ smaller := (order k self).2 _ rfl _ waits rfl
          obtain rfl : greatest = smaller := Int.le_antisymm high low
          exact ordered.given j k (Ne.symm self) _ (givenOf_of_pending own)
            (givenOf_of_pending waits)
      · rw [numbers]
        cases moved with
        | linked =>
          intro n inside
          rw [lastVersions_setLast_self] at inside
          exact inside.1 ▸ isGreatest
    · refine .inl ⟨j, greatest, ?_, numbers ▸ isGreatest⟩
      rwa [Function.update_of_ne same]
  · exact absurd own (none_ i version)

theorem Ordered.advance (ordered : Ordered start points s) (here : points i = .before step)
    (order : ∀ j, j ≠ i → inOrder step (points j)) (moved : Moved s step q s') :
    Ordered start (Function.update points i q) s' where
  transactions := ordered.transactions.update fun x inside => by
    rcases moved.transaction inside with before | rfl
    · exact .inl (here ▸ before)
    · exact .inr fun j other => (order j other).1 _ rfl
  reserved := ordered.reserved.update fun id taken => by
    rcases moved.reserved taken with before | ⟨rfl, -⟩
    · exact .inl (here ▸ before)
    · exact .inr fun j _ has => Int.lt_irrefl _ (ordered.reservedBelow j _ has)
  reservedBelow j id taken := by
    by_cases same : j = i
    · subst same
      rw [Function.update_self] at taken
      rcases moved.reserved taken with before | ⟨rfl, next⟩
      · exact Int.lt_of_lt_of_le (ordered.reservedBelow j id (here ▸ before)) moved.next
      · rw [next]
        exact Int.lt_succ _
    · rw [Function.update_of_ne same] at taken
      exact Int.lt_of_lt_of_le (ordered.reservedBelow j id taken) moved.next
  given := ordered.given.update fun x has => by
    rcases moved.given has with before | ⟨id, rfl⟩
    · exact .inl (here ▸ before)
    · refine .inr fun j _ old => ?_
      have inside := ordered.givenIn j _ _ _ old
      cases moved with
      | committed above => exact Int.lt_irrefl _ (above _ inside)
  givenIn j appid docid version has := by
    rw [moved.numbers]
    by_cases same : j = i
    · subst same
      rw [Function.update_self] at has
      rcases moved.given has with before | commit
      · exact .inl (ordered.givenIn j _ _ _ (here ▸ before))
      · exact .inr commit
    · rw [Function.update_of_ne same] at has
      exact .inl (ordered.givenIn j _ _ _ has)
  settled appid docid := by
    by_cases commit : ∃ id version, step = .commitVersion appid docid id version
    · obtain ⟨id, version, rfl⟩ := commit
      refine .inl ⟨i, version, ?_, moved.numbers.mpr (.inr ⟨id, rfl⟩), fun n inside => ?_⟩
      · rw [Function.update_self]
        cases moved with
        | committed => rfl
      · rcases moved.numbers.mp inside with old | ⟨id', same⟩
        · cases moved with
          | committed above => exact Int.le_of_lt (above n old)
        · cases same
          exact Int.le_refl _
    · by_cases link : ∃ version, step = .updateDocMeta appid docid version
      · obtain ⟨version, rfl⟩ := link
        exact Settled.link ordered here order moved
      · exact (ordered.settled appid docid).other here moved
          (fun id version same => commit ⟨id, version, same⟩) fun version same => link ⟨version, same⟩

/-- A call of `createDocVersion`. -/
structure VersionCall where
  session : Session
  docid : Int
  filename : Option Text
  size : Int

def VersionCall.pool (calls : ι → VersionCall) (start : Store) :
    Lib.Pool ι DbStep Store Fault DocVersion :=
  ⟨fun i => Stepwise.createDocVersion (calls i).session (calls i).docid (calls i).filename
    (calls i).size, start⟩

end Run

/-! ## Two calls on one document -/

/-- A document with one version. -/
def oneVersion : List Call := [.createDoc 0 (namedFile "a".toList)]

end Clb
