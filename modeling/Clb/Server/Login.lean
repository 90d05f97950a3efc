/-
# Server.Login -- logins that run at the same time

An application is registered by its first login. Between the select and the insert of `authenticate`
another login may register the same name, and only the unique index on the name, which compares names
as the collation does (`fold`), tells them apart. `logins_agree` says that this is enough: in every
interleaving one name is one application, with one password. -/
import Clb.Dao.Tables
import Clb.Lib.Interleave
import Clb.Lib.Table

set_option autoImplicit false

namespace Clb

open Clb.Lib Clb.Dao Clb.Lib.Action

/-- A row of `clb_app_auth`. -/
structure AppAuthInfo where
  id : Int := -1
  name : Option Text
  password : Text
deriving DecidableEq, Repr

inductive AuthStep where
  | getAppAuthInfo
  | save

section Login

variable {κ : Type} [DecidableEq κ] (fold : Text → κ)

/-- `name=:name`, which is true of no null. -/
def AppAuthInfo.named (name : Option Text) (row : AppAuthInfo) : Bool :=
  decide (name.map fold ≠ none ∧ row.name.map fold = name.map fold)

namespace AppAuthDAO

def getAppAuthInfo (name : Option Text) : Action (Table AppAuthInfo) Fault (Option AppAuthInfo) :=
  Action.read fun t => t.rows.find? (AppAuthInfo.named fold name)

/-- The columns hold the values, and the name is not in the index. -/
def admits (info : AppAuthInfo) (t : Table AppAuthInfo) : Bool :=
  (info.name.getD []).length ≤ 255 && (info.password.flatMap String.utf8EncodeChar).length ≤ 255 &&
    t.rows.all (!AppAuthInfo.named fold info.name ·)

def save (info : AppAuthInfo) : Action (Table AppAuthInfo) Fault Int := fun t =>
  if admits fold info t then (.ok t.next, t.insert (fun id row => { row with id }) info)
  else (.error .dataIntegrity, t)

end AppAuthDAO

/-- `IAppAuthService.authenticate`. -/
def authenticate (name password : Option Text) :
    Steps AuthStep (Table AppAuthInfo) Fault (Option AppAuthInfo) := do
  let password := password.getD []
  let appAuth ← Steps.statement .getAppAuthInfo (AppAuthDAO.getAppAuthInfo fold name)
  match appAuth with
  | some appAuth => if password = appAuth.password then pure (some appAuth) else pure none
  | none => do
      let info : AppAuthInfo := { name, password }
      let appid ← Steps.statement .save (AppAuthDAO.save fold info)
      pure (some { info with id := appid })

/-- The rows are numbered, and a name belongs to one of them. -/
structure Registered (t : Table AppAuthInfo) : Prop where
  numbered : t.Numbered AppAuthInfo.id
  unique : ∀ a ∈ t.rows, ∀ b ∈ t.rows, b.named fold a.name = true → b = a

/-- Rows are added, and the index is respected. -/
def registration : Discipline AuthStep (Table AppAuthInfo) Fault (Option AppAuthInfo) where
  allowed _ _ := True
  rely _ t t' := t.rows ⊆ t'.rows
  guarantee _ _ t t' := t.rows ⊆ t'.rows ∧ (Registered fold t → Registered fold t')
  rely_refl _ _ := List.Subset.refl _
  rely_trans _ _ _ _ := List.Subset.trans
  compatible _ guaranteed := guaranteed.1

/-- The row behind an answer. -/
def Vouched (name password : Option Text) (r : Except Fault (Option AppAuthInfo))
    (t : Table AppAuthInfo) : Prop :=
  match r with
  | .ok (some info) => info ∈ t.rows ∧ info.name.map fold = name.map fold ∧
      info.password = password.getD []
  | .ok none => ∃ row ∈ t.rows, row.named fold name = true ∧ row.password ≠ password.getD []
  | .error fault => fault = .dataIntegrity

variable {fold}

theorem Registered.insert {t : Table AppAuthInfo} {info : AppAuthInfo} (registered : Registered fold t)
    (free : ∀ row ∈ t.rows, row.named fold info.name = false) :
    Registered fold (t.insert (fun id row => { row with id }) info) where
  numbered := registered.numbered.insert (fun _ _ => rfl) info
  unique := by
    have old := registered.unique
    simp only [AppAuthInfo.named, Table.rows_insert, List.mem_append, List.mem_singleton] at *
    grind

theorem stands_authenticate (name password : Option Text) (t : Table AppAuthInfo) :
    (registration fold).Stands (Vouched fold name password) (authenticate fold name password) t := by
  refine Discipline.stands_bind fun t₁ _ => ends_read ⟨⟨List.Subset.refl _, id⟩, ?_⟩
  unfold Steps.resume
  cases found : t₁.rows.find? (AppAuthInfo.named fold name) with
  | some row =>
    have member := List.mem_of_find?_eq_some found
    have named := List.find?_some found
    dsimp only
    split
    · rename_i same
      exact fun t₂ more => ⟨more member, (of_decide_eq_true named).2, same.symm⟩
    · rename_i other
      exact fun t₂ more => ⟨row, more member, named, Ne.symm other⟩
  | none =>
    refine Discipline.stands_bind fun t₂ _ => ?_
    unfold AppAuthDAO.save
    by_cases free : AppAuthDAO.admits fold { name, password := password.getD [] } t₂ = true
    · refine ends_of_eq (if_pos free) ⟨⟨List.subset_append_left _ _, fun registered => ?_⟩, ?_⟩
      · simp only [AppAuthDAO.admits, Bool.and_eq_true, List.all_eq_true, Bool.not_eq_true'] at free
        exact registered.insert free.2
      · exact fun t₃ more => ⟨more List.mem_concat_self, rfl, rfl⟩
    · exact ends_of_eq (if_neg free) ⟨⟨List.Subset.refl _, id⟩, fun _ _ => rfl⟩

end Login

section Run

variable {κ ι : Type} [DecidableEq κ] [DecidableEq ι] {fold : Text → κ}
variable {names passwords : ι → Option Text} {start : Table AppAuthInfo}
variable {pool : Pool ι AuthStep (Table AppAuthInfo) Fault (Option AppAuthInfo)}

/-- **One name is one application.** Any number of logins run at the same time, from any table of
registered applications. Who entered under a name has the application of all who entered under that
name and of no other, all of them gave the same password, and who gave it was not refused. -/
theorem logins_agree (registered : Registered fold start) (run : Reaches Pool.turn (fun _ _ => True)
      ⟨fun i => authenticate fold (names i) (passwords i), start⟩ pool)
    {i j : ι} {name : Text} (given : names i = some name) {info : AppAuthInfo}
    (entered : pool.Returned i (.ok (some info))) :
    (∀ other, pool.Returned j (.ok (some other)) →
      (other.id = info.id ↔ (names j).map fold = some (fold name)) ∧
        (other.id = info.id → (passwords j).getD [] = (passwords i).getD [])) ∧
      (pool.Returned j (.ok none) → (names j).map fold = some (fold name) →
        (passwords j).getD [] ≠ (passwords i).getD []) := by
  obtain ⟨stands, last⟩ := @Pool.outlined _ _ _ _ _ _ (registration fold)
    (fun i => Vouched fold (names i) (passwords i)) _ _ (fun pool => Registered fold pool.shared) _ run
    (fun _ _ _ _ _ _ _ _ => trivial) (fun i => stands_authenticate (names i) (passwords i) start)
    registered fun _ _ _ _ _ _ _ guaranteed kept => guaranteed.2 kept
  obtain ⟨member, named, password⟩ := (stands i).ended entered
  have folded : info.name.map fold = some (fold name) := by rw [named, given]; rfl
  have only : ∀ row ∈ pool.shared.rows, row.name.map fold = some (fold name) → row = info :=
    fun row inside same => last.unique info member row inside
      (decide_eq_true ⟨by simp [folded], same.trans folded.symm⟩)
  refine ⟨fun other entered' => ?_, fun refused same => ?_⟩
  · obtain ⟨member', named', password'⟩ := (stands j).ended entered'
    have equal := fun same => last.numbered.eq_of_ident_eq member' member same
    rw [← named', ← password, ← password']
    exact ⟨⟨fun same => equal same ▸ folded, fun same => by rw [only other member' same]⟩,
      fun same => by rw [equal same]⟩
  · obtain ⟨row, inside, named', password'⟩ := (stands j).ended refused
    rw [← password, ← only row inside ((of_decide_eq_true named').2.trans same)]
    exact password'.symm

/-- Two logins that spell one name differently. -/
def spellings : Pool Bool AuthStep (Table AppAuthInfo) Fault (Option AppAuthInfo) :=
  ⟨fun i => authenticate (List.map Char.toLower) (some (if i then ['A'] else ['a'])) none, .empty⟩

theorem logins_agree_spellings :
    let pool := Lib.run Pool.turn [false, false, true] spellings
    ∃ info other, pool.Returned false (.ok (some info)) ∧ pool.Returned true (.ok (some other)) ∧
      other.id = info.id := by
  refine ⟨⟨1, some ['a'], []⟩, ⟨1, some ['a'], []⟩, rfl, rfl, ?_⟩
  have run : Reaches Pool.turn (fun _ _ => True) spellings _ :=
    .append .refl (admits_always [false, false, true] _)
  exact ((logins_agree (i := false) (j := true) ⟨.empty, fun _ none => nomatch none⟩ run rfl rfl).1 _
    rfl).1.mpr rfl

end Run

end Clb
