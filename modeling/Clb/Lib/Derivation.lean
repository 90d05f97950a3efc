/-
# Lib.Derivation -- files that are made from sources, and the rows that keep track of them

A row belongs to an owner, names the key its file is stored under, and may call the file ready. To make
the file, a source is asked for under a key; later the file is there, made from that source. An owner
has a current source, and the question is whether a ready row has a file made from it.

`Step` lists what may happen: rows are rewritten or dropped, a row enters with a key that nothing
mentions, a file is asked for and made. `Fresh` is the invariant: what was asked for or made under the
key of a row comes from the current source of its owner, and a ready row has a file
(`Fresh.product`). `Steps.fresh` says that steps keep it, `Fresh.of_current` that it outlives a change
of the sources that leaves the owners of rows alone. -/
import Mathlib.Data.Set.Insert
import Mathlib.Logic.Relation

set_option autoImplicit false

namespace Clb.Lib

/-- What a row says. -/
structure Ledger (Row Owner Key : Type) where
  owner : Row → Owner
  target : Row → Option Key
  ready : Row → Prop

/-- The rows, what was asked for under which key, and the files under which key, each with the source
it is made from. -/
structure Derivation (Row Key Source : Type) where
  rows : Set Row
  asked : Set (Key × Source)
  files : Set (Key × Source)

namespace Derivation

variable {Row Owner Key Source : Type} (ledger : Ledger Row Owner Key)

/-- A row, a request or a file has the key. -/
def Mentions (d : Derivation Row Key Source) (key : Key) : Prop :=
  (∃ row ∈ d.rows, ledger.target row = some key) ∨
    (∃ source, (key, source) ∈ d.asked) ∨ ∃ source, (key, source) ∈ d.files

/-- The row is the continuation of an old one: it keeps the owner and the key, and is ready only if the
old one was or a file is there. -/
def Continues (d : Derivation Row Key Source) (row : Row) : Prop :=
  ∃ old ∈ d.rows, ledger.owner row = ledger.owner old ∧ ledger.target row = ledger.target old ∧
    (ledger.ready row → ledger.ready old ∨
      ∃ key source, ledger.target old = some key ∧ (key, source) ∈ d.files)

/-- What may happen to a derivation. A row enters for one of `owners`, or for the owner of another row,
with one of `keys`; `current` says which source an owner has. -/
inductive Step (owners : Owner → Prop) (keys : Key → Prop) (current : Owner → Source → Prop)
    (d : Derivation Row Key Source) : Derivation Row Key Source → Prop
  | rewrite (rows : Set Row) (continued : ∀ row ∈ rows, Continues ledger d row) :
      Step owners keys current d { d with rows }
  | enter (rows : Set Row) (owner : Owner) (key : Key) (unused : ¬ Mentions ledger d key)
      (known : owners owner ∨ ∃ old ∈ d.rows, ledger.owner old = owner) (issued : keys key)
      (entered : ∀ row ∈ rows, row ∈ d.rows ∨
        (ledger.owner row = owner ∧ ledger.target row = some key ∧ ¬ ledger.ready row)) :
      Step owners keys current d { d with rows }
  | ask (row : Row) (key : Key) (source : Source) (member : row ∈ d.rows)
      (named : ledger.target row = some key) (has : current (ledger.owner row) source) :
      Step owners keys current d { d with asked := insert (key, source) d.asked }
  | finish (key : Key) (source : Source) (wanted : (key, source) ∈ d.asked) :
      Step owners keys current d { d with files := insert (key, source) d.files }
  | forget (asked : Set (Key × Source)) (fewer : asked ⊆ d.asked) :
      Step owners keys current d { d with asked }

/-- Any number of steps. -/
def Steps (owners : Owner → Prop) (keys : Key → Prop) (current : Owner → Source → Prop) :
    Derivation Row Key Source → Derivation Row Key Source → Prop :=
  Relation.ReflTransGen (Step ledger owners keys current)

structure Fresh (current : Owner → Source → Prop) (d : Derivation Row Key Source) : Prop where
  traced : ∀ row ∈ d.rows, ∀ key source, ledger.target row = some key →
    (key, source) ∈ d.asked ∨ (key, source) ∈ d.files → current (ledger.owner row) source
  apart : ∀ row ∈ d.rows, ∀ row' ∈ d.rows, ∀ key, ledger.target row = some key →
    ledger.target row' = some key → ledger.owner row = ledger.owner row'
  stored : ∀ row ∈ d.rows, ledger.ready row →
    ∃ key source, ledger.target row = some key ∧ (key, source) ∈ d.files

/-- Every owner of a row is in `owners`, every key that is mentioned in `keys`. -/
structure Within (owners : Owner → Prop) (keys : Key → Prop) (d : Derivation Row Key Source) :
    Prop where
  owned : ∀ row ∈ d.rows, owners (ledger.owner row)
  mentioned : ∀ key, Mentions ledger d key → keys key

variable {ledger} {owners owners' : Owner → Prop} {keys keys' : Key → Prop}
  {current current' : Owner → Source → Prop} {d d' d'' : Derivation Row Key Source}

/-! ## Composing steps -/

theorem Step.mono (step : Step ledger owners keys current d d')
    (known : ∀ owner, owners owner → owners' owner) (issued : ∀ key, keys key → keys' key)
    (has : ∀ owner source, current owner source → current' owner source) :
    Step ledger owners' keys' current' d d' := by
  cases step with
  | rewrite rows continued => exact .rewrite rows continued
  | enter rows owner key unused knows issues entered =>
    exact .enter rows owner key unused (knows.imp_left (known owner)) (issued key issues) entered
  | ask row key source member named current => exact .ask row key source member named (has _ _ current)
  | finish key source wanted => exact .finish key source wanted
  | forget asked fewer => exact .forget asked fewer

theorem Steps.refl : Steps ledger owners keys current d d := Relation.ReflTransGen.refl

theorem Steps.single (step : Step ledger owners keys current d d') :
    Steps ledger owners keys current d d' :=
  Relation.ReflTransGen.single step

theorem Steps.trans (first : Steps ledger owners keys current d d')
    (next : Steps ledger owners keys current d' d'') : Steps ledger owners keys current d d'' :=
  Relation.ReflTransGen.trans first next

theorem Steps.mono (steps : Steps ledger owners keys current d d')
    (known : ∀ owner, owners owner → owners' owner) (issued : ∀ key, keys key → keys' key)
    (has : ∀ owner source, current owner source → current' owner source) :
    Steps ledger owners' keys' current' d d' := by
  induction steps with
  | refl => exact Relation.ReflTransGen.refl
  | tail _ step ih => exact Relation.ReflTransGen.tail ih (step.mono known issued has)

/-! ## The invariants -/

theorem Fresh.rewrite (fresh : Fresh ledger current d) {rows : Set Row}
    (continued : ∀ row ∈ rows, Continues ledger d row) :
    Fresh ledger current { d with rows } where
  traced row member key source named made := by
    obtain ⟨old, inside, owner, target, -⟩ := continued row member
    rw [owner]
    exact fresh.traced old inside key source (target ▸ named) made
  apart row member row' member' key named named' := by
    obtain ⟨old, inside, owner, target, -⟩ := continued row member
    obtain ⟨old', inside', owner', target', -⟩ := continued row' member'
    rw [owner, owner']
    exact fresh.apart old inside old' inside' key (target ▸ named) (target' ▸ named')
  stored row member ready := by
    obtain ⟨old, inside, -, target, readied⟩ := continued row member
    rw [target]
    rcases readied ready with before | there
    · exact fresh.stored old inside before
    · exact there

theorem Fresh.enter (fresh : Fresh ledger current d) {rows : Set Row} {owner : Owner} {key : Key}
    (unused : ¬ Mentions ledger d key)
    (entered : ∀ row ∈ rows, row ∈ d.rows ∨
      (ledger.owner row = owner ∧ ledger.target row = some key ∧ ¬ ledger.ready row)) :
    Fresh ledger current { d with rows } where
  traced row member key' source named made := by
    rcases entered row member with inside | ⟨-, target, -⟩
    · exact fresh.traced row inside key' source named made
    · obtain rfl : key = key' := Option.some.inj (target.symm.trans named)
      rcases made with asked | filed
      · exact absurd (.inr (.inl ⟨source, asked⟩)) unused
      · exact absurd (.inr (.inr ⟨source, filed⟩)) unused
  apart row member row' member' key' named named' := by
    rcases entered row member with inside | ⟨owned, target, -⟩
    · rcases entered row' member' with inside' | ⟨-, target', -⟩
      · exact fresh.apart row inside row' inside' key' named named'
      · obtain rfl : key = key' := Option.some.inj (target'.symm.trans named')
        exact absurd (.inl ⟨row, inside, named⟩) unused
    · obtain rfl : key = key' := Option.some.inj (target.symm.trans named)
      rcases entered row' member' with inside' | ⟨owned', -, -⟩
      · exact absurd (.inl ⟨row', inside', named'⟩) unused
      · rw [owned, owned']
  stored row member ready := by
    rcases entered row member with inside | ⟨-, -, waits⟩
    · exact fresh.stored row inside ready
    · exact absurd ready waits

theorem Fresh.ask (fresh : Fresh ledger current d) {row : Row} {key : Key} {source : Source}
    (member : row ∈ d.rows) (named : ledger.target row = some key)
    (has : current (ledger.owner row) source) :
    Fresh ledger current { d with asked := insert (key, source) d.asked } where
  traced row' member' key' source' named' made := by
    rcases made with (same | asked) | filed
    · obtain ⟨rfl, rfl⟩ := Prod.mk.inj same
      -- rows with the same key have the same owner
      rw [fresh.apart row' member' row member key' named' named]
      exact has
    · exact fresh.traced row' member' key' source' named' (.inl asked)
    · exact fresh.traced row' member' key' source' named' (.inr filed)
  apart := fresh.apart
  stored := fresh.stored

theorem Fresh.finish (fresh : Fresh ledger current d) {key : Key} {source : Source}
    (wanted : (key, source) ∈ d.asked) :
    Fresh ledger current { d with files := insert (key, source) d.files } where
  traced row member key' source' named made := by
    rcases made with asked | same | filed
    · exact fresh.traced row member key' source' named (.inl asked)
    · obtain ⟨rfl, rfl⟩ := Prod.mk.inj same
      exact fresh.traced row member key' source' named (.inl wanted)
    · exact fresh.traced row member key' source' named (.inr filed)
  apart := fresh.apart
  stored row member ready := by
    obtain ⟨key', source', named, filed⟩ := fresh.stored row member ready
    exact ⟨key', source', named, .inr filed⟩

/-- One step keeps the invariant. -/
theorem Step.fresh (step : Step ledger owners keys current d d') (fresh : Fresh ledger current d) :
    Fresh ledger current d' := by
  cases step with
  | rewrite rows continued => exact fresh.rewrite continued
  | enter rows owner key unused _ _ entered => exact fresh.enter unused entered
  | ask row key source member named has => exact fresh.ask member named has
  | finish key source wanted => exact fresh.finish wanted
  | forget asked fewer =>
    exact
      { fresh with
        traced := fun row member key source named made =>
          fresh.traced row member key source named (made.imp_left fun inside => fewer inside) }

theorem Steps.fresh (steps : Steps ledger owners keys current d d') (fresh : Fresh ledger current d) :
    Fresh ledger current d' := by
  induction steps with
  | refl => exact fresh
  | tail _ step ih => exact step.fresh ih

/-- The sources may change, except those of the owners of rows. -/
theorem Fresh.of_current (fresh : Fresh ledger current d)
    (kept : ∀ row ∈ d.rows, ∀ source, current (ledger.owner row) source →
      current' (ledger.owner row) source) : Fresh ledger current' d where
  traced row member key source named made :=
    kept row member source (fresh.traced row member key source named made)
  apart := fresh.apart
  stored := fresh.stored

/-- A ready row has a file made from the current source of its owner. -/
theorem Fresh.product (fresh : Fresh ledger current d) {row : Row} (member : row ∈ d.rows)
    (ready : ledger.ready row) :
    ∃ key source, ledger.target row = some key ∧ (key, source) ∈ d.files ∧
      current (ledger.owner row) source := by
  obtain ⟨key, source, named, filed⟩ := fresh.stored row member ready
  exact ⟨key, source, named, filed, fresh.traced row member key source named (.inr filed)⟩

theorem Within.mono (within : Within ledger owners keys d) (more : ∀ key, keys key → keys' key) :
    Within ledger owners keys' d :=
  ⟨within.owned, fun key mentions => more key (within.mentioned key mentions)⟩

/-- Only what enters is new. -/
theorem Step.within (step : Step ledger owners keys current d d')
    (within : Within ledger owners keys d) : Within ledger owners keys d' := by
  cases step with
  | rewrite rows continued =>
    refine ⟨fun row member => ?_, fun key mentions => within.mentioned key ?_⟩
    · obtain ⟨old, inside, owner, -⟩ := continued row member
      rw [owner]
      exact within.owned old inside
    · rcases mentions with ⟨row, member, named⟩ | made
      · obtain ⟨old, inside, -, target, -⟩ := continued row member
        exact .inl ⟨old, inside, target ▸ named⟩
      · exact .inr made
  | enter rows owner key _ known issued entered =>
    refine ⟨fun row member => ?_, fun key' mentions => ?_⟩
    · rcases entered row member with inside | ⟨owned, -⟩
      · exact within.owned row inside
      · rw [owned]
        rcases known with owns | ⟨old, inside, same⟩
        · exact owns
        · exact same ▸ within.owned old inside
    · rcases mentions with ⟨row, member, named⟩ | made
      · rcases entered row member with inside | ⟨-, target, -⟩
        · exact within.mentioned key' (.inl ⟨row, inside, named⟩)
        · rw [Option.some.inj (named.symm.trans target)]
          exact issued
      · exact within.mentioned key' (.inr made)
  | ask row key source member named _ =>
    refine ⟨within.owned, fun key' mentions => within.mentioned key' ?_⟩
    rcases mentions with rows | ⟨source', same | asked⟩ | files
    · exact .inl rows
    · rw [(Prod.mk.inj same).1]
      exact .inl ⟨row, member, named⟩
    · exact .inr (.inl ⟨source', asked⟩)
    · exact .inr (.inr files)
  | finish key source wanted =>
    refine ⟨within.owned, fun key' mentions => within.mentioned key' ?_⟩
    rcases mentions with rows | asked | ⟨source', same | filed⟩
    · exact .inl rows
    · exact .inr (.inl asked)
    · rw [(Prod.mk.inj same).1]
      exact .inr (.inl ⟨source, wanted⟩)
    · exact .inr (.inr ⟨source', filed⟩)
  | forget asked fewer =>
    refine ⟨within.owned, fun key' mentions => within.mentioned key' ?_⟩
    rcases mentions with rows | ⟨source, inside⟩ | files
    · exact .inl rows
    · exact .inr (.inl ⟨source, fewer inside⟩)
    · exact .inr (.inr files)

theorem Steps.within (steps : Steps ledger owners keys current d d')
    (within : Within ledger owners keys d) : Within ledger owners keys d' := by
  induction steps with
  | refl => exact within
  | tail _ step ih => exact step.within ih

end Derivation

end Clb.Lib
