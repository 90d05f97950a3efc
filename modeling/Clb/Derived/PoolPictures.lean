/-
# Derived.PoolPictures -- what is stored under the key of a ready copy

A copy is READY with the size that its worker has computed, and what is stored under its key is what
stood in the temp file when the worker read it back. The temp file is named by type and source only, so
it is the worker's own file as long as no other worker resizes into it before the row is written.

Every event that was ever made is in a ghost set, in which the key of an item determines the event
(`Made`). `Pool.Follows` says how queue, threads, stored pictures and rows refer to that set; each
effect of a thread keeps it (`CallerEffect.follows`, `WorkerEffect.follows`), and it gives the pictures
of the ready rows:

* `ready_pictures`: they are right in every run in which a worker resizes into a file only while no other
  worker is between its resize and its row;
* `wrong_picture`: two requests with different points for one version leave a READY row of width 20
  whose key holds a picture of width 10. -/
import Clb.Derived.Alone
import Mathlib.Data.Fintype.Basic

set_option autoImplicit false
set_option linter.unusedSectionVars false

namespace Clb

open Clb.Lib Clb.Dao ImageFacade

def ImageItem.dims (i : ImageItem) : SizePair := ⟨i.width, i.height⟩

/-- The event whose copy a worker has written and not yet entered in the rows. -/
@[simp] def Worker.copying : Worker → Option ResizeEvent
  | .resized e _ | .stored e _ => some e
  | _ => none

@[simp] def Worker.resizing : Worker → Option ResizeEvent
  | .started e => some e
  | _ => none

@[simp] def WorkerStep.isResize : WorkerStep → Bool
  | .resize (some _) => true
  | _ => false

@[simp] def CallerStep.isQuery : CallerStep → Bool
  | .query _ => true
  | _ => false

namespace Pool

variable {C W : Type}

/-- Under the key of a row that is READY with a size stands the original of its version in that size, and
nothing else. -/
def RightPictures (s : Pool C W) : Prop :=
  ∀ row ∈ s.server.imageItems.rows, CLBStatus.isReady row.status = true →
    ∃ key, row.storageKey = some key ∧ (∃ picture, (key, picture) ∈ s.pictures) ∧
      ∀ picture, (key, picture) ∈ s.pictures → picture.size = row.dims ∧
        ∃ dv ∈ s.server.store.versions.rows, dv.pair = row.pair ∧ dv.storageKey = some picture.source

/-- No worker has a copy under way in the file that a worker is to resize into. -/
def OwnFile (s : Pool C W) (w : W) : Prop :=
  ∀ e ∈ (s.workers w).resizing, ∀ w', ∀ e' ∈ (s.workers w').copying, e'.slot ≠ e.slot

/-- Resize requests, and workers that resize into files of their own. -/
def OwnFiles (s : Pool C W) (label : PoolLabel C W) : Prop :=
  match label with
  | .caller _ act => act.isQuery = false
  | .worker w act => act.isResize → s.OwnFile w
  | _ => True

instance [Fintype W] (s : Pool C W) (w : W) : Decidable (s.OwnFile w) :=
  inferInstanceAs (Decidable (∀ e ∈ (s.workers w).resizing, ∀ w', ∀ e' ∈ (s.workers w').copying,
    e'.slot ≠ e.slot))

instance [Fintype W] (s : Pool C W) (label : PoolLabel C W) : Decidable (s.OwnFiles label) :=
  match label with
  | .caller _ act => inferInstanceAs (Decidable (act.isQuery = false))
  | .worker w act => inferInstanceAs (Decidable (act.isResize → s.OwnFile w))
  | .cleaner _ | .lookup _ _ | .tick _ => .isTrue trivial

end Pool

/-! ## Sizes -/

/-- The size of an item that waits: the point asked for, in one direction. -/
def ImageItem.OneSided (i : ImageItem) : Prop :=
  (0 < i.width ∧ i.height = 0) ∨ (i.width = 0 ∧ 0 < i.height)

theorem oneSided_buildImageItem {dv : DocVersion} {key : ObjectId} {rt : ResizeType} {point : Int}
    {widthOrHeight : Option Text} (positive : 0 < point) :
    (buildImageItem dv key rt point widthOrHeight).OneSided := by
  unfold buildImageItem ImageItem.OneSided
  dsimp only
  split
  · exact .inl ⟨positive, rfl⟩
  · exact .inr ⟨rfl, positive⟩

section Target

variable {measure : ObjectId → ImageSize} {e : ResizeEvent}

/-- A side of the target is zero only where the item asks for nothing on that side. -/
theorem target_eq_zero (oneSided : e.item.OneSided) :
    ((e.target measure).width = 0 → e.item.width = 0) ∧
      ((e.target measure).height = 0 → e.item.height = 0) := by
  have width_pos := (measure e.source).width_pos
  have height_pos := (measure e.source).height_pos
  unfold ResizeEvent.target SizePair.getResizePair
  rcases oneSided with ⟨asked, other⟩ | ⟨other, asked⟩
  · rw [if_pos (by omega)]
    refine ⟨fun zero => ?_, fun _ => other⟩
    simp only [if_true] at zero
    split at zero
    · omega
    · exact zero
  · rw [if_neg (by omega)]
    refine ⟨fun _ => other, fun zero => ?_⟩
    simp only [Bool.false_eq_true, if_false] at zero
    split at zero
    · omega
    · exact zero

/-- A row of the event is left with the size of the target. -/
theorem dims_marked {row : ImageItem} {length : Int} {status : CLBStatus}
    (oneSided : e.item.OneSided) (dims : row.dims = e.item.dims ∨ row.dims = e.target measure) :
    (marked row length (e.target measure).width (e.target measure).height status).dims =
      e.target measure := by
  obtain ⟨zeroWidth, zeroHeight⟩ := @target_eq_zero measure e oneSided
  have width : (e.target measure).width = 0 → row.width = 0 := by
    intro zero
    rcases dims with same | same
    · exact (congrArg SizePair.width same).trans (zeroWidth zero)
    · exact (congrArg SizePair.width same).trans zero
  have height : (e.target measure).height = 0 → row.height = 0 := by
    intro zero
    rcases dims with same | same
    · exact (congrArg SizePair.height same).trans (zeroHeight zero)
    · exact (congrArg SizePair.height same).trans zero
  unfold ImageItem.dims marked
  dsimp only
  congr 1
  · split
    · exact (width ‹_›).trans (Eq.symm ‹_›)
    · rfl
  · split
    · exact (height ‹_›).trans (Eq.symm ‹_›)
    · rfl

end Target

/-! ## The events that were made -/

/-- The events made so far: each has a key of its own, the point it was asked for, and the content of its
version as source. -/
structure Made (made : Set ResizeEvent) (versions : List DocVersion) (issued : Nat) : Prop where
  keyed : ∀ e ∈ made, ∃ key : ObjectId, e.item.storageKey = some key ∧ key.serial < issued
  unique : ∀ e ∈ made, ∀ e' ∈ made, e.item.storageKey = e'.item.storageKey → e = e'
  waiting : ∀ e ∈ made, ¬ CLBStatus.isReady e.item.status = true
  oneSided : ∀ e ∈ made, e.item.OneSided
  sourced : ∀ e ∈ made, ∃ dv ∈ versions, dv.pair = e.item.pair ∧ dv.storageKey = some e.source

theorem Made.empty {versions : List DocVersion} {issued : Nat} : Made ∅ versions issued :=
  ⟨fun _ known => known.elim, fun _ known => known.elim, fun _ known => known.elim,
    fun _ known => known.elim, fun _ known => known.elim⟩

/-- The events of a request. -/
def eventsOf (sp : ObjectId) (items : List ImageItem) : Set ResizeEvent :=
  { e | e.source = sp ∧ e.item ∈ items }

theorem Made.extend {made : Set ResizeEvent} {versions : List DocVersion} {issued issued' : Nat}
    {dv : DocVersion} {sp : ObjectId} {items : List ImageItem} (record : Made made versions issued)
    (minted : Minted dv.pair issued issued' items) (later : issued ≤ issued')
    (oneSided : ∀ item ∈ items, item.OneSided) (member : dv ∈ versions)
    (stored : dv.storageKey = some sp) : Made (made ∪ eventsOf sp items) versions issued' where
  keyed := by
    rintro e (old | ⟨-, new⟩)
    · obtain ⟨key, named, below⟩ := record.keyed e old
      exact ⟨key, named, Nat.lt_of_lt_of_le below later⟩
    · obtain ⟨key, named, -, below⟩ := minted.keyed e.item new
      exact ⟨key, named, below⟩
  unique := by
    -- old keys are below the counter at the start, new ones are not
    have apart : ∀ e ∈ made, ∀ e' ∈ eventsOf sp items, e.item.storageKey ≠ e'.item.storageKey := by
      rintro e old e' ⟨-, new⟩ same
      obtain ⟨key, named, below⟩ := record.keyed e old
      obtain ⟨key', named', above, -⟩ := minted.keyed e'.item new
      obtain rfl := Option.some.inj (named.symm.trans (same.trans named'))
      omega
    rintro e (old | new) e' (old' | new') same
    · exact record.unique e old e' old' same
    · exact absurd same (apart e old e' new')
    · exact absurd same.symm (apart e' old' e new)
    · obtain ⟨source, item⟩ := e
      obtain ⟨source', item'⟩ := e'
      obtain ⟨rfl, inside⟩ := new
      obtain ⟨rfl, inside'⟩ := new'
      obtain rfl : item = item' := List.inj_on_of_nodup_map minted.distinct inside inside' same
      rfl
  waiting := by
    rintro e (old | ⟨-, new⟩)
    · exact record.waiting e old
    · exact minted.waiting e.item new
  oneSided := by
    rintro e (old | ⟨-, new⟩)
    · exact record.oneSided e old
    · exact oneSided e.item new
  sourced := by
    rintro e (old | ⟨rfl, new⟩)
    · exact record.sourced e old
    · exact ⟨dv, member, (minted.owned e.item new).symm, stored⟩

/-! ## How the pool refers to them -/

def Picture.Shows (measure : ObjectId → ImageSize) (e : ResizeEvent) (picture : Picture) : Prop :=
  picture.source = e.source ∧ picture.size = e.target measure

/-- A request holds events that were made; a query holds none. -/
def Caller.Follows (made : Set ResizeEvent) (versions : List DocVersion) : Caller → Prop
  | .idle => True
  | .counted _ _ => False
  | .loaded dv _ sp => dv ∈ versions ∧ dv.storageKey = some sp
  | .built _ sp jobs => eventsOf sp (jobs.map (·.2)) ⊆ made
  | .deleted sp items | .adding sp items => eventsOf sp items ⊆ made
  | .tested sp item rest | .queued sp item rest => eventsOf sp (item :: rest) ⊆ made

/-- A worker between its resize and its row has the size of its event, its file shows its event, and
once the file was stored something stands under its key. -/
def Worker.Follows (measure : ObjectId → ImageSize) (made : Set ResizeEvent)
    (copies : Option Text × ObjectId → Option Picture) (pictures : List (ObjectId × Picture)) :
    Worker → Prop
  | .idle | .ended _ | .dead => True
  | .taken e | .started e | .updated e => e ∈ made
  | .resized e p => e ∈ made ∧ p = e.target measure ∧
      ∀ picture, copies e.slot = some picture → picture.Shows measure e
  | .stored e p => e ∈ made ∧ p = e.target measure ∧
      ∀ picture, copies e.slot = some picture →
        ∃ entry ∈ pictures, some entry.1 = e.item.storageKey

/-- A row is of an event that was made; once it is READY it has the size of the target, and something
stands under its key. -/
def ImageItem.Follows (measure : ObjectId → ImageSize) (made : Set ResizeEvent)
    (pictures : List (ObjectId × Picture)) (row : ImageItem) : Prop :=
  ∃ e ∈ made, row.storageKey = e.item.storageKey ∧ row.pair = e.item.pair ∧
    (row.dims = e.item.dims ∨ row.dims = e.target measure) ∧
    (CLBStatus.isReady row.status = true →
      row.dims = e.target measure ∧ ∃ entry ∈ pictures, some entry.1 = row.storageKey)

section Mono

variable {measure : ObjectId → ImageSize} {made made' : Set ResizeEvent} {versions : List DocVersion}
  {copies copies' : Option Text × ObjectId → Option Picture} {pictures pictures' : List (ObjectId × Picture)}

theorem Caller.Follows.mono {caller : Caller} (follows : caller.Follows made versions)
    (more : made ⊆ made') : caller.Follows made' versions := by
  cases caller with
  | idle | counted _ _ | loaded _ _ _ => exact follows
  | built _ _ _ | deleted _ _ | adding _ _ | tested _ _ _ | queued _ _ _ => exact follows.trans more

theorem Worker.Follows.mono {worker : Worker} (follows : worker.Follows measure made copies pictures)
    (more : made ⊆ made') (filed : pictures ⊆ pictures')
    (kept : ∀ e ∈ worker.copying, ∀ picture, copies' e.slot = some picture →
      copies e.slot = some picture) : worker.Follows measure made' copies' pictures' := by
  cases worker with
  | idle | ended _ | dead => trivial
  | taken e | started e | updated e => exact more follows
  | resized e p =>
    obtain ⟨known, size, shows⟩ := follows
    exact ⟨more known, size, fun picture copy => shows picture (kept e rfl picture copy)⟩
  | stored e p =>
    obtain ⟨known, size, stands⟩ := follows
    refine ⟨more known, size, fun picture copy => ?_⟩
    obtain ⟨entry, member, named⟩ := stands picture (kept e rfl picture copy)
    exact ⟨entry, filed member, named⟩

theorem ImageItem.Follows.mono {row : ImageItem} (follows : row.Follows measure made pictures)
    (more : made ⊆ made') (filed : pictures ⊆ pictures') : row.Follows measure made' pictures' := by
  obtain ⟨e, known, named, owned, dims, ready⟩ := follows
  refine ⟨e, more known, named, owned, dims, fun isReady => ?_⟩
  obtain ⟨size, entry, member, under⟩ := ready isReady
  exact ⟨size, entry, filed member, under⟩

/-- A row that failed keeps its size. -/
theorem ImageItem.Follows.fail {row : ImageItem} (follows : row.Follows measure made pictures) :
    (marked row 0 0 0 .FAILED).Follows measure made pictures := by
  obtain ⟨e, known, named, owned, dims, -⟩ := follows
  refine ⟨e, known, named, owned, dims, fun isReady => ?_⟩
  simp [marked] at isReady

/-- A row of an event that is done. -/
theorem ImageItem.Follows.finish {row : ImageItem} {e : ResizeEvent} {issued : Nat} {length : Int}
    (follows : row.Follows measure made pictures) (record : Made made versions issued)
    (known : e ∈ made) (named : row.storageKey = e.item.storageKey)
    (stands : ∃ entry ∈ pictures, some entry.1 = e.item.storageKey) :
    (marked row length (e.target measure).width (e.target measure).height .READY).Follows measure made
      pictures := by
  obtain ⟨e', known', named', owned, dims, -⟩ := follows
  obtain rfl := record.unique e' known' e known (named'.symm.trans named)
  have settled : (marked row length (e'.target measure).width (e'.target measure).height .READY).dims =
      e'.target measure := dims_marked (record.oneSided e' known) dims
  obtain ⟨entry, member, under⟩ := stands
  exact ⟨e', known, named, owned, .inr settled, fun _ => ⟨settled, entry, member, under.trans named.symm⟩⟩

end Mono

namespace Pool

variable {C W : Type} [DecidableEq C] [DecidableEq W]

/-- The invariant. -/
structure Follows (measure : ObjectId → ImageSize) (made : Set ResizeEvent) (s : Pool C W) : Prop where
  numbered : Table.Numbered ImageItem.id s.server.imageItems
  record : Made made s.server.store.versions.rows s.server.store.mongo.issued
  queued : ∀ e ∈ s.server.queue, e ∈ made
  callers : ∀ c, (s.callers c).Follows made s.server.store.versions.rows
  workers : ∀ w, (s.workers w).Follows measure made s.copies s.pictures
  pictures : ∀ entry ∈ s.pictures, ∃ e ∈ made, e.item.storageKey = some entry.1 ∧
    entry.2.Shows measure e
  rows : ∀ row ∈ s.server.imageItems.rows, row.Follows measure made s.pictures

variable {measure : ObjectId → ImageSize} {made : Set ResizeEvent} {s : Pool C W}

/-- **What the invariant is for.** -/
theorem Follows.rightPictures (follows : s.Follows measure made) : s.RightPictures := by
  intro row member isReady
  obtain ⟨e, known, named, owned, -, ready⟩ := follows.rows row member
  obtain ⟨size, ⟨key, picture⟩, stands, under⟩ := ready isReady
  refine ⟨key, under.symm, ⟨picture, stands⟩, fun picture' stands' => ?_⟩
  obtain ⟨e', known', named', source, size'⟩ := follows.pictures (key, picture') stands'
  obtain rfl := follows.record.unique e' known' e known (named'.trans (under.trans named))
  obtain ⟨dv, version, owner, stored⟩ := follows.record.sourced e' known
  exact ⟨size'.trans size.symm, dv, version, owner.trans owned.symm, stored.trans (by rw [source])⟩

theorem follows_start {server : Server} (numbered : Table.Numbered ImageItem.id server.imageItems)
    (unasked : server.imageItems.rows = []) : (start server : Pool C W).Follows measure ∅ where
  numbered := numbered
  record := .empty
  queued := fun _ member => absurd member List.not_mem_nil
  callers := fun _ => trivial
  workers := fun _ => trivial
  pictures := fun _ member => absurd member List.not_mem_nil
  rows := by
    intro row member
    change row ∈ server.imageItems.rows at member
    rw [unasked] at member
    cases member

/-! ## Requests -/

section Requests

variable {c : C}

/-- One caller has moved, and the others follow as before. -/
theorem Follows.standing {versions : List DocVersion} {caller : Caller} {callers : C → Caller}
    (all : ∀ c, (callers c).Follows made versions) (moved : caller.Follows made versions) (c' : C) :
    (Function.update callers c caller c').Follows made versions := by
  by_cases same : c' = c
  · subst same
    rw [Function.update_self]
    exact moved
  · rw [Function.update_of_ne same]
    exact all c'

/-- A temp file is saved and the caller goes on. -/
theorem Follows.save {key : ObjectId} {ins : InputStream} {caller : Caller}
    (follows : s.Follows measure made) (moved : caller.Follows made s.server.store.versions.rows) :
    ((s.saveTempFile key ins).2.stand c caller).Follows measure made := by
  obtain ⟨cache, jobs, cleaner, same, -⟩ := s.saveTempFile_eq key ins
  rw [same]
  exact { follows with callers := Follows.standing follows.callers moved }

/-- A request has built its items, with new keys. -/
theorem Follows.build {dv : DocVersion} {pm : ResizeParam} {sp : ObjectId}
    {jobs : List (ResizeType × ImageItem)} {t : Store} (follows : s.Follows measure made)
    (stands : s.callers c = .loaded dv pm sp) (lends : Lends s.server.store t)
    (minted : Minted dv.pair s.server.store.mongo.issued t.mongo.issued (jobs.map (·.2)))
    (oneSided : ∀ item ∈ jobs.map (·.2), item.OneSided) :
    ((s.onServer { s.server with store := t }).stand c (.built dv sp jobs)).Follows measure
      (made ∪ eventsOf sp (jobs.map (·.2))) := by
  have more : made ⊆ made ∪ eventsOf sp (jobs.map (·.2)) := Set.subset_union_left
  have loaded := follows.callers c
  rw [stands] at loaded
  obtain ⟨member, stored⟩ := loaded
  have record := follows.record.extend minted lends.issued oneSided member stored
  rw [← lends.versions] at record
  have before : ∀ c', (s.callers c').Follows (made ∪ eventsOf sp (jobs.map (·.2))) t.versions.rows := by
    intro c'
    rw [lends.versions]
    exact (follows.callers c').mono more
  exact
    { numbered := follows.numbered
      record := record
      queued := fun e member => more (follows.queued e member)
      callers := Follows.standing before Set.subset_union_right
      workers := fun w => (follows.workers w).mono more (List.Subset.refl _) fun _ _ _ copy => copy
      pictures := fun entry member => by
        obtain ⟨e, known, shows⟩ := follows.pictures entry member
        exact ⟨e, more known, shows⟩
      rows := fun row member => (follows.rows row member).mono more (List.Subset.refl _) }

/-- A request has inserted rows for its items. -/
theorem Follows.insert {sp : ObjectId} {items : List ImageItem} (follows : s.Follows measure made)
    (known : eventsOf sp items ⊆ made) :
    (s.onServer
      { s.server with
        imageItems :=
          items.foldl (fun t i => t.insert imageItemDAO.setId i) s.server.imageItems }).Follows measure
      made := by
  induction items generalizing s with
  | nil => exact follows
  | cons item rest ih =>
    have made_ : (⟨sp, item⟩ : ResizeEvent) ∈ made := known ⟨rfl, List.mem_cons_self⟩
    have first : (s.onServer
        { s.server with
          imageItems := s.server.imageItems.insert imageItemDAO.setId item }).Follows measure made :=
      { follows with
        numbered := follows.numbered.insert (fun _ _ => rfl) item
        rows := fun row member => by
          rcases List.mem_append.mp member with old | new
          · exact follows.rows row old
          · rw [List.mem_singleton.mp new]
            exact ⟨_, made_, rfl, rfl, .inl rfl, fun isReady =>
              absurd isReady (follows.record.waiting _ made_)⟩ }
    exact ih first fun e ⟨source, member⟩ => known ⟨source, List.mem_cons_of_mem item member⟩

theorem numbered_delete {table : Table ImageItem} (numbered : Table.Numbered ImageItem.id table)
    (p : DPair) (types : List ResizeType) :
    Table.Numbered ImageItem.id (ImageItemDAO.delete p types table) := by
  induction types generalizing table with
  | nil => exact numbered
  | cons rt rest ih => exact ih numbered.delete

theorem Follows.caller {caller : Caller} (follows : s.Follows measure made)
    (moved : caller.Follows made s.server.store.versions.rows) : (s.stand c caller).Follows measure made :=
  { follows with callers := Follows.standing follows.callers moved }

/-- **A step of a request keeps the invariant.** -/
theorem CallerEffect.follows {act : CallerStep} {s' : Pool C W} (effect : CallerEffect c s act s')
    (request : act.isQuery = false) (follows : s.Follows measure made) :
    ∃ made', s'.Follows measure made' := by
  cases effect with
  | stutter => exact ⟨made, follows⟩
  | query => cases request
  | absent act stands => exact ⟨made, follows.caller trivial⟩
  | miss act key ins stands => exact ⟨made, follows.save trivial⟩
  | reload dv items key ins stands stored =>
    have none := follows.callers c
    rw [stands] at none
    exact none.elim
  | load dv pm key ins stands member stored => exact ⟨made, follows.save ⟨member, stored⟩⟩
  | build dv pm sp jobs t stands lends minted sized =>
    refine ⟨_, follows.build stands lends minted fun item member => ?_⟩
    obtain ⟨job, inside, rfl⟩ := List.mem_map.mp member
    obtain ⟨key, positive, same⟩ := sized job inside
    rw [same]
    exact oneSided_buildImageItem positive
  | deleteRows dv sp jobs stands =>
    have known := follows.callers c
    rw [stands] at known
    exact ⟨made,
      { follows with
        numbered := numbered_delete follows.numbered _ _
        callers := Follows.standing follows.callers known
        rows := fun row member => follows.rows row (mem_of_mem_delete member) }⟩
  | createRows sp items inserted next stands first ends =>
    have known := follows.callers c
    rw [stands] at known
    have moved : next.Follows made s.server.store.versions.rows := by
      rcases ends with rfl | rfl
      · exact known
      · trivial
    have entered : eventsOf sp inserted ⊆ made := fun e ⟨source, member⟩ =>
      known ⟨source, first.subset member⟩
    exact ⟨made, (follows.insert entered).caller moved⟩
  | skip sp item rest stands present =>
    have known := follows.callers c
    rw [stands] at known
    exact ⟨made, follows.caller fun e ⟨source, member⟩ => known ⟨source, List.mem_cons_of_mem _ member⟩⟩
  | test sp item rest stands absent =>
    have known := follows.callers c
    rw [stands] at known
    exact ⟨made, follows.caller known⟩
  | enqueue sp item rest stands =>
    have known := follows.callers c
    rw [stands] at known
    refine ⟨made,
      { follows with
        queued := fun e member => ?_
        callers := Follows.standing follows.callers known }⟩
    rcases List.mem_append.mp member with old | new
    · exact follows.queued e old
    · rw [List.mem_singleton.mp new]
      exact known ⟨rfl, List.mem_cons_self⟩
  | record sp item rest stands =>
    have known := follows.callers c
    rw [stands] at known
    exact ⟨made,
      { follows with
        callers := Follows.standing follows.callers fun e ⟨source, member⟩ =>
          known ⟨source, List.mem_cons_of_mem _ member⟩ }⟩
  | finish sp stands => exact ⟨made, follows.caller trivial⟩

end Requests

/-! ## Workers -/

section Workers

variable {w : W} {e : ResizeEvent}

theorem Follows.working {copies : Option Text × ObjectId → Option Picture}
    {pictures : List (ObjectId × Picture)} {worker : Worker} {workers : W → Worker}
    (others : ∀ w', w' ≠ w → (workers w').Follows measure made copies pictures)
    (moved : worker.Follows measure made copies pictures) (w' : W) :
    (Function.update workers w worker w').Follows measure made copies pictures := by
  by_cases same : w' = w
  · subst same
    rw [Function.update_self]
    exact moved
  · rw [Function.update_of_ne same]
    exact others w' same

theorem Follows.worker {worker : Worker} (follows : s.Follows measure made)
    (moved : worker.Follows measure made s.copies s.pictures) : (s.move w worker).Follows measure made :=
  { follows with workers := Follows.working (fun w' _ => follows.workers w') moved }

/-- The file of an event is written, while no other worker has a copy under way in it. -/
theorem Follows.resize {length : Int} (follows : s.Follows measure made)
    (stands : s.workers w = .started e) (own : s.OwnFile w) :
    ((s.writeCopy e.slot (some ⟨e.source, e.target measure, length⟩)).move w
      (.resized e (e.target measure))).Follows measure made := by
  have known := follows.workers w
  rw [stands] at known
  refine { follows with workers := Follows.working (fun w' _ => ?_) ⟨known, rfl, fun picture copy => ?_⟩ }
  · refine (follows.workers w').mono (Set.Subset.refl _) (List.Subset.refl _)
      fun e' copying picture copy => ?_
    have other : e'.slot ≠ e.slot := own e (by rw [stands]; rfl) w' e' copying
    exact (Function.update_of_ne other ..).symm.trans copy
  · have written : Function.update s.copies e.slot (some ⟨e.source, e.target measure, length⟩) e.slot =
        some ⟨e.source, e.target measure, length⟩ := Function.update_self ..
    obtain rfl := Option.some.inj (written.symm.trans copy)
    exact ⟨rfl, rfl⟩

/-- The file of an event is stored under the key of its item. -/
theorem Follows.store {p : SizePair} {picture : Picture} {key : ObjectId}
    (follows : s.Follows measure made) (stands : s.workers w = .resized e p)
    (copy : s.copies e.slot = some picture) (named : e.item.storageKey = some key) :
    ((s.writeImage key picture).move w (.stored e p)).Follows measure made := by
  have working := follows.workers w
  rw [stands] at working
  obtain ⟨known, size, shows⟩ := working
  have more : s.pictures ⊆ s.pictures ++ [(key, picture)] := List.subset_append_left ..
  have new : (key, picture) ∈ s.pictures ++ [(key, picture)] :=
    List.mem_append_right _ (List.mem_singleton_self _)
  refine
    { follows with
      workers := Follows.working (fun w' _ => ?_) ⟨known, size, fun _ _ => ⟨_, new, named.symm⟩⟩
      pictures := fun entry member => ?_
      rows := fun row member => (follows.rows row member).mono (Set.Subset.refl _) more }
  · exact (follows.workers w').mono (Set.Subset.refl _) more fun _ _ _ copy => copy
  · rcases List.mem_append.mp member with old | last
    · exact follows.pictures entry old
    · rw [List.mem_singleton.mp last]
      exact ⟨e, known, named, shows picture copy⟩

/-- The rows of an event are marked. -/
theorem Follows.mark {length width height : Int} {status : CLBStatus} {next : Worker}
    (follows : s.Follows measure made) (known : e ∈ made)
    (marks : ∀ row ∈ s.server.imageItems.rows, row.storageKey = e.item.storageKey →
      (marked row length width height status).Follows measure made s.pictures)
    (moved : next.Follows measure made s.copies s.pictures) :
    ((s.onServer (updateImageItems e.item.storageKey length width height status s.server).2).move w
      next).Follows measure made := by
  obtain ⟨key, named, -⟩ := follows.record.keyed e known
  rw [named]
  obtain ⟨table, same, numbered, only⟩ := (updateImageItems_marked follows.numbered :
    Action.Ends (updateImageItems (some key) length width height status) s.server _)
  rw [same]
  refine
    { follows with
      numbered := numbered
      workers := Follows.working (fun w' _ => follows.workers w') moved
      rows := fun row' member => ?_ }
  rcases only row' member with old | ⟨row, before, keyed, rfl⟩
  · exact follows.rows row' old
  · exact marks row before (keyed.trans named.symm)

/-- **A step of a worker with a file of its own keeps the invariant.** -/
theorem WorkerEffect.follows {act : WorkerStep} {s' : Pool C W}
    (effect : WorkerEffect measure w s act s') (own : act.isResize → s.OwnFile w)
    (follows : s.Follows measure made) : s'.Follows measure made := by
  have working := follows.workers w
  cases effect with
  | stutter => exact follows
  | take e rest stands first =>
    have queued : ∀ e' ∈ e :: rest, e' ∈ made := fun e' member =>
      follows.queued e' (by rw [first]; exact member)
    exact
      { follows with
        queued := fun e' member => queued e' (List.mem_cons_of_mem e member)
        workers := Follows.working (fun w' _ => follows.workers w') (queued e List.mem_cons_self) }
  | start e stands =>
    rw [stands] at working
    exact { follows with workers := Follows.working (fun w' _ => follows.workers w') working }
  | missing e stands => exact follows.worker trivial
  | resize e length stands => exact follows.resize stands (own rfl)
  | refuse e length next stands ends =>
    rw [stands] at working
    refine follows.mark working (fun row member _ => (follows.rows row member).fail) ?_
    rcases ends with rfl | rfl
    · trivial
    · trivial
  | store e p picture key stands copy named => exact follows.store stands copy named
  | lost e p stands copy =>
    rw [stands] at working
    obtain ⟨known, size, -⟩ := working
    exact follows.worker ⟨known, size, fun picture copy' => nomatch copy.symm.trans copy'⟩
  | update e p picture next stands copy ends =>
    rw [stands] at working
    obtain ⟨known, rfl, under⟩ := working
    refine follows.mark known (fun row member named => ?_) ?_
    · exact (follows.rows row member).finish follows.record known named (under picture copy)
    · rcases ends with rfl | rfl
      · exact known
      · trivial
  | unchanged e p stands =>
    rw [stands] at working
    exact follows.worker working.1
  | schedule e stands =>
    exact { follows with workers := Follows.working (fun w' _ => follows.workers w') trivial }
  | remove e stands =>
    exact { follows with workers := Follows.working (fun w' _ => follows.workers w') trivial }
  | crash act e stands => exact follows.worker trivial

end Workers

/-! ## Runs -/

/-- The cleaner deletes temp files and changes no copy into another one. -/
theorem Follows.clean (follows : s.Follows measure made) (act : CleanerStep) :
    (s.cleanerStep act).Follows measure made := by
  obtain ⟨_, _, same⟩ | ⟨_, _, same⟩ | ⟨slot, _, same⟩ := s.cleanerStep_effect act <;> rw [same]
  · exact { follows with }
  · exact { follows with }
  · refine { follows with workers := fun w => ?_ }
    refine (follows.workers w).mono (Set.Subset.refl _) (List.Subset.refl _) fun e _ picture copy => ?_
    by_cases same : e.slot = slot
    · rw [same] at copy
      exact nomatch (Function.update_self ..).symm.trans copy
    · exact (Function.update_of_ne same ..).symm.trans copy

/-- **A step of the pool keeps the invariant**, for a set of events that a request may have extended. -/
theorem Follows.step (follows : s.Follows measure made) (label : PoolLabel C W)
    (own : s.OwnFiles label) : ∃ made', (step measure label s).Follows measure made' := by
  cases label with
  | caller c act => exact (callerStep_effect c act).follows own follows
  | worker w act => exact ⟨made, (workerStep_effect w act).follows own follows⟩
  | cleaner act => exact ⟨made, follows.clean act⟩
  | lookup key ins =>
    obtain ⟨cache, jobs, cleaner, same, -⟩ := s.saveTempFile_eq key ins
    refine ⟨made, ?_⟩
    change ((s.saveTempFile key ins).2).Follows measure made
    rw [same]
    exact { follows with }
  | tick duration => exact ⟨made, { follows with }⟩

end Pool

/-- **A READY copy is the right one** in every run of resize requests, workers, cleaner and lookups in
which no worker resizes into a file while another one has its copy there under way. -/
theorem ready_pictures {C W : Type} [DecidableEq C] [DecidableEq W] {measure : ObjectId → ImageSize}
    {server : Server} {s : Pool C W} (numbered : Table.Numbered ImageItem.id server.imageItems)
    (unasked : server.imageItems.rows = []) (reached : Reaches (Pool.step measure)
      (fun label s => s.OwnFiles label) (Pool.start server) s) : s.RightPictures := by
  obtain ⟨made, follows⟩ : ∃ made, s.Follows measure made := by
    refine @Reaches.invariant _ _ _ _ _ _ (fun s => ∃ made, s.Follows measure made) reached
      ⟨∅, Pool.follows_start numbered unasked⟩ ?_
    rintro label s own ⟨made, follows⟩
    exact follows.step label own
  exact follows.rightPictures

section Runs

/-- A copy of width 10 is made. -/
def copyMade : List (PoolLabel Bool Bool) :=
  requestLabels true (smallCopy 10) ++ Pool.addLabels true ++
    .worker true .take :: Pool.handleLabels true 5

theorem ready_pictures_made :
    (∃ row ∈ (run (Pool.step upright) copyMade (Pool.start imageServer)).server.imageItems.rows,
      CLBStatus.isReady row.status = true ∧ row.dims = ⟨10, 20⟩) ∧
    (run (Pool.step upright) copyMade (Pool.start imageServer)).RightPictures :=
  ⟨by decide +kernel, ready_pictures (serves_serverAfter _).wf.imageNumbered
    (by decide +kernel) (Reaches.append .refl (by decide +kernel))⟩

/-- The worker of a request for width 10 has found its source when another request asks for width 20.
Both workers resize, the one for width 10 last; then the other one stores the file and writes its row. -/
def sharedFile : List (PoolLabel Bool Bool) :=
  requestLabels true (smallCopy 10) ++ Pool.addLabels true ++ [.worker true .take, .worker true .start] ++
    requestLabels false (smallCopy 20) ++ Pool.addLabels false ++
    [.worker false .take, .worker false .start, .worker false (.resize (some 9)),
      .worker true (.resize (some 5)), .worker false .store, .worker false .update]

/-- A READY row of width 20 whose key holds a picture of width 10. -/
theorem wrong_picture :
    Reaches (Pool.step upright) (fun _ _ => True) (Pool.start imageServer)
      (run (Pool.step upright) sharedFile (Pool.start imageServer)) ∧
    ¬ (run (Pool.step upright) sharedFile (Pool.start imageServer)).RightPictures := by
  refine ⟨Reaches.append .refl (admits_always _ _), fun right => ?_⟩
  obtain ⟨row, member, ready, size⟩ :
      ∃ row ∈ (run (Pool.step upright) sharedFile (Pool.start imageServer)).server.imageItems.rows,
        CLBStatus.isReady row.status = true ∧ row.storageKey = some ⟨3⟩ ∧ row.dims = ⟨20, 40⟩ := by
    decide +kernel
  obtain ⟨key, named, -, all⟩ := right row member ready
  obtain rfl := Option.some.inj (size.1.symm.trans named)
  have shown := (all ⟨⟨0⟩, ⟨10, 20⟩, 5⟩ (by decide +kernel)).1
  exact nomatch shown.trans size.2

end Runs

end Clb
