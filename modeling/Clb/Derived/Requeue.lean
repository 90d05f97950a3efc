/-
# Derived.Requeue -- the resize events that are queued once more

`QueryResizeStatusHandler` and `GetResizeImageInfoHandler` turn the items that wait without an event
into zombies, and if there is a zombie they queue an event for every item of the version. The item
object goes into the event as it is after that: a new zombie has lost its width and its height there,
although its row has kept them.

`queryResizeStatus_requeues` and `getResizeImageInfo_requeues` say which events a call adds.
`requeued_kept_iff` says when all of them ask for what the rows ask for. -/
import Clb.Derived.UpdateLaw

set_option autoImplicit false

namespace Clb

open Clb.Lib Clb.Dao Clb.Lib.Action DocumentFacade Handlers ImageFacade ImageHandlers

variable {α : Type} {s₁ : Server} {session : Session} {dp : DocPair} {s : Server}

namespace ImageFacade

/-- `getWidthOrHeight` of the resize worker: whether the width is the one asked for. -/
def usesWidth (item : ImageItem) : Bool := item.width != 0

/-- `getResizePoint` of the resize worker. -/
def getResizePoint (item : ImageItem) : Int := if item.width ≠ 0 then item.width else item.height

end ImageFacade

/-- The item asks for what the row asks for, and the row is not ready. -/
structure KeepsRequest (row item : ImageItem) : Prop where
  notReady : CLBStatus.isReady row.status = false
  type : item.resizeType = row.resizeType
  dimension : usesWidth item = usesWidth row
  point : getResizePoint item = getResizePoint row
  positive : 0 < getResizePoint row

instance (row item : ImageItem) : Decidable (KeepsRequest row item) :=
  decidable_of_iff
    (CLBStatus.isReady row.status = false ∧ item.resizeType = row.resizeType ∧
      usesWidth item = usesWidth row ∧ getResizePoint item = getResizePoint row ∧
      0 < getResizePoint row)
    ⟨fun h => ⟨h.1, h.2.1, h.2.2.1, h.2.2.2.1, h.2.2.2.2⟩,
      fun h => ⟨h.notReady, h.type, h.dimension, h.point, h.positive⟩⟩

/-- The item of an event keeps the request of the row it was read from. -/
def KeptIn (s : Server) (item : ImageItem) : Prop :=
  ∃ row ∈ s.imageItems.rows, row.id = item.id ∧ KeepsRequest row item

instance (s : Server) (item : ImageItem) : Decidable (KeptIn s item) :=
  inferInstanceAs (Decidable (∃ row ∈ s.imageItems.rows, row.id = item.id ∧ KeepsRequest row item))

/-- The row can be queued once more without a loss. -/
def Intact (keys : List Text) (row : ImageItem) : Prop :=
  CLBStatus.isReady row.status = false ∧ waitsAlone keys row = false ∧ 0 < getResizePoint row

instance (keys : List Text) (row : ImageItem) : Decidable (Intact keys row) :=
  inferInstanceAs (Decidable (_ ∧ _ ∧ _))

theorem id_retried (keys : List Text) (row : ImageItem) : (retried keys row).id = row.id := by
  unfold retried
  split <;> rfl

theorem resizeType_retried (keys : List Text) (row : ImageItem) :
    (retried keys row).resizeType = row.resizeType := by
  unfold retried
  split <;> rfl

theorem keepsRequest_retried_iff {keys : List Text} {row : ImageItem} :
    KeepsRequest row (retried keys row) ↔ Intact keys row := by
  unfold retried Intact
  cases alone : waitsAlone keys row with
  | true =>
    refine iff_of_false (fun kept => ?_) (by simp)
    have none_ : getResizePoint row = 0 := kept.point.symm
    have positive := kept.positive
    omega
  | false =>
    rw [if_neg Bool.false_ne_true]
    exact ⟨fun kept => ⟨kept.notReady, rfl, kept.positive⟩,
      fun intact => ⟨intact.1, rfl, rfl, rfl, intact.2.2⟩⟩

/-! ## The loop around addEvent -/

/-- The elements whose key is neither among `keys` nor that of an element before. -/
def newBy {α : Type} (key : α → Text) : List Text → List α → List α
  | _, [] => []
  | keys, a :: rest =>
    if keys.contains (key a) then newBy key keys rest else a :: newBy key (keys ++ [key a]) rest

theorem newBy_cons (key : α → Text) (keys : List Text) (a : α) (rest : List α) :
    newBy key keys (a :: rest) =
      if keys.contains (key a) then newBy key keys rest
      else a :: newBy key (keys ++ [key a]) rest := rfl

theorem newBy_map {α β : Type} (key : β → Text) (f : α → β) (keys : List Text) (items : List α) :
    newBy key keys (items.map f) = (newBy (fun a => key (f a)) keys items).map f := by
  induction items generalizing keys with
  | nil => rfl
  | cons a rest ih =>
    rw [List.map_cons, newBy_cons, newBy_cons]
    split
    · exact ih keys
    · rw [List.map_cons, ih]

theorem mem_of_mem_newBy {key : α → Text} {keys : List Text} {items : List α} {a : α}
    (member : a ∈ newBy key keys items) : a ∈ items := by
  fun_induction newBy key keys items with
  | case1 => cases member
  | case2 keys b rest known ih => exact List.mem_cons_of_mem b (ih member)
  | case3 keys b rest new ih =>
    rcases List.mem_cons.mp member with rfl | later
    · exact List.mem_cons_self
    · exact List.mem_cons_of_mem b (ih later)

theorem addEvents_queue (sp : ObjectId) (items : List ImageItem) (s : Server) :
    (addEvents sp items s).2.queue =
      s.queue ++ (newBy ImageItem.getUniqueKey s.filterSet items).map (ResizeEvent.mk sp) := by
  induction items generalizing s with
  | nil => simp [addEvents, forEach, newBy, pure]
  | cons item rest ih =>
    change (addEvents sp rest (addEvent sp item s).2).2.queue = _
    rw [ih, newBy_cons]
    unfold addEvent Action.write
    dsimp only
    split
    · rfl
    · rw [List.map_cons, List.append_assoc, List.singleton_append]

/-! ## The handlers around that loop -/

/-- The row is queued once more, as one of the rows of a version. -/
structure QueuedAgain (s : Server) (dv : DocVersion) (rows : List ImageItem) (row : ImageItem) :
    Prop where
  writable : ∀ m ∈ rows, Writable s.filterSet m
  zombie : ∃ m ∈ rows, CLBStatus.isZombie (retried s.filterSet m).status = true
  loads : Loads dv s.store
  new : row ∈ newBy (fun m => (retried s.filterSet m).getUniqueKey) s.filterSet rows

/-- The rows that `QueryResizeStatusHandler` queues once more. -/
def QueryRequeues (session : Session) (dp : DocPair) (s : Server) (row : ImageItem) : Prop :=
  ∃ p dv, convertToPair session.appid dp = some p ∧ Opens session dp.docid s.store ∧
    DocVersionDAO.read p s.store.versions = some dv ∧
    QueuedAgain s dv (ImageItemDAO.readByDocPair p s.imageItems) row

/-- The rows that `GetResizeImageInfoHandler` queues once more: it knows their types, and the latest
version is looked up before. -/
def InfoRequeues (session : Session) (dp : DocPair) (s : Server) (row : ImageItem) : Prop :=
  ∃ p dv, convertToPair session.appid dp = some p ∧ Opens session dp.docid s.store ∧
    DocVersionDAO.read p s.store.versions = some dv ∧
    (∀ m ∈ ImageItemDAO.readByDocPair dv.pair s.imageItems,
      (ResizeType.getEnum m.resizeType).isSome) ∧
    QueuedAgain s dv (ImageItemDAO.readByDocPair dv.pair s.imageItems) row

/-- The items of the events that are in the queue of `s'` and not in that of `s`. -/
def newItems (s s' : Server) : List ImageItem := (s'.queue.drop s.queue.length).map (·.item)

/-- The events that are new in `s'` are those of these rows. -/
def AddsEvents (s s' : Server) (requeued : ImageItem → Prop) : Prop :=
  ∀ item, item ∈ newItems s s' ↔ ∃ row, requeued row ∧ item = retried s.filterSet row

theorem newItems_of_queue {s' : Server} {events : List ResizeEvent} (queue : s'.queue = s.queue ++ events) :
    newItems s s' = events.map (·.item) := by
  unfold newItems
  rw [queue, List.drop_left]

/-- A call that stops before the loop queues nothing. -/
theorem adds_none {s' : Server} {requeued : ImageItem → Prop} (queue : s'.queue = s.queue)
    (stops : ∀ row, ¬requeued row) : AddsEvents s s' requeued := by
  have nothing : newItems s s' = [] :=
    newItems_of_queue (show s'.queue = s.queue ++ [] by simpa using queue)
  intro item
  rw [nothing]
  exact iff_of_false List.not_mem_nil fun ⟨row, again, _⟩ => stops row again

theorem resizeAgain_eq (dv : DocVersion) (items : List ImageItem) :
    resizeAgain dv items = loadVersion dv >>= fun sp => addEvents sp items := by
  unfold resizeAgain loadVersion
  simp only [bind_assoc]

/-- The loop, for the items of these rows. -/
theorem resizeAgain_adds {a : α} {dv : DocVersion} {rows : List ImageItem} {table : Table ImageItem}
    (writable : ∀ m ∈ rows, Writable s.filterSet m)
    (zombie : ∃ m ∈ rows, CLBStatus.isZombie (retried s.filterSet m).status = true) :
    Ends (resizeAgain dv (rows.map (retried s.filterSet)) >>= fun _ => pure a)
      { s with imageItems := table } fun _ s' => AddsEvents s s' (QueuedAgain s dv rows) := by
  rw [resizeAgain_eq, bind_assoc]
  refine ends_bind (loadVersion_ends.mono ?_)
  rintro (fault | sp) _ ⟨⟨t, rfl⟩, loads⟩
  · exact adds_none rfl fun row again => by simpa using loads.mpr again.loads
  refine ends_bind (ends_of_eq (Prod.ext (addEvents_returns _ _) rfl) (ends_pure fun item => ?_))
  have added := addEvents_queue sp (rows.map (retried s.filterSet))
    { s with store := t, imageItems := table }
  rw [newBy_map, List.map_map] at added
  rw [show newItems s _ = _ from newItems_of_queue added, List.map_map, List.mem_map]
  constructor
  · rintro ⟨row, new, rfl⟩
    exact ⟨row, ⟨writable, zombie, loads.mp ⟨sp, rfl⟩, new⟩, rfl⟩
  · rintro ⟨row, again, rfl⟩
    exact ⟨row, again.new, rfl⟩

/-- **The events that `queryResizeStatus` adds.** -/
theorem queryResizeStatus_adds (numbered : Table.Numbered ImageItem.id s.imageItems) :
    Ends (queryResizeStatus session dp) s fun _ s' => AddsEvents s s' (QueryRequeues session dp s) := by
  unfold queryResizeStatus getImageItemList getDocVersion
  refine ends_bind (ends_within ((readOnly_openDocument session dp).ends ?_))
  cases opened : (openDocument session dp s.store).1 with
  | error fault =>
    refine adds_none rfl fun row ⟨p, dv, converted, opens, _⟩ => ?_
    cases opened.symm.trans (openDocument_ok_iff.mpr ⟨converted, opens⟩)
  | ok p =>
    obtain ⟨converted, opens⟩ := openDocument_ok_iff.mp opened
    have same : (⟨session.appid, p.docid, p.version⟩ : DPair) = p := by
      rw [← (convertToPair_eq_some converted).1]
    have own : QueryRequeues session dp s = fun row => ∃ dv,
        DocVersionDAO.read p s.store.versions = some dv ∧
          QueuedAgain s dv (ImageItemDAO.readByDocPair p s.imageItems) row := by
      funext row
      simp [QueryRequeues, converted, opens]
    rw [own]
    refine ends_bind (ends_read ?_)
    dsimp only
    split
    · rename_i empty
      refine adds_none rfl fun row ⟨dv, _, again⟩ => ?_
      obtain ⟨m, listed, -⟩ := again.zombie
      simp [List.isEmpty_iff.mp empty] at listed
    refine ends_bind ((updateRetryCounts_ends True _ s numbered fun m listed =>
      held_of_mem (List.mem_of_mem_filter listed)).mono ?_)
    rintro (fault | items) _ ⟨⟨-, ⟨table, rfl⟩, -⟩, counted⟩
    · refine adds_none rfl fun row ⟨dv, _, again⟩ => ?_
      cases (counted _).mpr ⟨again.writable, rfl⟩
    obtain ⟨writable, rfl⟩ := (counted items).mp rfl
    dsimp only
    rw [List.any_map]
    split
    · rename_i zombie
      rw [same]
      refine ends_bind (ends_within (ends_bind (ends_read (ends_require (fun dv found => ?_) fun missing => ?_))))
      · simp only [found, Option.some.injEq, exists_eq_left']
        exact resizeAgain_adds writable (List.any_eq_true.mp zombie)
      · refine adds_none rfl fun row ⟨dv, found, _⟩ => ?_
        cases missing.symm.trans found
    · rename_i none_
      exact adds_none rfl fun row ⟨dv, _, again⟩ => none_ (List.any_eq_true.mpr again.zombie)

/-- **The events that `getResizeImageInfo` adds.** -/
theorem getResizeImageInfo_adds (numbered : Table.Numbered ImageItem.id s.imageItems) :
    Ends (getResizeImageInfo session dp) s fun _ s' => AddsEvents s s' (InfoRequeues session dp s) := by
  unfold getResizeImageInfo getImageItemList getDocVersion buildResizeImageInfo
  refine ends_bind (ends_within ((readOnly_openDocument session dp).ends ?_))
  cases opened : (openDocument session dp s.store).1 with
  | error fault =>
    refine adds_none rfl fun row ⟨p, dv, converted, opens, _⟩ => ?_
    cases opened.symm.trans (openDocument_ok_iff.mpr ⟨converted, opens⟩)
  | ok p =>
    obtain ⟨converted, opens⟩ := openDocument_ok_iff.mp opened
    refine ends_bind (ends_within (ends_bind (ends_read (ends_require (fun dv found => ?_) fun missing => ?_))))
    · have own : InfoRequeues session dp s = fun row =>
          (∀ m ∈ ImageItemDAO.readByDocPair dv.pair s.imageItems,
            (ResizeType.getEnum m.resizeType).isSome) ∧
          QueuedAgain s dv (ImageItemDAO.readByDocPair dv.pair s.imageItems) row := by
        funext row
        simp [InfoRequeues, converted, opens, found]
      rw [own]
      refine ends_bind (ends_read (ends_bind ((updateRetryCounts_ends True _ s numbered fun m listed =>
        held_of_mem (List.mem_of_mem_filter listed)).mono ?_)))
      rintro (fault | items) _ ⟨⟨-, ⟨table, rfl⟩, -⟩, counted⟩
      · refine adds_none rfl fun row ⟨_, again⟩ => ?_
        cases (counted _).mpr ⟨again.writable, rfl⟩
      obtain ⟨writable, rfl⟩ := (counted items).mp rfl
      have types := @buildResizeImageInfo_returns
        ((ImageItemDAO.readByDocPair dv.pair s.imageItems).map (retried s.filterSet))
      simp only [List.forall_mem_map, resizeType_retried] at types
      refine ends_bind (ends_require (fun rsi built => ?_) fun failed => ?_)
      · obtain ⟨known, same⟩ := types _
        have known := known.mp ⟨rsi, built⟩
        dsimp only
        rw [same rsi built, List.map_map, List.any_map]
        simp only [and_iff_right known]
        split
        · rename_i zombie
          obtain ⟨m, listed, shown⟩ := List.any_eq_true.mp zombie
          exact resizeAgain_adds writable
            ⟨m, listed, CLBStatus.getStatus_eq_some_iff.mp (beq_iff_eq.mp shown)⟩
        · rename_i none_
          refine adds_none rfl fun row again => none_ ?_
          obtain ⟨m, listed, zombie⟩ := again.zombie
          exact List.any_eq_true.mpr
            ⟨m, listed, beq_iff_eq.mpr (CLBStatus.getStatus_eq_some_iff.mpr zombie)⟩
      · refine adds_none rfl fun row ⟨known, _⟩ => ?_
        obtain ⟨rsi, built⟩ := (types _).1.mpr known
        cases failed.symm.trans built
    · refine adds_none rfl fun row ⟨p', dv, converted', _, found, _⟩ => ?_
      obtain rfl := Option.some.inj (converted.symm.trans converted')
      cases missing.symm.trans found

/-! ## What the events ask for -/

theorem AddsEvents.kept_iff {s' : Server} {requeued : ImageItem → Prop} (adds : AddsEvents s s' requeued)
    (numbered : Table.Numbered ImageItem.id s.imageItems)
    (listed : ∀ row, requeued row → row ∈ s.imageItems.rows) :
    (∀ item ∈ newItems s s', KeptIn s item) ↔ ∀ row, requeued row → Intact s.filterSet row := by
  have kept_iff : ∀ row ∈ s.imageItems.rows,
      KeptIn s (retried s.filterSet row) ↔ Intact s.filterSet row := by
    intro row inside
    rw [← keepsRequest_retried_iff]
    constructor
    · rintro ⟨row', member', same, kept⟩
      rwa [numbered.eq_of_ident_eq member' inside (same.trans (id_retried _ _))] at kept
    · intro kept
      exact ⟨row, inside, (id_retried _ _).symm, kept⟩
  constructor
  · intro kept row again
    exact (kept_iff row (listed row again)).mp (kept _ ((adds _).mpr ⟨row, again, rfl⟩))
  · intro intact item new
    obtain ⟨row, again, rfl⟩ := (adds item).mp new
    exact (kept_iff row (listed row again)).mpr (intact row again)

theorem QueuedAgain.listed {dv : DocVersion} {p : DPair} {row : ImageItem}
    (again : QueuedAgain s dv (ImageItemDAO.readByDocPair p s.imageItems) row) :
    row ∈ s.imageItems.rows :=
  (mem_readByDocPair.mp (mem_of_mem_newBy again.new)).1

/-- **When the events that are queued once more keep their requests.** -/
theorem requeued_kept_iff (numbered : Table.Numbered ImageItem.id s.imageItems) (session : Session)
    (dp : DocPair) :
    ((∀ item ∈ newItems s (queryResizeStatus session dp s).2, KeptIn s item) ↔
      ∀ row, QueryRequeues session dp s row → Intact s.filterSet row) ∧
    ((∀ item ∈ newItems s (getResizeImageInfo session dp s).2, KeptIn s item) ↔
      ∀ row, InfoRequeues session dp s row → Intact s.filterSet row) := by
  constructor
  · refine (queryResizeStatus_adds numbered).kept_iff numbered ?_
    rintro row ⟨p, dv, -, -, -, again⟩
    exact again.listed
  · refine (getResizeImageInfo_adds numbered).kept_iff numbered ?_
    rintro row ⟨p, dv, -, -, -, -, again⟩
    exact again.listed

def picture : Resource := { filename := some "a.png".toList, length := 1, stream := { reads := [[7]] } }

/-- A server with one picture, which has these rows of copies. -/
def pictureServer (rows : List ImageItem) : Server :=
  { Server.empty with store := storeAfter [.createDoc 0 picture], imageItems := ⟨rows, 3⟩ }

/-- A copy that was a zombie before the call. -/
def zombieCopy : ImageItem := { waitingPicture with status := some CLBStatus.ZOMBIE.name }

/-- A copy that is there. -/
def readyCopy : ImageItem :=
  { waitingPicture with
    id := 2, width := 400, height := 300, size := 9, resizeType := some ResizeType.LARGE.name
    status := some CLBStatus.READY.name }

theorem numbered_zombieCopy : Table.Numbered ImageItem.id (pictureServer [zombieCopy]).imageItems :=
  ⟨by decide, by decide, by decide, by decide⟩

/-- The zombie that is queued once more asks for its width. -/
theorem requeued_kept_iff_zombie :
    Table.Numbered ImageItem.id (pictureServer [zombieCopy]).imageItems ∧
      newItems (pictureServer [zombieCopy])
        (queryResizeStatus someSession ⟨1, "1".toList⟩ (pictureServer [zombieCopy])).2 = [zombieCopy] ∧
      ∀ item ∈ newItems (pictureServer [zombieCopy])
        (queryResizeStatus someSession ⟨1, "1".toList⟩ (pictureServer [zombieCopy])).2,
        KeptIn (pictureServer [zombieCopy]) item := by
  refine ⟨numbered_zombieCopy, by decide +kernel,
    (requeued_kept_iff numbered_zombieCopy someSession ⟨1, "1".toList⟩).1.mpr ?_⟩
  rintro row ⟨p, dv, converted, -, -, again⟩
  have intact : ∀ row ∈ (pictureServer [zombieCopy]).imageItems.rows,
      Intact (pictureServer [zombieCopy]).filterSet row := by decide +kernel
  exact intact row again.listed

/-- A copy that waits alone is queued without its width, and the copy that is there is queued too. -/
theorem request_lost :
    Table.Numbered ImageItem.id (pictureServer [waitingPicture, readyCopy]).imageItems ∧
      newItems (pictureServer [waitingPicture, readyCopy])
        (queryResizeStatus someSession ⟨1, "1".toList⟩ (pictureServer [waitingPicture, readyCopy])).2 =
          [{ zombieCopy with width := 0 }, readyCopy] ∧
      newItems (pictureServer [waitingPicture, readyCopy])
        (getResizeImageInfo someSession ⟨1, "1".toList⟩ (pictureServer [waitingPicture, readyCopy])).2 =
          [{ zombieCopy with width := 0 }, readyCopy] ∧
      ¬KeptIn (pictureServer [waitingPicture, readyCopy]) { zombieCopy with width := 0 } ∧
      ¬KeptIn (pictureServer [waitingPicture, readyCopy]) readyCopy :=
  ⟨⟨by decide, by decide, by decide, by decide⟩, by decide +kernel, by decide +kernel, by decide +kernel,
    by decide +kernel⟩

end Clb
