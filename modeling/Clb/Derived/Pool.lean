/-
# Derived.Pool -- resize requests, workers and the cleaner at the same time

The threads around the resize queue, cut into the steps that other threads can come between. A request
loads the source into a temp file, builds its items, deletes and inserts rows, and adds one event after
the other: it tests the filter, puts the event into the queue, adds the key to the filter. A query that
finds zombies loads the source and adds an event for each row it has read. A worker
takes an event, looks for the source, resizes it into a temp file named by type and source, stores that
file, updates the rows, schedules the temp files for deletion, and removes the key. The cleaner goes
through the jobs with an iterator, which holds its next entry before it is asked for; it reads the time
of the entry, and if it has expired it deletes the file and forgets the job.

`callerStep_effect` and `workerStep_effect` say what a step can do. -/
import Clb.Derived.System
import Mathlib.Logic.Function.Basic

set_option autoImplicit false
set_option linter.unusedSectionVars false

namespace Clb

open Clb.Lib Clb.Dao DocumentFacade Handlers ImageFacade

/-! ## Sizes and temp files -/

structure SizePair where
  width : Int
  height : Int
deriving DecidableEq, Repr

/-- `getResizePair`, in the arithmetic of `int`. -/
def SizePair.getResizePair (size : SizePair) (resizePoint : Int) (useWidth : Bool) : SizePair :=
  if useWidth then
    if size.width < resizePoint then
      size
    else
      ⟨resizePoint, ((resizePoint * size.height).bmod (2 ^ 32)).tdiv size.width⟩
  else if size.height < resizePoint then
    size
  else
    ⟨((resizePoint * size.width).bmod (2 ^ 32)).tdiv size.height, resizePoint⟩

/-- The size of an original, as `identify` prints it. -/
structure ImageSize extends SizePair where
  width_pos : 0 < width
  height_pos : 0 < height

/-- The size that a worker makes of the original of an event. -/
def ResizeEvent.target (measure : ObjectId → ImageSize) (e : ResizeEvent) : SizePair :=
  if e.item.width ≠ 0 then
    (measure e.source).getResizePair e.item.width true
  else
    (measure e.source).getResizePair e.item.height false

/-- The file that a worker resizes an event into, by what its name is made of. -/
def ResizeEvent.slot (e : ResizeEvent) : Option Text × ObjectId := (e.item.resizeType, e.source)

/-- A resized image: the original it shows and the size it is scaled to. -/
structure Picture where
  source : ObjectId
  size : SizePair
  length : Int
deriving DecidableEq, Repr

inductive TempPath where
  | original (storageKey : ObjectId)
  | resized (slot : Option Text × ObjectId)
deriving DecidableEq, Repr

/-! ## Where the threads stand -/

/-- A request: its source is loaded, its items are built, the old rows are deleted, the new ones are
inserted and events are added; of one event the test has passed, or it is in the queue. A query has
counted its items with a zombie among them, before it goes on to load the source. -/
inductive Caller where
  | idle
  | counted (dv : DocVersion) (items : List ImageItem)
  | loaded (dv : DocVersion) (pm : ResizeParam) (sp : ObjectId)
  | built (dv : DocVersion) (sp : ObjectId) (jobs : List (ResizeType × ImageItem))
  | deleted (sp : ObjectId) (items : List ImageItem)
  | adding (sp : ObjectId) (items : List ImageItem)
  | tested (sp : ObjectId) (item : ImageItem) (rest : List ImageItem)
  | queued (sp : ObjectId) (item : ImageItem) (rest : List ImageItem)

/-- A caller that has not loaded a source. -/
def Caller.Unloaded : Caller → Prop
  | .idle | .counted _ _ => True
  | _ => False

/-- A worker, by what it has done with its event: the handler has ended in `ended`, a fault has ended
the thread in `dead`. -/
inductive Worker where
  | idle
  | taken (e : ResizeEvent)
  | started (e : ResizeEvent)
  | resized (e : ResizeEvent) (p : SizePair)
  | stored (e : ResizeEvent) (p : SizePair)
  | updated (e : ResizeEvent)
  | ended (e : ResizeEvent)
  | dead

/-- The event that the handler of a worker is at work on. -/
@[simp] def Worker.handled : Worker → Option ResizeEvent
  | .taken e | .started e | .resized e _ | .stored e _ | .updated e => some e
  | .idle | .ended _ | .dead => none

/-- An entry of `toDeleteMap` that the iterator holds, with its time if it has left the map since. -/
structure JobEntry where
  path : TempPath
  removed : Option Int
deriving DecidableEq

inductive CleanerStage where
  | idle
  | read (path : TempPath) (lastEditTime : Int)
  | found (path : TempPath)
  | deleted (path : TempPath)
deriving DecidableEq

/-- The cleaner: the entry its iterator hands out next, and what it has done with the one before. -/
structure Cleaner where
  next : Option JobEntry
  stage : CleanerStage
deriving DecidableEq

/-- An entry leaves the map; the iterator keeps it. -/
def Cleaner.unlink (cleaner : Cleaner) (path : TempPath) (job : Option Int) : Cleaner :=
  { cleaner with
    next := cleaner.next.map fun e => if e.path = path then { e with removed := e.removed.or job } else e }

/-- The server with its threads. `copies` are the files that the workers resize into, `pictures` what is
stored under the keys of clb_image, `jobs` is `toDeleteMap`. -/
structure Pool (C W : Type) where
  server : Server
  pictures : List (ObjectId × Picture)
  copies : Option Text × ObjectId → Option Picture
  jobs : TempPath → Option Int
  clock : Int
  callers : C → Caller
  workers : W → Worker
  cleaner : Cleaner

/-! ## The steps -/

inductive CallerStep where
  | query (dv : DocVersion)
  | reload
  | load (dv : DocVersion) (pm : ResizeParam)
  | build
  | deleteRows
  | createRows
  | test
  | enqueue
  | record
  | finish

/-- `resize` with the length of the file it writes, or with null. -/
inductive WorkerStep where
  | take
  | start
  | resize (length : Option Int)
  | store
  | update
  | schedule
  | remove
  | crash
deriving DecidableEq

/-- `iterator` and `next` with the path of the entry that is fetched, if it is in the map. -/
inductive CleanerStep where
  | iterator (first : TempPath)
  | next (following : TempPath)
  | test
  | delete
  | unschedule

/-- A step of a thread, a cache lookup of another handler, or time that passes. -/
inductive PoolLabel (C W : Type) where
  | caller (c : C) (act : CallerStep)
  | worker (w : W) (act : WorkerStep)
  | cleaner (act : CleanerStep)
  | lookup (key : ObjectId) (ins : InputStream)
  | tick (duration : Nat)

/-- MAX_ALIVE_TIME, in milliseconds. -/
def maxAliveTime : Int := 2 * 60 * 1000

namespace Pool

variable {C W : Type} [DecidableEq C] [DecidableEq W]

section Parts

variable (s : Pool C W)

def stand (c : C) (caller : Caller) : Pool C W :=
  { s with callers := Function.update s.callers c caller }

def move (w : W) (worker : Worker) : Pool C W :=
  { s with workers := Function.update s.workers w worker }

def onServer (server : Server) : Pool C W := { s with server }

/-- `addNewJob`. -/
def addNewJob (path : TempPath) : Pool C W :=
  { s with jobs := Function.update s.jobs path (some s.clock) }

def removeJob (path : TempPath) : Pool C W :=
  { s with jobs := Function.update s.jobs path none, cleaner := s.cleaner.unlink path (s.jobs path) }

/-- An iterator goes on to an entry. -/
def fetch (path : TempPath) : Option JobEntry := (s.jobs path).map fun _ => ⟨path, none⟩

def enter (stage : CleanerStage) : Pool C W := { s with cleaner := { s.cleaner with stage } }

/-- `saveTempFile`, with the job that a hit cancels. -/
def saveTempFile (key : ObjectId) (ins : InputStream) : Except Fault Bool × Pool C W :=
  let saved := LocalFileCache.saveTempFile key ins s.server.store.cache
  let s' := s.onServer { s.server with store := { s.server.store with cache := saved.2 } }
  (saved.1, if s.server.store.cache.hit key then s'.removeJob (.original key) else s')

/-- `loadOriginalImage` on the content of a version. -/
def loadOriginalImage (c : C) (dv : DocVersion) (next : ObjectId → Caller) : Pool C W :=
  match dv.storageKey.bind s.server.store.mongo.readFile with
  | none => s.stand c .idle
  | some f =>
    let saved := s.saveTempFile f.storageKey (f.getInputStream s.server.store.mongo)
    match saved.1 with
    | .ok true => saved.2.stand c (next f.storageKey)
    | _ => saved.2.stand c .idle

def writeCopy (slot : Option Text × ObjectId) (picture : Option Picture) : Pool C W :=
  { s with copies := Function.update s.copies slot picture }

/-- `writeImage`. -/
def writeImage (key : ObjectId) (picture : Picture) : Pool C W :=
  { s with
    server :=
      { s.server with images := s.server.images ++ [⟨key, picture.length, picture.source⟩] }
    pictures := s.pictures ++ [(key, picture)] }

/-- The rows of a key are written; a fault ends the worker. -/
def updateRows (w : W) (e : ResizeEvent) (length : Int) (p : SizePair) (status : CLBStatus)
    (next : Worker) : Pool C W :=
  let updated := updateImageItems e.item.storageKey length p.width p.height status s.server
  match updated.1 with
  | .ok _ => (s.onServer updated.2).move w next
  | .error _ => (s.onServer updated.2).move w .dead

end Parts

def callerStep (c : C) (act : CallerStep) (s : Pool C W) : Pool C W :=
  match act, s.callers c with
  | .query dv, .idle =>
    if dv ∈ s.server.store.versions.rows then
      match updateRetryCounts (ImageItemDAO.readByDocPair dv.pair s.server.imageItems) s.server with
      | (.ok items, server) =>
        (s.onServer server).stand c
          (if items.any fun m => CLBStatus.isZombie m.status then .counted dv items else .idle)
      | (.error _, server) => (s.onServer server).stand c .idle
    else
      s
  | .reload, .counted dv items => s.loadOriginalImage c dv fun sp => .adding sp items
  | .load dv pm, .idle =>
    if dv ∈ s.server.store.versions.rows then
      s.loadOriginalImage c dv fun sp => .loaded dv pm sp
    else
      s
  | .build, .loaded dv pm sp =>
    match buildImageItems pm dv ResizeType.values s.server with
    | (.ok jobs, server) => (s.onServer server).stand c (.built dv sp jobs)
    | (.error _, server) => (s.onServer server).stand c .idle
  | .deleteRows, .built dv sp jobs =>
    (s.onServer
      { s.server with
        imageItems := ImageItemDAO.delete dv.pair (jobs.map (·.1)) s.server.imageItems }).stand c
      (.deleted sp (jobs.map (·.2)))
  | .createRows, .deleted sp items =>
    match ImageItemDAO.create items s.server.imageItems with
    | (.ok _, table) => (s.onServer { s.server with imageItems := table }).stand c (.adding sp items)
    | (.error _, table) => (s.onServer { s.server with imageItems := table }).stand c .idle
  | .test, .adding sp (item :: rest) =>
    if s.server.filterSet.contains item.getUniqueKey then
      s.stand c (.adding sp rest)
    else
      s.stand c (.tested sp item rest)
  | .enqueue, .tested sp item rest =>
    (s.onServer { s.server with queue := s.server.queue ++ [⟨sp, item⟩] }).stand c
      (.queued sp item rest)
  | .record, .queued sp item rest =>
    (s.onServer
      { s.server with filterSet := s.server.filterSet ++ [item.getUniqueKey] }).stand c
      (.adding sp rest)
  | .finish, .adding _ [] => s.stand c .idle
  | _, _ => s

def workerStep (measure : ObjectId → ImageSize) (w : W) (act : WorkerStep) (s : Pool C W) : Pool C W :=
  match act, s.workers w with
  | .take, .idle =>
    match s.server.queue with
    | [] => s
    | e :: rest => (s.onServer { s.server with queue := rest }).move w (.taken e)
  | .start, .taken e =>
    if (s.server.store.cache.tempFile e.source).isSome then
      (s.removeJob (.original e.source)).move w (.started e)
    else
      s.move w (.ended e)
  | .resize length, .started e =>
    match length, s.server.store.cache.tempFile e.source with
    | some length, some _ =>
      (s.writeCopy e.slot (some ⟨e.source, e.target measure, length⟩)).move w
        (.resized e (e.target measure))
    | _, _ => s.updateRows w e 0 ⟨0, 0⟩ .FAILED (.ended e)
  | .store, .resized e p =>
    match s.copies e.slot with
    | none => s.move w (.stored e p)
    | some picture =>
      match e.item.filename, e.item.storageKey with
      | some _, some key => (s.writeImage key picture).move w (.stored e p)
      | _, _ => s.move w .dead
  | .update, .stored e p =>
    match s.copies e.slot with
    | none => s.move w (.updated e)
    | some picture =>
      if picture.length ≠ 0 then
        s.updateRows w e picture.length p .READY (.updated e)
      else
        s.move w (.updated e)
  | .schedule, .updated e =>
    ((s.addNewJob (.original e.source)).addNewJob (.resized e.slot)).move w (.ended e)
  | .remove, .ended e =>
    (s.onServer
      { s.server with
        filterSet := s.server.filterSet.filter fun key => key != e.item.getUniqueKey }).move w .idle
  | .crash, .taken _ | .crash, .started _ | .crash, .resized _ _ | .crash, .stored _ _
  | .crash, .updated _ => s.move w .dead
  | _, _ => s

def cleanerStep (act : CleanerStep) (s : Pool C W) : Pool C W :=
  match act, s.cleaner.stage with
  | .iterator first, .idle =>
    match s.cleaner.next with
    | none => { s with cleaner := ⟨s.fetch first, .idle⟩ }
    | some _ => s
  | .next following, .idle =>
    match s.cleaner.next with
    | none => s
    | some e =>
      -- the value of an entry in the map is the one of the last `put`
      match e.removed.or (s.jobs e.path) with
      | some lastEditTime => { s with cleaner := ⟨s.fetch following, .read e.path lastEditTime⟩ }
      | none => s
  | .test, .read path lastEditTime =>
    if s.clock > lastEditTime + maxAliveTime then s.enter (.found path) else s.enter .idle
  | .delete, .found (.original key) => (s.onServer (s.server.cleaned key)).enter (.deleted (.original key))
  | .delete, .found (.resized slot) => (s.writeCopy slot none).enter (.deleted (.resized slot))
  | .unschedule, .deleted path => (s.removeJob path).enter .idle
  | _, _ => s

def step (measure : ObjectId → ImageSize) (label : PoolLabel C W) (s : Pool C W) : Pool C W :=
  match label with
  | .caller c act => s.callerStep c act
  | .worker w act => s.workerStep measure w act
  | .cleaner act => s.cleanerStep act
  | .lookup key ins => (s.saveTempFile key ins).2
  | .tick duration => { s with clock := s.clock + duration }

/-! ## What a step can do -/

/-- What a step of a request does, with what it found. -/
inductive CallerEffect (c : C) (s : Pool C W) : CallerStep → Pool C W → Prop
  | stutter (act : CallerStep) : CallerEffect c s act s
  | query (dv : DocVersion) (items : List ImageItem) (next : Caller) (stands : s.callers c = .idle)
      (ends : next = .counted dv items ∨ next = .idle) :
      CallerEffect c s (.query dv) ((s.onServer (updateRetryCounts
        (ImageItemDAO.readByDocPair dv.pair s.server.imageItems) s.server).2).stand c next)
  | absent (act : CallerStep) (stands : (s.callers c).Unloaded) : CallerEffect c s act (s.stand c .idle)
  | miss (act : CallerStep) (key : ObjectId) (ins : InputStream) (stands : (s.callers c).Unloaded) :
      CallerEffect c s act ((s.saveTempFile key ins).2.stand c .idle)
  | reload (dv : DocVersion) (items : List ImageItem) (key : ObjectId) (ins : InputStream)
      (stands : s.callers c = .counted dv items) (stored : dv.storageKey = some key) :
      CallerEffect c s .reload ((s.saveTempFile key ins).2.stand c (.adding key items))
  | load (dv : DocVersion) (pm : ResizeParam) (key : ObjectId) (ins : InputStream)
      (stands : s.callers c = .idle) (member : dv ∈ s.server.store.versions.rows)
      (stored : dv.storageKey = some key) :
      CallerEffect c s (.load dv pm) ((s.saveTempFile key ins).2.stand c (.loaded dv pm key))
  | build (dv : DocVersion) (pm : ResizeParam) (sp : ObjectId) (jobs : List (ResizeType × ImageItem))
      (t : Store) (stands : s.callers c = .loaded dv pm sp) (lends : Lends s.server.store t)
      (minted : Minted dv.pair s.server.store.mongo.issued t.mongo.issued (jobs.map (·.2)))
      (sized : ∀ job ∈ jobs, ∃ key, 0 < getPoint pm job.1 ∧
        job.2 = buildImageItem dv key job.1 (getPoint pm job.1) pm.useWidthOrHeight) :
      CallerEffect c s .build ((s.onServer { s.server with store := t }).stand c (.built dv sp jobs))
  | deleteRows (dv : DocVersion) (sp : ObjectId) (jobs : List (ResizeType × ImageItem))
      (stands : s.callers c = .built dv sp jobs) :
      CallerEffect c s .deleteRows ((s.onServer
        { s.server with
          imageItems := ImageItemDAO.delete dv.pair (jobs.map (·.1)) s.server.imageItems }).stand c
        (.deleted sp (jobs.map (·.2))))
  | createRows (sp : ObjectId) (items inserted : List ImageItem) (next : Caller)
      (stands : s.callers c = .deleted sp items) (first : inserted <+: items)
      (ends : next = .adding sp items ∨ next = .idle) :
      CallerEffect c s .createRows ((s.onServer
        { s.server with
          imageItems :=
            inserted.foldl (fun t i => t.insert imageItemDAO.setId i) s.server.imageItems }).stand c next)
  | skip (sp : ObjectId) (item : ImageItem) (rest : List ImageItem)
      (stands : s.callers c = .adding sp (item :: rest))
      (present : item.getUniqueKey ∈ s.server.filterSet) :
      CallerEffect c s .test (s.stand c (.adding sp rest))
  | test (sp : ObjectId) (item : ImageItem) (rest : List ImageItem)
      (stands : s.callers c = .adding sp (item :: rest))
      (absent : item.getUniqueKey ∉ s.server.filterSet) :
      CallerEffect c s .test (s.stand c (.tested sp item rest))
  | enqueue (sp : ObjectId) (item : ImageItem) (rest : List ImageItem)
      (stands : s.callers c = .tested sp item rest) :
      CallerEffect c s .enqueue ((s.onServer
        { s.server with queue := s.server.queue ++ [⟨sp, item⟩] }).stand c (.queued sp item rest))
  | record (sp : ObjectId) (item : ImageItem) (rest : List ImageItem)
      (stands : s.callers c = .queued sp item rest) :
      CallerEffect c s .record ((s.onServer
        { s.server with filterSet := s.server.filterSet ++ [item.getUniqueKey] }).stand c
        (.adding sp rest))
  | finish (sp : ObjectId) (stands : s.callers c = .adding sp []) :
      CallerEffect c s .finish (s.stand c .idle)

/-- What a step of a worker does, with what it found. -/
inductive WorkerEffect (measure : ObjectId → ImageSize) (w : W) (s : Pool C W) :
    WorkerStep → Pool C W → Prop
  | stutter (act : WorkerStep) : WorkerEffect measure w s act s
  | take (e : ResizeEvent) (rest : List ResizeEvent) (stands : s.workers w = .idle)
      (first : s.server.queue = e :: rest) :
      WorkerEffect measure w s .take ((s.onServer { s.server with queue := rest }).move w (.taken e))
  | start (e : ResizeEvent) (stands : s.workers w = .taken e) :
      WorkerEffect measure w s .start ((s.removeJob (.original e.source)).move w (.started e))
  | missing (e : ResizeEvent) (stands : s.workers w = .taken e) :
      WorkerEffect measure w s .start (s.move w (.ended e))
  | resize (e : ResizeEvent) (length : Int) (stands : s.workers w = .started e) :
      WorkerEffect measure w s (.resize (some length))
        ((s.writeCopy e.slot (some ⟨e.source, e.target measure, length⟩)).move w
          (.resized e (e.target measure)))
  | refuse (e : ResizeEvent) (length : Option Int) (next : Worker) (stands : s.workers w = .started e)
      (ends : next = .ended e ∨ next = .dead) :
      WorkerEffect measure w s (.resize length) ((s.onServer
        (updateImageItems e.item.storageKey 0 0 0 .FAILED s.server).2).move w next)
  | store (e : ResizeEvent) (p : SizePair) (picture : Picture) (key : ObjectId)
      (stands : s.workers w = .resized e p) (copy : s.copies e.slot = some picture)
      (named : e.item.storageKey = some key) :
      WorkerEffect measure w s .store ((s.writeImage key picture).move w (.stored e p))
  | lost (e : ResizeEvent) (p : SizePair) (stands : s.workers w = .resized e p)
      (copy : s.copies e.slot = none) :
      WorkerEffect measure w s .store (s.move w (.stored e p))
  | update (e : ResizeEvent) (p : SizePair) (picture : Picture) (next : Worker)
      (stands : s.workers w = .stored e p) (copy : s.copies e.slot = some picture)
      (ends : next = .updated e ∨ next = .dead) :
      WorkerEffect measure w s .update ((s.onServer
        (updateImageItems e.item.storageKey picture.length p.width p.height .READY s.server).2).move w
        next)
  | unchanged (e : ResizeEvent) (p : SizePair) (stands : s.workers w = .stored e p) :
      WorkerEffect measure w s .update (s.move w (.updated e))
  | schedule (e : ResizeEvent) (stands : s.workers w = .updated e) :
      WorkerEffect measure w s .schedule
        (((s.addNewJob (.original e.source)).addNewJob (.resized e.slot)).move w (.ended e))
  | remove (e : ResizeEvent) (stands : s.workers w = .ended e) :
      WorkerEffect measure w s .remove ((s.onServer
        { s.server with
          filterSet := s.server.filterSet.filter fun key => key != e.item.getUniqueKey }).move w .idle)
  | crash (act : WorkerStep) (e : ResizeEvent) (stands : (s.workers w).handled = some e) :
      WorkerEffect measure w s act (s.move w .dead)

/-- All threads wait, on a server whose queue and filter are empty. -/
def start (server : Server) : Pool C W where
  server := { server with queue := [], filterSet := [] }
  pictures := []
  copies := fun _ => none
  jobs := fun _ => none
  clock := 0
  callers := fun _ => .idle
  workers := fun _ => .idle
  cleaner := ⟨none, .idle⟩

-- the equations of the two steps, which every effect below starts from
attribute [local simp] callerStep workerStep

/-- What `buildImageItems` makes: items of the types asked for. -/
theorem buildImageItems_sized {pm : ResizeParam} {dv : DocVersion} (types : List ResizeType) :
    ∀ server : Server, Action.Ends (buildImageItems pm dv types) server fun r _ =>
      ∀ jobs, r = .ok jobs → ∀ job ∈ jobs, ∃ key, 0 < getPoint pm job.1 ∧
        job.2 = buildImageItem dv key job.1 (getPoint pm job.1) pm.useWidthOrHeight := by
  induction types with
  | nil =>
    intro server
    refine Action.ends_pure fun jobs returned job member => ?_
    rw [← Except.ok.inj returned] at member
    cases member
  | cons rt rest ih =>
    intro server
    unfold buildImageItems
    refine Action.ends_ite (fun _ => ih server) fun positive => ?_
    refine Action.ends_bind (Action.ends_of_eq (generateStorageKey_eq server) ?_)
    refine Action.ends_bind (Action.ends_read (Action.ends_bind ((ih _).mono ?_)))
    rintro (fault | items) server' made
    · intro jobs returned
      cases returned
    · refine Action.ends_pure fun jobs returned job member => ?_
      rw [← Except.ok.inj returned] at member
      split at member
      · exact made items rfl job member
      · rcases List.mem_cons.mp member with rfl | later
        · exact ⟨_, Int.not_le.mp positive, rfl⟩
        · exact made items rfl job later

variable {s : Pool C W}

/-- What a load ends in: the temp file is there, or the caller gives up. -/
theorem loadOriginalImage_cases (c : C) (dv : DocVersion) (next : ObjectId → Caller) :
    (∃ key ins, dv.storageKey = some key ∧
      s.loadOriginalImage c dv next = (s.saveTempFile key ins).2.stand c (next key)) ∨
    (∃ key ins, s.loadOriginalImage c dv next = (s.saveTempFile key ins).2.stand c .idle) ∨
    s.loadOriginalImage c dv next = s.stand c .idle := by
  unfold loadOriginalImage
  cases found : dv.storageKey.bind s.server.store.mongo.readFile with
  | none => exact .inr (.inr rfl)
  | some f =>
    obtain ⟨key, stored, read⟩ := Option.bind_eq_some_iff.mp found
    obtain rfl : f.storageKey = key := (Mongo.readFile_eq_some read).2
    dsimp only
    split
    · exact .inl ⟨f.storageKey, _, stored, rfl⟩
    · exact .inr (.inl ⟨f.storageKey, _, rfl⟩)

theorem query_effect (c : C) (dv : DocVersion) :
    CallerEffect c s (.query dv) (s.callerStep c (.query dv)) := by
  cases stands : s.callers c with
  | idle =>
    simp only [callerStep, stands]
    split
    · rcases counted : updateRetryCounts (ImageItemDAO.readByDocPair dv.pair s.server.imageItems)
        s.server with ⟨fault | items, server⟩
      · have effect := CallerEffect.query dv [] .idle stands (.inr rfl)
        rw [counted] at effect
        exact effect
      · have effect := CallerEffect.query dv items
          (if items.any fun m => CLBStatus.isZombie m.status then .counted dv items else .idle) stands
          (by split; exacts [.inl rfl, .inr rfl])
        rw [counted] at effect
        exact effect
    · exact .stutter _
  | _ =>
    simp only [callerStep, stands]
    exact .stutter _

theorem reload_effect (c : C) : CallerEffect c s .reload (s.callerStep c .reload) := by
  cases stands : s.callers c with
  | counted dv items =>
    have unloaded : (s.callers c).Unloaded := by rw [stands]; trivial
    simp only [callerStep, stands]
    rcases s.loadOriginalImage_cases c dv (.adding · items) with
      ⟨key, ins, stored, same⟩ | ⟨key, ins, same⟩ | same <;> rw [same]
    · exact .reload dv items key ins stands stored
    · exact .miss .reload key ins unloaded
    · exact .absent .reload unloaded
  | _ =>
    simp only [callerStep, stands]
    exact .stutter _

theorem load_effect (c : C) (dv : DocVersion) (pm : ResizeParam) :
    CallerEffect c s (.load dv pm) (s.callerStep c (.load dv pm)) := by
  cases stands : s.callers c with
  | idle =>
    have unloaded : (s.callers c).Unloaded := by rw [stands]; trivial
    simp only [callerStep, stands]
    split
    · rename_i member
      rcases s.loadOriginalImage_cases c dv (.loaded dv pm) with
        ⟨key, ins, stored, same⟩ | ⟨key, ins, same⟩ | same <;> rw [same]
      · exact .load dv pm key ins stands member stored
      · exact .miss _ key ins unloaded
      · exact .absent _ unloaded
    · exact .stutter _
  | _ =>
    simp only [callerStep, stands]
    exact .stutter _

theorem build_effect (c : C) : CallerEffect c s .build (s.callerStep c .build) := by
  cases stands : s.callers c with
  | loaded dv pm sp =>
    simp only [callerStep, stands]
    rcases built : buildImageItems pm dv ResizeType.values s.server with ⟨r, server⟩
    obtain ⟨t, jobs, rfl, rfl, lends, minted⟩ := (buildImageItems_ends _ s.server).apply built
    exact .build dv pm sp jobs t stands lends minted
      ((buildImageItems_sized _ s.server).apply built jobs rfl)
  | _ =>
    simp only [callerStep, stands]
    exact .stutter _

theorem createRows_effect (c : C) : CallerEffect c s .createRows (s.callerStep c .createRows) := by
  cases stands : s.callers c with
  | deleted sp items =>
    simp only [callerStep, stands]
    rcases created : ImageItemDAO.create items s.server.imageItems with ⟨r, table⟩
    obtain ⟨inserted, first, rfl, -⟩ := (create_ends items _).apply created
    cases r with
    | ok _ => exact .createRows sp items inserted _ stands first (.inl rfl)
    | error _ => exact .createRows sp items inserted _ stands first (.inr rfl)
  | _ =>
    simp only [callerStep, stands]
    exact .stutter _

theorem test_effect (c : C) : CallerEffect c s .test (s.callerStep c .test) := by
  cases stands : s.callers c with
  | adding sp items =>
    cases items with
    | nil =>
      simp only [callerStep, stands]
      exact .stutter _
    | cons item rest =>
      simp only [callerStep, stands]
      split
      · rename_i present
        exact .skip sp item rest stands (List.contains_iff_mem.mp present)
      · rename_i absent
        exact .test sp item rest stands fun present => absent (List.contains_iff_mem.mpr present)
  | _ =>
    simp only [callerStep, stands]
    exact .stutter _

/-- **What a step of a request can do.** -/
theorem callerStep_effect (c : C) (act : CallerStep) : CallerEffect c s act (s.callerStep c act) := by
  cases act with
  | query dv => exact query_effect c dv
  | reload => exact reload_effect c
  | load dv pm => exact load_effect c dv pm
  | build => exact build_effect c
  | createRows => exact createRows_effect c
  | test => exact test_effect c
  | deleteRows =>
    cases stands : s.callers c with
    | built dv sp jobs =>
      simp only [callerStep, stands]
      exact .deleteRows dv sp jobs stands
    | _ =>
      simp only [callerStep, stands]
      exact .stutter _
  | enqueue =>
    cases stands : s.callers c with
    | tested sp item rest =>
      simp only [callerStep, stands]
      exact .enqueue sp item rest stands
    | _ =>
      simp only [callerStep, stands]
      exact .stutter _
  | record =>
    cases stands : s.callers c with
    | queued sp item rest =>
      simp only [callerStep, stands]
      exact .record sp item rest stands
    | _ =>
      simp only [callerStep, stands]
      exact .stutter _
  | finish =>
    cases stands : s.callers c with
    | adding sp items =>
      cases items with
      | nil =>
        simp only [callerStep, stands]
        exact .finish sp stands
      | cons item rest =>
        simp only [callerStep, stands]
        exact .stutter _
    | _ =>
      simp only [callerStep, stands]
      exact .stutter _

variable {measure : ObjectId → ImageSize}

theorem updateRows_eq (w : W) (e : ResizeEvent) (length : Int) (p : SizePair) (status : CLBStatus)
    (next : Worker) :
    ∃ next', (next' = next ∨ next' = .dead) ∧ s.updateRows w e length p status next =
      (s.onServer (updateImageItems e.item.storageKey length p.width p.height status s.server).2).move w
        next' := by
  unfold updateRows
  dsimp only
  split
  · exact ⟨next, .inl rfl, rfl⟩
  · exact ⟨.dead, .inr rfl, rfl⟩

theorem resize_effect (w : W) (written : Option Int) :
    WorkerEffect measure w s (.resize written) (s.workerStep measure w (.resize written)) := by
  cases stands : s.workers w with
  | started e =>
    simp only [workerStep, stands]
    split
    · exact .resize e _ stands
    · obtain ⟨next, ends, same⟩ := s.updateRows_eq w e 0 ⟨0, 0⟩ .FAILED (.ended e)
      rw [same]
      exact .refuse e _ next stands ends
  | _ =>
    simp only [workerStep, stands]
    exact .stutter _

theorem store_effect (w : W) : WorkerEffect measure w s .store (s.workerStep measure w .store) := by
  cases stands : s.workers w with
  | resized e p =>
    simp only [workerStep, stands]
    cases copy : s.copies e.slot with
    | none => exact .lost e p stands copy
    | some picture =>
      dsimp only
      split
      · exact .store e p picture _ stands copy ‹_›
      · exact .crash .store e (by rw [stands]; rfl)
  | _ =>
    simp only [workerStep, stands]
    exact .stutter _

theorem update_effect (w : W) : WorkerEffect measure w s .update (s.workerStep measure w .update) := by
  cases stands : s.workers w with
  | stored e p =>
    simp only [workerStep, stands]
    cases copy : s.copies e.slot with
    | none => exact .unchanged e p stands
    | some picture =>
      dsimp only
      split
      · obtain ⟨next, ends, same⟩ := s.updateRows_eq w e picture.length p .READY (.updated e)
        rw [same]
        exact .update e p picture next stands copy ends
      · exact .unchanged e p stands
  | _ =>
    simp only [workerStep, stands]
    exact .stutter _

/-- **What a step of a worker can do.** -/
theorem workerStep_effect (w : W) (act : WorkerStep) :
    WorkerEffect measure w s act (s.workerStep measure w act) := by
  cases act with
  | resize length => exact resize_effect w length
  | store => exact store_effect w
  | update => exact update_effect w
  | take =>
    cases stands : s.workers w with
    | idle =>
      cases first : s.server.queue with
      | nil =>
        simp only [workerStep, stands, first]
        exact .stutter _
      | cons e rest =>
        simp only [workerStep, stands, first]
        exact .take e rest stands first
    | _ =>
      simp only [workerStep, stands]
      exact .stutter _
  | start =>
    cases stands : s.workers w with
    | taken e =>
      simp only [workerStep, stands]
      split
      · exact .start e stands
      · exact .missing e stands
    | _ =>
      simp only [workerStep, stands]
      exact .stutter _
  | schedule =>
    cases stands : s.workers w with
    | updated e =>
      simp only [workerStep, stands]
      exact .schedule e stands
    | _ =>
      simp only [workerStep, stands]
      exact .stutter _
  | remove =>
    cases stands : s.workers w with
    | ended e =>
      simp only [workerStep, stands]
      exact .remove e stands
    | _ =>
      simp only [workerStep, stands]
      exact .stutter _
  | crash =>
    cases stands : s.workers w with
    | idle | ended e | dead =>
      simp only [workerStep, stands]
      exact .stutter _
    | taken e | started e | resized e p | stored e p | updated e =>
      simp only [workerStep, stands]
      exact .crash .crash e (by rw [stands]; rfl)

/-- `saveTempFile` changes the cache and the jobs, and nothing that the cleaner is doing. -/
theorem saveTempFile_eq (key : ObjectId) (ins : InputStream) :
    ∃ cache jobs cleaner, (s.saveTempFile key ins).2 =
      { s with server := { s.server with store := { s.server.store with cache } }, jobs, cleaner } ∧
      cleaner.stage = s.cleaner.stage := by
  unfold saveTempFile
  cases s.server.store.cache.hit key with
  | true => exact ⟨_, _, _, rfl, rfl⟩
  | false => exact ⟨_, _, _, rfl, rfl⟩

/-- What the cleaner can do to the rest: it deletes a temp file. -/
theorem cleanerStep_effect (act : CleanerStep) :
    (∃ jobs cleaner, s.cleanerStep act = { s with jobs, cleaner }) ∨
      (∃ key stage, s.cleanerStep act = (s.onServer (s.server.cleaned key)).enter stage) ∨
      ∃ slot stage, s.cleanerStep act = (s.writeCopy slot none).enter stage := by
  unfold cleanerStep
  split
  · split <;> exact .inl ⟨_, _, rfl⟩
  · split
    · exact .inl ⟨_, _, rfl⟩
    · split <;> exact .inl ⟨_, _, rfl⟩
  · split <;> exact .inl ⟨_, _, rfl⟩
  · exact .inr (.inl ⟨_, _, rfl⟩)
  · exact .inr (.inr ⟨_, _, rfl⟩)
  · exact .inl ⟨_, _, rfl⟩
  · exact .inl ⟨_, _, rfl⟩

end Pool

/-! ## A server with one image -/

/-- The server after one image was uploaded. -/
def imageServer : Server :=
  serverAfter [.document ⟨someSession, .createDoc 0
    { filename := some "a.jpg".toList, length := 2, stream := { reads := [[1, 2]] } }⟩]

/-- The version that was uploaded. -/
def imageRow : DocVersion where
  id := 1
  docid := 1
  appid := 1
  version := 1
  filename := some "a.jpg".toList
  fileExtension := some "jpg".toList
  size := 2
  storageKey := some ⟨0⟩
  uploadStatus := some .complete

/-- Every original is 100 wide and 200 high. -/
def upright : ObjectId → ImageSize := fun _ => ⟨⟨100, 200⟩, by decide, by decide⟩

/-- A small copy of the image, of a given width. -/
def smallCopy (point : Int) : ResizeParam := ⟨1, "1".toList, point, 0, 0, some "width".toList⟩

/-- A request up to its first `addEvent`. -/
def requestLabels {C W : Type} (c : C) (pm : ResizeParam) : List (PoolLabel C W) :=
  [.caller c (.load imageRow pm), .caller c .build, .caller c .deleteRows, .caller c .createRows]

end Clb
