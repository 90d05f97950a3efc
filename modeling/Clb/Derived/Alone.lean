/-
# Derived.Alone -- a thread of the pool that no other one comes between

What the steps of a thread do to the server, one after the other, is what `ImageFacade` does in one
call: `addEvents_steps` for a request that adds its events, `runWorker_steps` for a worker and the first
event of the queue. -/
import Clb.Derived.Pool

set_option autoImplicit false
set_option linter.unusedSectionVars false

namespace Clb

open Clb.Lib ImageFacade

namespace Pool

variable {C W : Type} [DecidableEq C] [DecidableEq W] {s : Pool C W} {measure : ObjectId → ImageSize}
  {c : C} {w : W} {sp : ObjectId}

@[simp] theorem callers_stand (caller : Caller) : (s.stand c caller).callers c = caller :=
  Function.update_self ..

@[simp] theorem workers_move (worker : Worker) : (s.move w worker).workers w = worker :=
  Function.update_self ..

@[simp] theorem server_stand (caller : Caller) : (s.stand c caller).server = s.server := rfl

@[simp] theorem server_move (worker : Worker) : (s.move w worker).server = s.server := rfl

@[simp] theorem copies_move (worker : Worker) : (s.move w worker).copies = s.copies := rfl

/-- The steps of `addEvent`. -/
def addLabels (c : C) : List (PoolLabel C W) :=
  [.caller c .test, .caller c .enqueue, .caller c .record]

/-- **`addEvent`**, where nobody comes between its steps. -/
theorem addEvent_steps {item : ImageItem} {rest : List ImageItem}
    (stands : s.callers c = .adding sp (item :: rest)) :
    run (step measure) (addLabels c) s =
      (s.onServer (addEvent sp item s.server).2).stand c (.adding sp rest) := by
  cases present : s.server.filterSet.contains item.getUniqueKey with
  | true =>
    have skipped : s.callerStep c .test = s.stand c (.adding sp rest) := by
      simp only [callerStep, stands, present, if_true]
    have unchanged : (addEvent sp item s.server).2 = s.server := by
      change (if s.server.filterSet.contains item.getUniqueKey then s.server else _) = s.server
      rw [if_pos present]
    change ((s.callerStep c .test).callerStep c .enqueue).callerStep c .record = _
    rw [skipped, unchanged]
    simp only [callerStep, callers_stand]
    rfl
  | false =>
    have passed : s.callerStep c .test = s.stand c (.tested sp item rest) := by
      simp only [callerStep, stands, present, Bool.false_eq_true, if_false]
    have added : (addEvent sp item s.server).2 =
        { s.server with
          queue := s.server.queue ++ [⟨sp, item⟩]
          filterSet := s.server.filterSet ++ [item.getUniqueKey] } := by
      change (if s.server.filterSet.contains item.getUniqueKey then s.server else _) = _
      rw [present]
      rfl
    change ((s.callerStep c .test).callerStep c .enqueue).callerStep c .record = _
    rw [passed, added]
    simp only [callerStep, callers_stand, server_stand]
    simp only [stand, onServer, Function.update_idem]

/-- **`addEvents`**, one event after the other. -/
theorem addEvents_steps (items : List ImageItem) :
    ∀ s : Pool C W, s.callers c = .adding sp items →
      run (step measure) (items.flatMap fun _ => addLabels c) s =
        (s.onServer (addEvents sp items s.server).2).stand c (.adding sp []) := by
  induction items with
  | nil =>
    intro s stands
    change s = s.stand c (.adding sp [])
    unfold stand
    rw [← stands, Function.update_eq_self]
  | cons item rest ih =>
    intro s stands
    have first := @addEvent_steps C W _ _ s measure c sp item rest stands
    have later := ih ((s.onServer (addEvent sp item s.server).2).stand c (.adding sp rest))
      (callers_stand _)
    change run (step measure) (addLabels c ++ rest.flatMap fun _ => addLabels c) s = _
    unfold run at first later ⊢
    rw [List.foldl_append, first, later]
    simp only [stand, onServer, Function.update_idem]
    rfl

/-- What `updateRows` does where no fault is raised. -/
theorem updateRows_ok {e : ResizeEvent} {length : Int} {p : SizePair} {status : CLBStatus}
    {next : Worker} {server : Server}
    (updated : updateImageItems e.item.storageKey length p.width p.height status s.server =
      (.ok (), server)) :
    s.updateRows w e length p status next = (s.onServer server).move w next := by
  unfold updateRows
  rw [updated]

variable {e : ResizeEvent} {p : SizePair} {picture : Picture} {key : ObjectId}

theorem resize_step {length : Int} {bytes : Bytes}
    (present : s.server.store.cache.tempFile e.source = some bytes) :
    (s.move w (.started e)).workerStep measure w (.resize (some length)) =
      ((s.move w (.started e)).writeCopy e.slot (some ⟨e.source, e.target measure, length⟩)).move w
        (.resized e (e.target measure)) := by
  simp only [workerStep, workers_move, server_move, present]

theorem store_step {filename : Text} (copy : s.copies e.slot = some picture)
    (named : e.item.filename = some filename) (keyed : e.item.storageKey = some key) :
    (s.move w (.resized e p)).workerStep measure w .store =
      ((s.move w (.resized e p)).writeImage key picture).move w (.stored e p) := by
  simp only [workerStep, workers_move, copies_move, copy, named, keyed]

theorem update_step {server : Server} (copy : s.copies e.slot = some picture)
    (filled : picture.length ≠ 0)
    (updated : updateImageItems e.item.storageKey picture.length p.width p.height .READY s.server =
      (.ok (), server)) :
    (s.move w (.stored e p)).workerStep measure w .update =
      ((s.move w (.stored e p)).onServer server).move w (.updated e) := by
  have done := @updateRows_ok C W _ _ (s.move w (.stored e p)) w e picture.length p .READY (.updated e)
    server updated
  simp only [workerStep, workers_move, copies_move, copy, if_pos filled, done]

theorem unchanged_step (copy : s.copies e.slot = some picture) (empty : picture.length = 0) :
    (s.move w (.stored e p)).workerStep measure w .update =
      (s.move w (.stored e p)).move w (.updated e) := by
  simp only [workerStep, workers_move, copies_move, copy, empty, ne_eq, not_true_eq_false, if_false]

theorem schedule_step :
    (s.move w (.updated e)).workerStep measure w .schedule =
      (((s.move w (.updated e)).addNewJob (.original e.source)).addNewJob (.resized e.slot)).move w
        (.ended e) := by
  simp only [workerStep, workers_move]

theorem remove_step (stands : s.workers w = .ended e) :
    (s.workerStep measure w .remove).server =
      { s.server with filterSet := s.server.filterSet.filter (· != e.item.getUniqueKey) } := by
  simp only [workerStep, stands]
  rfl

/-- What a worker does after it has taken its event. -/
def handleLabels (w : W) (length : Int) : List (PoolLabel C W) :=
  [.worker w .start, .worker w (.resize (some length)), .worker w .store, .worker w .update,
    .worker w .schedule]

/-- `resizeImageHandler`, where nobody comes between its steps and no fault ends it. -/
theorem resizeImageHandler_steps {e : ResizeEvent} {length : Int} {server : Server}
    (taken : s.workers w = .taken e)
    (done : resizeImageHandler e (.resized length (e.target measure).width (e.target measure).height)
      s.server = (.ok (), server)) :
    (run (step measure) (handleLabels w length) s).server = server ∧
      (run (step measure) (handleLabels w length) s).workers w = .ended e := by
  change ((((((s.workerStep measure w .start).workerStep measure w (.resize (some length))).workerStep
    measure w .store).workerStep measure w .update).workerStep measure w .schedule).server = server ∧
    (((((s.workerStep measure w .start).workerStep measure w (.resize (some length))).workerStep
    measure w .store).workerStep measure w .update).workerStep measure w .schedule).workers w = .ended e)
  unfold resizeImageHandler at done
  rw [Action.read_bind] at done
  cases present : s.server.store.cache.tempFile e.source with
  | none =>
    have missing : s.workerStep measure w .start = s.move w (.ended e) := by
      simp only [workerStep, taken, present, Option.isSome_none, Bool.false_eq_true, if_false]
    rw [present] at done
    rw [missing]
    simp only [workerStep, workers_move]
    exact ⟨congrArg Prod.snd done, trivial⟩
  | some bytes =>
    rw [present] at done
    simp only [Option.isNone_some, Bool.false_eq_true, if_false] at done
    have started : s.workerStep measure w .start =
        (s.removeJob (.original e.source)).move w (.started e) := by
      simp only [workerStep, taken, present, Option.isSome_some, if_true]
    obtain ⟨filename, named⟩ : ∃ filename, e.item.filename = some filename := by
      cases named : e.item.filename with
      | none =>
        rw [named, Action.require_none_bind] at done
        cases done
      | some filename => exact ⟨filename, rfl⟩
    obtain ⟨key, keyed⟩ : ∃ key, e.item.storageKey = some key := by
      cases keyed : e.item.storageKey with
      | none =>
        rw [named, keyed, Action.require_some_bind, Action.require_none_bind] at done
        cases done
      | some key => exact ⟨key, rfl⟩
    rw [named, keyed, Action.require_some_bind, Action.require_some_bind, Action.write_bind] at done
    let picture : Picture := ⟨e.source, e.target measure, length⟩
    let waiting := (s.removeJob (.original e.source)).move w (.started e)
    let onSlot := waiting.writeCopy e.slot (some picture)
    have copied : onSlot.copies e.slot = some picture := Function.update_self ..
    have resized : waiting.workerStep measure w (.resize (some length)) = _ := resize_step present
    have stored : (onSlot.move w (.resized e picture.size)).workerStep measure w .store = _ :=
      store_step copied named keyed
    let written := (onSlot.move w (.resized e picture.size)).writeImage key picture
    have kept : written.copies e.slot = some picture := copied
    rw [started, resized, stored]
    by_cases empty : length = 0
    · rw [if_neg (not_not.mpr empty)] at done
      rw [unchanged_step kept empty, schedule_step]
      exact ⟨congrArg Prod.snd done, workers_move _⟩
    · rw [if_pos empty, ← keyed] at done
      rw [update_step kept empty done, schedule_step]
      exact ⟨rfl, workers_move _⟩

/-- **`runWorker`** on the first event of the queue, where nobody comes between the steps and no fault
ends it. -/
theorem runWorker_steps {e : ResizeEvent} {rest : List ResizeEvent} {length : Int} {server : Server}
    (idle : s.workers w = .idle) (first : s.server.queue = e :: rest)
    (done : runWorker e (.resized length (e.target measure).width (e.target measure).height) s.server =
      (.ok (), server)) :
    (run (step measure) (.worker w .take :: handleLabels w length ++ [.worker w .remove]) s).server =
      server := by
  have taken : s.workerStep measure w .take =
      (s.onServer { s.server with queue := rest }).move w (.taken e) := by
    simp only [workerStep, idle, first]
  have erased : s.server.queue.erase e = rest := by
    rw [first, List.erase_cons_head]
  unfold runWorker at done
  rw [Action.write_bind, erased] at done
  rcases handled : resizeImageHandler e (.resized length (e.target measure).width
    (e.target measure).height) { s.server with queue := rest } with ⟨fault | _, server'⟩
  · rw [Action.bind_error handled] at done
    cases done
  · rw [Action.bind_ok handled] at done
    obtain ⟨same, ended⟩ := @resizeImageHandler_steps C W _ _
      ((s.onServer { s.server with queue := rest }).move w (.taken e)) measure w e length server'
      (workers_move _) handled
    have split : run (step measure) (.worker w .take :: handleLabels w length ++ [.worker w .remove]) s =
        (run (step measure) (handleLabels w length) (s.workerStep measure w .take)).workerStep measure w
          .remove := by
      unfold run
      rw [List.cons_append, List.foldl_cons, List.foldl_append]
      rfl
    rw [split, taken, remove_step ended, same]
    exact congrArg Prod.snd done

end Pool

end Clb
