/-
# Derived.PoolDedup -- the filter of the resize queue

The queue, the filter and the threads at work on them are a `DedupQueue`: each step of the pool is a
step of that queue or leaves it alone (`step_dedup`). So the filter holds the keys of the events that
are queued or at work, and no two of those events have one key, in every run whose steps are
`Disciplined` (`filter_exact`): no request tests a key while another one is between its own test and its
own add, no worker removes a key that is still to be added, no fault ends a worker.

`key_left_behind` is a run with one request and one worker in which the worker is through with the event
before the request adds the key: the key stays, and no event with it is ever queued again. -/
import Clb.Derived.Alone
import Clb.Lib.DedupQueue
import Mathlib.Data.Fintype.Basic

set_option autoImplicit false
set_option linter.unusedSectionVars false

namespace Clb

open Clb.Lib Clb.Dao ImageFacade

variable {e : ResizeEvent}

def ResizeEvent.key (e : ResizeEvent) : Text := e.item.getUniqueKey

/-- The `addEvent` call that a caller is in, past its test. -/
@[simp] def Caller.producer : Caller → Producer ResizeEvent
  | .tested sp item _ => .tested ⟨sp, item⟩
  | .queued sp item _ => .queued ⟨sp, item⟩
  | _ => .idle

theorem Caller.Unloaded.producer {caller : Caller} (unloaded : caller.Unloaded) :
    caller.producer = .idle := by
  cases caller with
  | idle | counted dv items => rfl
  | _ => exact unloaded.elim

/-- The item that a caller is to test. -/
@[simp] def Caller.next : Caller → Option ImageItem
  | .adding _ (item :: _) => some item
  | _ => none

@[simp] def CallerStep.isTest : CallerStep → Bool
  | .test => true
  | _ => false

/-- An event is a worker's from its `take` until its key is removed. -/
@[simp] def Worker.consumer : Worker → Consumer ResizeEvent
  | .idle => .idle
  | .taken e | .started e | .resized e _ | .stored e _ | .updated e => .working e
  | .ended e => .done e
  | .dead => .dead

theorem Worker.consumer_of_handled {worker : Worker}
    (handles : worker.handled = some e) : worker.consumer = .working e := by
  cases worker with
  | idle | ended _ | dead => cases handles
  | taken _ | started _ | resized _ _ | stored _ _ | updated _ =>
    obtain rfl := Option.some.inj handles
    rfl

@[simp] def Worker.finished : Worker → Option ResizeEvent
  | .ended e => some e
  | _ => none

@[simp] def Worker.alive : Worker → Bool
  | .dead => false
  | _ => true

namespace Pool

variable {C W : Type}

/-- The queue with its filter, and where the threads stand with it. -/
def dedup (s : Pool C W) : DedupQueue ResizeEvent Text C W where
  queue := s.server.queue
  keys := s.server.filterSet
  producers := fun c => (s.callers c).producer
  consumers := fun w => (s.workers w).consumer

/-- Where no `addEvent` call is in progress the filter has the keys of the events that are queued or at
work; no two such events have one key. -/
structure FilterExact (s : Pool C W) : Prop where
  listed : (∀ c, (s.callers c).producer = .idle) →
    ∀ k, k ∈ s.server.filterSet ↔ s.dedup.Active ResizeEvent.key k
  distinct : DedupQueue.Distinct ResizeEvent.key s.server.queue fun w => (s.workers w).consumer

variable [DecidableEq C] [DecidableEq W]

/-- No other `addEvent` call is in progress with the key that a caller is to test. -/
def TestsAlone (s : Pool C W) (c : C) : Prop :=
  ∀ item ∈ (s.callers c).next, ∀ c', ∀ e ∈ (s.callers c').producer.event, e.key ≠ item.getUniqueKey

/-- The key that a worker is to remove has been added. -/
def RemovesAdded (s : Pool C W) (w : W) : Prop :=
  ∀ e ∈ (s.workers w).finished, ∀ c, ∀ e' ∈ (s.callers c).producer.event, e'.key ≠ e.key

instance [Fintype C] (s : Pool C W) (c : C) : Decidable (s.TestsAlone c) :=
  inferInstanceAs (Decidable (∀ item ∈ (s.callers c).next, ∀ c', ∀ e ∈ (s.callers c').producer.event,
    e.key ≠ item.getUniqueKey))

instance [Fintype C] (s : Pool C W) (w : W) : Decidable (s.RemovesAdded w) :=
  inferInstanceAs (Decidable (∀ e ∈ (s.workers w).finished, ∀ c, ∀ e' ∈ (s.callers c).producer.event,
    e'.key ≠ e.key))

/-- The steps of the pool that keep the filter exact. -/
def Disciplined (s : Pool C W) (measure : ObjectId → ImageSize) (label : PoolLabel C W) : Prop :=
  match label with
  | .caller c act => act.isTest → s.TestsAlone c
  | .worker w act => (act = .remove → s.RemovesAdded w) ∧
      ((s.workers w).alive → ((s.workerStep measure w act).workers w).alive)
  | _ => True

instance [Fintype C] (s : Pool C W) (measure : ObjectId → ImageSize) (label : PoolLabel C W) :
    Decidable (s.Disciplined measure label) :=
  match label with
  | .caller c act => inferInstanceAs (Decidable (act.isTest → s.TestsAlone c))
  | .worker w act => inferInstanceAs (Decidable ((act = .remove → s.RemovesAdded w) ∧
      ((s.workers w).alive → ((s.workerStep measure w act).workers w).alive)))
  | .cleaner _ | .lookup _ _ | .tick _ => .isTrue trivial

variable {s : Pool C W} {measure : ObjectId → ImageSize} {c : C} {w : W}

/-! ## The pool as a queue -/

theorem dedup_stand (caller : Caller) :
    (s.stand c caller).dedup =
      { s.dedup with producers := Function.update s.dedup.producers c caller.producer } := by
  have moved := Function.comp_update Caller.producer s.callers c caller
  exact congrArg (fun producers => { s.dedup with producers }) moved

theorem dedup_move (worker : Worker) :
    (s.move w worker).dedup =
      { s.dedup with consumers := Function.update s.dedup.consumers w worker.consumer } := by
  have moved := Function.comp_update Worker.consumer s.workers w worker
  exact congrArg (fun consumers => { s.dedup with consumers }) moved

/-- A caller that goes on outside `addEvent`. -/
theorem dedup_stand_same {caller : Caller} (same : caller.producer = (s.callers c).producer) :
    (s.stand c caller).dedup = s.dedup := by
  rw [dedup_stand, same]
  exact congrArg (fun producers => { s.dedup with producers })
    (Function.update_eq_self c s.dedup.producers)

/-- A worker that goes on with its event. -/
theorem dedup_move_same {worker : Worker} (same : worker.consumer = (s.workers w).consumer) :
    (s.move w worker).dedup = s.dedup := by
  rw [dedup_move, same]
  exact congrArg (fun consumers => { s.dedup with consumers })
    (Function.update_eq_self w s.dedup.consumers)

theorem dedup_saveTempFile (key : ObjectId) (ins : InputStream) :
    (s.saveTempFile key ins).2.dedup = s.dedup := by
  obtain ⟨cache, jobs, cleaner, same, -⟩ := s.saveTempFile_eq key ins
  rw [same]
  rfl

theorem callers_saveTempFile (key : ObjectId) (ins : InputStream) :
    (s.saveTempFile key ins).2.callers = s.callers := by
  obtain ⟨cache, jobs, cleaner, same, -⟩ := s.saveTempFile_eq key ins
  rw [same]

theorem dedup_rowsOnly {server : Server} (changed : RowsOnly s.server server) :
    (s.onServer server).dedup = s.dedup := by
  obtain ⟨table, rfl⟩ := changed
  rfl

/-- What a step of the pool is for the queue. -/
def StepsAs (s s' : Pool C W) (disciplined : Prop) : Prop :=
  s'.dedup = s.dedup ∨ ∃ label, s'.dedup = DedupQueue.step ResizeEvent.key label s.dedup ∧
    (disciplined → DedupQueue.Disciplined ResizeEvent.key label s.dedup)

/-- **A step of a request is a step of a producer or none.** -/
theorem CallerEffect.dedup {act : CallerStep} {s' : Pool C W} (effect : CallerEffect c s act s') :
    StepsAs s s' (act.isTest → s.TestsAlone c) := by
  cases effect with
  | stutter => exact .inl rfl
  | query dv items next stands ends =>
    refine .inl ((dedup_stand_same ?_).trans
      (dedup_rowsOnly (updateRetryCounts_rowsOnly _ s.server)))
    rcases ends with rfl | rfl
    · exact (congrArg Caller.producer stands).symm
    · exact (congrArg Caller.producer stands).symm
  | absent act stands => exact .inl (dedup_stand_same (Caller.Unloaded.producer stands).symm)
  | miss act key ins stands =>
    refine .inl ((dedup_stand_same ?_).trans (dedup_saveTempFile key ins))
    rw [callers_saveTempFile]
    exact (Caller.Unloaded.producer stands).symm
  | reload dv items key ins stands stored =>
    refine .inl ((dedup_stand_same ?_).trans (dedup_saveTempFile key ins))
    rw [callers_saveTempFile, stands]
    rfl
  | load dv pm key ins stands member stored =>
    refine .inl ((dedup_stand_same ?_).trans (dedup_saveTempFile key ins))
    rw [callers_saveTempFile, stands]
    rfl
  | build dv pm sp jobs t stands lends minted sized =>
    exact .inl (dedup_stand_same (congrArg Caller.producer stands).symm)
  | deleteRows dv sp jobs stands =>
    exact .inl (dedup_stand_same (congrArg Caller.producer stands).symm)
  | createRows sp items inserted next stands first ends =>
    refine .inl (dedup_stand_same ?_)
    rcases ends with rfl | rfl
    · exact (congrArg Caller.producer stands).symm
    · exact (congrArg Caller.producer stands).symm
  | skip sp item rest stands present =>
    exact .inl (dedup_stand_same (congrArg Caller.producer stands).symm)
  | finish sp stands => exact .inl (dedup_stand_same (congrArg Caller.producer stands).symm)
  | test sp item rest stands absent =>
    have idle : s.dedup.producers c = .idle := congrArg Caller.producer stands
    refine .inr ⟨.test c ⟨sp, item⟩, ?_, fun alone c' e holds => ?_⟩
    · rw [dedup_stand]
      simp only [DedupQueue.step, idle]
      exact (if_neg absent).symm
    · exact alone rfl item (by rw [stands]; rfl) c' e holds
  | enqueue sp item rest stands =>
    have tested : s.dedup.producers c = .tested ⟨sp, item⟩ := congrArg Caller.producer stands
    refine .inr ⟨.enqueue c, ?_, fun _ => trivial⟩
    rw [dedup_stand]
    simp only [DedupQueue.step, tested]
    rfl
  | record sp item rest stands =>
    have queued : s.dedup.producers c = .queued ⟨sp, item⟩ := congrArg Caller.producer stands
    refine .inr ⟨.record c, ?_, fun _ => trivial⟩
    rw [dedup_stand]
    simp only [DedupQueue.step, queued]
    rfl

/-- A worker that is through with its event, or that a fault ends. -/
theorem stepsAs_move {s₀ : Pool C W} {next : Worker} {disciplined : Prop}
    (working : (s.workers w).consumer = .working e) (same : s₀.dedup = s.dedup)
    (ends : next = .ended e ∨ (next = .dead ∧ ¬ disciplined)) :
    StepsAs s (s₀.move w next) disciplined := by
  have working' : s.dedup.consumers w = .working e := working
  rcases ends with rfl | ⟨rfl, undisciplined⟩
  · refine .inr ⟨.finish w, ?_, fun _ => trivial⟩
    rw [dedup_move, same]
    simp only [DedupQueue.step, working']
    rfl
  · refine .inr ⟨.crash w, ?_, fun disciplined => absurd disciplined undisciplined⟩
    rw [dedup_move, same]
    simp only [DedupQueue.step, working']
    rfl

theorem not_survives {s₀ : Pool C W} (working : (s.workers w).consumer = .working e)
    (survives : (s.workers w).alive → ((s₀.move w .dead).workers w).alive) : False := by
  have alive : (s.workers w).alive := by
    cases stands : s.workers w with
    | dead =>
      rw [stands] at working
      cases working
    | _ => rfl
  have gone : (s₀.move w .dead).workers w = .dead := Function.update_self ..
  rw [gone] at survives
  cases survives alive

/-- **A step of a worker is a step of a consumer or none.** -/
theorem WorkerEffect.dedup {act : WorkerStep} {s' : Pool C W}
    (effect : WorkerEffect measure w s act s') :
    StepsAs s s'
      ((act = .remove → s.RemovesAdded w) ∧ ((s.workers w).alive → (s'.workers w).alive)) := by
  cases effect with
  | stutter => exact .inl rfl
  | take e rest stands first =>
    have idle : s.dedup.consumers w = .idle := congrArg Worker.consumer stands
    have head : s.dedup.queue = e :: rest := first
    refine .inr ⟨.take w, ?_, fun _ => trivial⟩
    rw [dedup_move]
    simp only [DedupQueue.step, idle, head]
    rfl
  | start e stands => exact .inl (dedup_move_same (congrArg Worker.consumer stands).symm)
  | missing e stands => exact stepsAs_move (congrArg Worker.consumer stands) rfl (.inl rfl)
  | resize e length stands => exact .inl (dedup_move_same (congrArg Worker.consumer stands).symm)
  | refuse e length next stands ends =>
    have working : (s.workers w).consumer = .working e := congrArg Worker.consumer stands
    refine stepsAs_move working (dedup_rowsOnly updateImageItems_rowsOnly) (ends.imp_right ?_)
    rintro rfl
    exact ⟨rfl, fun disciplined => not_survives working disciplined.2⟩
  | store e p picture key stands copy named =>
    exact .inl (dedup_move_same (congrArg Worker.consumer stands).symm)
  | lost e p stands copy => exact .inl (dedup_move_same (congrArg Worker.consumer stands).symm)
  | update e p picture next stands copy ends =>
    have working : (s.workers w).consumer = .working e := congrArg Worker.consumer stands
    have changed : RowsOnly s.server (updateImageItems e.item.storageKey picture.length p.width
      p.height .READY s.server).2 := updateImageItems_rowsOnly
    have same := dedup_rowsOnly changed
    rcases ends with rfl | rfl
    · refine .inl ((dedup_move_same ?_).trans same)
      exact working.symm
    · exact stepsAs_move working same
        (.inr ⟨rfl, fun disciplined => not_survives working disciplined.2⟩)
  | unchanged e p stands => exact .inl (dedup_move_same (congrArg Worker.consumer stands).symm)
  | schedule e stands => exact stepsAs_move (congrArg Worker.consumer stands) rfl (.inl rfl)
  | remove e stands =>
    have done : s.dedup.consumers w = .done e := congrArg Worker.consumer stands
    have removed : (s.server.filterSet.filter fun key => key != e.item.getUniqueKey) =
        s.server.filterSet.filter fun k => decide (k ≠ e.key) :=
      List.filter_congr fun k _ => Bool.eq_iff_iff.mpr (bne_iff_ne.trans decide_eq_true_iff.symm)
    refine .inr ⟨.remove w, ?_, fun disciplined e' stands' c e'' queued => ?_⟩
    · rw [removed, dedup_move]
      simp only [DedupQueue.step, done]
      rfl
    · obtain rfl : e = e' := Consumer.done.inj (done.symm.trans stands')
      have producing : (s.callers c).producer = .queued e'' := queued
      exact disciplined.1 rfl e (by rw [stands]; rfl) c e'' (by rw [producing]; rfl)
  | crash act e stands =>
    have working := Worker.consumer_of_handled stands
    exact stepsAs_move working rfl (.inr ⟨rfl, fun disciplined => not_survives working disciplined.2⟩)

/-- **A step of the pool is a step of the queue or none**, and a disciplined one of a disciplined one. -/
theorem step_dedup (label : PoolLabel C W) :
    StepsAs s (step measure label s) (s.Disciplined measure label) := by
  cases label with
  | caller c act => exact (callerStep_effect c act).dedup
  | worker w act => exact (workerStep_effect w act).dedup
  | cleaner act =>
    refine .inl ?_
    change (s.cleanerStep act).dedup = s.dedup
    obtain ⟨_, _, same⟩ | ⟨_, _, same⟩ | ⟨_, _, same⟩ := s.cleanerStep_effect act <;> rw [same] <;> rfl
  | lookup key ins => exact .inl (dedup_saveTempFile key ins)
  | tick duration => exact .inl rfl

/-! ## The filter over runs -/

theorem exact_of_reaches {server : Server} (reached : Reaches (step measure) (fun label s =>
    s.Disciplined measure label) (start server) s) : s.dedup.Exact ResizeEvent.key := by
  refine @Reaches.invariant _ _ _ _ _ _ (fun s => s.dedup.Exact ResizeEvent.key) reached ?_
    fun label s disciplined exact_ => ?_
  · exact DedupQueue.Exact.empty
  · rcases @step_dedup C W _ _ s measure label with same | ⟨label', steps, given⟩
    · rw [same]
      exact exact_
    · rw [steps]
      exact exact_.step (given disciplined)

end Pool

/-- **The filter is exact in every disciplined run** of any number of requests and workers. -/
theorem filter_exact {C W : Type} [DecidableEq C] [DecidableEq W] {measure : ObjectId → ImageSize}
    {server : Server} {s : Pool C W} (reached : Reaches (Pool.step measure)
      (fun label s => s.Disciplined measure label) (Pool.start server) s) : s.FilterExact where
  listed := fun quiet => (Pool.exact_of_reaches reached).mem_keys_iff quiet
  distinct := (Pool.exact_of_reaches reached).distinct

section Runs

/-- One request and one worker, with nothing between the request's steps of `addEvent`. -/
def handledOnce : List (PoolLabel Bool Bool) :=
  requestLabels true (smallCopy 10) ++ Pool.addLabels true ++
    .worker true .take :: Pool.handleLabels true 5 ++ [.worker true .remove]

theorem filter_exact_handled :
    (run (Pool.step upright) handledOnce (Pool.start imageServer)).FilterExact :=
  filter_exact (Reaches.append .refl (by decide +kernel))

/-- The worker is through with the event before the request adds its key. -/
def lateKey : List (PoolLabel Bool Bool) :=
  requestLabels true (smallCopy 10) ++ [.caller true .test, .caller true .enqueue] ++
    .worker true .take :: Pool.handleLabels true 5 ++ [.worker true .remove, .caller true .record]

/-- Two requests for the same copy make their tests one after the other. -/
def bothTest : List (PoolLabel Bool Bool) :=
  requestLabels true (smallCopy 10) ++ requestLabels false (smallCopy 10) ++
    [.caller true .test, .caller false .test, .caller true .enqueue, .caller false .enqueue,
      .caller true .record, .caller false .record]

/-- A fault ends the worker. -/
def workerLost : List (PoolLabel Bool Bool) :=
  requestLabels true (smallCopy 10) ++ Pool.addLabels true ++
    [.worker true .take, .worker true .start, .worker true .crash]

/-- The pool after one of these runs, with no `addEvent` call in progress. -/
def Inexact (labels : List (PoolLabel Bool Bool)) : Prop :=
  let s := run (Pool.step upright) labels (Pool.start imageServer)
  Reaches (Pool.step upright) (fun _ _ => True) (Pool.start imageServer) s ∧
    (∀ c, (s.callers c).producer = .idle) ∧ ¬ s.FilterExact

/-- A key in the filter that no event has. -/
theorem inexact_of_listed {labels : List (PoolLabel Bool Bool)} {k : Text}
    (quiet : ∀ c, ((run (Pool.step upright) labels (Pool.start imageServer)).callers c).producer = .idle)
    (listed : k ∈ (run (Pool.step upright) labels (Pool.start imageServer)).server.filterSet)
    (drained : (run (Pool.step upright) labels (Pool.start imageServer)).server.queue = [])
    (unheld : ∀ w,
      ((run (Pool.step upright) labels (Pool.start imageServer)).workers w).consumer.event = none) :
    Inexact labels := by
  refine ⟨Reaches.append .refl (admits_always _ _), quiet, fun exact_ => ?_⟩
  rcases (exact_.listed quiet k).mp listed with ⟨e, member, -⟩ | ⟨w, e, held, -⟩
  · change e ∈ (run (Pool.step upright) labels (Pool.start imageServer)).server.queue at member
    rw [drained] at member
    cases member
  · exact nomatch (unheld w).symm.trans held

/-- The key of an event that is done stays in the filter, two events with one key are queued at a time,
and the key of an event whose worker is lost stays in the filter. -/
theorem key_left_behind : Inexact lateKey ∧ Inexact bothTest ∧ Inexact workerLost := by
  refine ⟨?_, ⟨Reaches.append .refl (admits_always _ _), ?_, fun exact_ => ?_⟩, ?_⟩
  · exact @inexact_of_listed lateKey "1.1.1.small.10x0".toList (by decide +kernel) (by decide +kernel)
      (by decide +kernel) (by decide +kernel)
  · decide +kernel
  · exact absurd exact_.distinct.nodup (by decide +kernel)
  · exact @inexact_of_listed workerLost "1.1.1.small.10x0".toList (by decide +kernel)
      (by decide +kernel) (by decide +kernel) (by decide +kernel)

end Runs

end Clb
