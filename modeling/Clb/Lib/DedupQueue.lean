/-
# Lib.DedupQueue -- a queue with a set of the keys in it

Producers test whether the key of an event is in the set, put the event into the queue and then add
its key; consumers take an event, work on it and then remove its key. Each of these is a step of its
own, and the steps of any number of producers and consumers interleave.

The set is exact if it holds the keys of the events that are queued or worked on, and those keys are
pairwise different. `Exact` is the invariant that says so, with what it has to say about the producers
half way; `Exact.step` shows that a step keeps it if it is `Disciplined`: a producer does not test a
key that another one is about to add, a consumer does not remove a key that is still to be added, and
none gives up with its key left behind. -/
import Mathlib.Logic.Function.Basic
import Clb.Lib.Machine

set_option autoImplicit false
set_option linter.unusedSectionVars false

namespace Clb.Lib

/-- Where a producer stands: not at work, the test passed, or the event put into the queue. -/
inductive Producer (E : Type) where
  | idle
  | tested (e : E)
  | queued (e : E)
deriving DecidableEq

/-- Where a consumer stands: waiting, at work, done with its event, or gone. -/
inductive Consumer (E : Type) where
  | idle
  | working (e : E)
  | done (e : E)
  | dead
deriving DecidableEq

@[simp] def Producer.event {E : Type} : Producer E → Option E
  | .idle => none
  | .tested e | .queued e => some e

@[simp] def Consumer.event {E : Type} : Consumer E → Option E
  | .idle | .dead => none
  | .working e | .done e => some e

structure DedupQueue (E K C W : Type) where
  queue : List E
  keys : List K
  producers : C → Producer E
  consumers : W → Consumer E

namespace DedupQueue

inductive Label (E C W : Type) where
  | test (c : C) (e : E)
  | enqueue (c : C)
  | record (c : C)
  | take (w : W)
  | finish (w : W)
  | crash (w : W)
  | remove (w : W)

variable {E K C W : Type} [DecidableEq K] [DecidableEq C] [DecidableEq W]

def empty : DedupQueue E K C W := ⟨[], [], fun _ => .idle, fun _ => .idle⟩

section Steps

variable (key : E → K)

def step (label : Label E C W) (s : DedupQueue E K C W) : DedupQueue E K C W :=
  match label with
  | .test c e =>
    match s.producers c with
    | .idle =>
      if key e ∈ s.keys then
        s
      else
        { s with producers := Function.update s.producers c (.tested e) }
    | _ => s
  | .enqueue c =>
    match s.producers c with
    | .tested e =>
      { s with
        queue := s.queue ++ [e], producers := Function.update s.producers c (.queued e) }
    | _ => s
  | .record c =>
    match s.producers c with
    | .queued e =>
      { s with
        keys := s.keys ++ [key e], producers := Function.update s.producers c .idle }
    | _ => s
  | .take w =>
    match s.consumers w, s.queue with
    | .idle, e :: rest =>
      { s with queue := rest, consumers := Function.update s.consumers w (.working e) }
    | _, _ => s
  | .finish w =>
    match s.consumers w with
    | .working e => { s with consumers := Function.update s.consumers w (.done e) }
    | _ => s
  | .crash w =>
    match s.consumers w with
    | .working _ => { s with consumers := Function.update s.consumers w .dead }
    | _ => s
  | .remove w =>
    match s.consumers w with
    | .done e =>
      { s with
        keys := s.keys.filter fun k => decide (k ≠ key e)
        consumers := Function.update s.consumers w .idle }
    | _ => s

/-- An event with the key is queued or worked on. -/
def Active (s : DedupQueue E K C W) (k : K) : Prop :=
  (∃ e ∈ s.queue, key e = k) ∨ ∃ w e, (s.consumers w).event = some e ∧ key e = k

/-- No two events with one key are queued or worked on. -/
structure Distinct (queue : List E) (consumers : W → Consumer E) : Prop where
  nodup : (queue.map key).Nodup
  apart : ∀ w e, (consumers w).event = some e → ∀ e' ∈ queue, key e' ≠ key e
  single : ∀ w w' e e', (consumers w).event = some e → (consumers w').event = some e' →
    key e = key e' → w = w'

/-- A test is not made while another producer is about to add the key; a key is not removed while it
is still to be added; no consumer is lost with its event. -/
def Disciplined (label : Label E C W) (s : DedupQueue E K C W) : Prop :=
  match label with
  | .test _ e => ∀ c e', (s.producers c).event = some e' → key e' ≠ key e
  | .remove w => ∀ e, s.consumers w = .done e → ∀ c e', s.producers c = .queued e' → key e' ≠ key e
  | .crash w => ∀ e, s.consumers w ≠ .working e
  | _ => True

/-- The invariant: the active events have different keys; a key in the set is active and no producer is
at work on it; an active key is in the set or about to be added; a producer whose test passed has an
event that is not active yet; producers work on different keys. -/
structure Exact (s : DedupQueue E K C W) : Prop where
  distinct : Distinct key s.queue s.consumers
  listed : ∀ k ∈ s.keys, s.Active key k ∧ ∀ c e, (s.producers c).event = some e → key e ≠ k
  active : ∀ k, s.Active key k → k ∈ s.keys ∨ ∃ c e, s.producers c = .queued e ∧ key e = k
  tested : ∀ c e, s.producers c = .tested e → ¬ s.Active key (key e)
  queued : ∀ c e, s.producers c = .queued e → s.Active key (key e)
  alone : ∀ c c' e e', (s.producers c).event = some e → (s.producers c').event = some e' →
    key e = key e' → c = c'

end Steps

variable {key : E → K} {s : DedupQueue E K C W}

theorem Exact.empty : (empty : DedupQueue E K C W).Exact key where
  distinct := ⟨List.nodup_nil, nofun, nofun⟩
  listed := nofun
  active := by
    rintro k (⟨e, member, -⟩ | ⟨w, e, held, -⟩)
    · cases member
    · cases held
  tested := nofun
  queued := nofun
  alone := nofun

/-- **What the invariant is for**: where no producer is at work, the set is exact. -/
theorem Exact.mem_keys_iff (exact_ : s.Exact key) (quiet : ∀ c, s.producers c = .idle) (k : K) :
    k ∈ s.keys ↔ s.Active key k := by
  refine ⟨fun member => (exact_.listed k member).1, fun active => ?_⟩
  rcases exact_.active k active with member | ⟨c, e, stands, -⟩
  · exact member
  · rw [quiet c] at stands
    cases stands

/-! ## One step -/

/-- After one of a family has moved: that one, or another one where it stood. -/
theorem update_cases {I P : Type} [DecidableEq I] {f : I → P} {i j : I} {p q : P}
    (stands : Function.update f i p j = q) : (j = i ∧ p = q) ∨ (j ≠ i ∧ f j = q) := by
  by_cases same : j = i
  · subst same
    rw [Function.update_self] at stands
    exact .inl ⟨rfl, stands⟩
  · rw [Function.update_of_ne same] at stands
    exact .inr ⟨same, stands⟩

/-- One that stands where the moved one did not stand has stayed there. -/
theorem update_keeps {I P : Type} [DecidableEq I] {f : I → P} {i j : I} {p q : P} (here : f i ≠ q)
    (stands : f j = q) : Function.update f i p j = q := by
  rw [Function.update_of_ne, stands]
  rintro rfl
  exact here stands

theorem update_event_cases {I P : Type} [DecidableEq I] {f : I → P} {event : P → Option E} {i j : I}
    {p : P} {e : E} (holds : event (Function.update f i p j) = some e) :
    (j = i ∧ event p = some e) ∨ (j ≠ i ∧ event (f j) = some e) := by
  rcases update_cases (rfl : Function.update f i p j = _) with ⟨same, here⟩ | ⟨other, there⟩
  · exact .inl ⟨same, here ▸ holds⟩
  · exact .inr ⟨other, there ▸ holds⟩

namespace Exact

variable {c : C} {w : W} {e : E}

theorem test (exact_ : s.Exact key) (idle : s.producers c = .idle) (absent : key e ∉ s.keys)
    (free : ∀ c e', (s.producers c).event = some e' → key e' ≠ key e) :
    Exact key { s with producers := Function.update s.producers c (.tested e) } where
  distinct := exact_.distinct
  listed := by
    intro k member
    refine ⟨(exact_.listed k member).1, fun c' e' holds => ?_⟩
    rcases update_event_cases holds with ⟨rfl, here⟩ | ⟨-, there⟩
    · obtain rfl := Option.some.inj here
      rintro rfl
      exact absent member
    · exact (exact_.listed k member).2 c' e' there
  active := by
    intro k active
    refine (exact_.active k active).imp_right ?_
    rintro ⟨c', e', stands, same⟩
    exact ⟨c', e', update_keeps (by rw [idle]; nofun) stands, same⟩
  tested := by
    intro c' e' stands
    rcases update_cases stands with ⟨rfl, here⟩ | ⟨-, there⟩
    · obtain rfl := Producer.tested.inj here
      intro active
      rcases exact_.active _ active with member | ⟨c', e', stands', same⟩
      · exact absent member
      · exact free c' e' (by rw [stands']; rfl) same
    · exact exact_.tested c' e' there
  queued := by
    intro c' e' stands
    rcases update_cases stands with ⟨-, here⟩ | ⟨-, there⟩
    · cases here
    · exact exact_.queued c' e' there
  alone := by
    intro c₁ c₂ e₁ e₂ holds₁ holds₂ same
    rcases update_event_cases holds₁ with ⟨rfl, here₁⟩ | ⟨-, there₁⟩ <;>
      rcases update_event_cases holds₂ with ⟨rfl, here₂⟩ | ⟨-, there₂⟩
    · rfl
    · obtain rfl := Option.some.inj here₁
      exact absurd same.symm (free c₂ e₂ there₂)
    · obtain rfl := Option.some.inj here₂
      exact absurd same (free c₁ e₁ there₁)
    · exact exact_.alone c₁ c₂ e₁ e₂ there₁ there₂ same

theorem active_append {k : K} {producers : C → Producer E} :
    Active key { s with queue := s.queue ++ [e], producers } k ↔ s.Active key k ∨ key e = k := by
  unfold Active
  simp only [List.mem_append, List.mem_singleton]
  constructor
  · rintro (⟨e', member | rfl, same⟩ | held)
    · exact .inl (.inl ⟨e', member, same⟩)
    · exact .inr same
    · exact .inl (.inr held)
  · rintro ((⟨e', member, same⟩ | held) | same)
    · exact .inl ⟨e', .inl member, same⟩
    · exact .inr held
    · exact .inl ⟨e, .inr rfl, same⟩

theorem enqueue (exact_ : s.Exact key) (tested : s.producers c = .tested e) :
    Exact key
      { s with queue := s.queue ++ [e], producers := Function.update s.producers c (.queued e) } := by
  have inactive := exact_.tested c e tested
  have mine : (s.producers c).event = some e := by rw [tested]; rfl
  -- the producers keep their events
  have events : ∀ c' e', ((Function.update s.producers c (.queued e)) c').event = some e' →
      (s.producers c').event = some e' := by
    intro c' e' holds
    rcases update_event_cases holds with ⟨rfl, here⟩ | ⟨-, there⟩
    · rw [tested]
      exact here
    · exact there
  refine ⟨⟨?_, ?_, exact_.distinct.single⟩, ?_, ?_, ?_, ?_, ?_⟩
  · rw [List.map_append, List.nodup_append]
    refine ⟨exact_.distinct.nodup, List.pairwise_singleton _ _, ?_⟩
    rintro k member k' last rfl
    obtain ⟨e', inside, same⟩ := List.mem_map.mp member
    obtain rfl := List.mem_singleton.mp last
    exact inactive (.inl ⟨e', inside, same⟩)
  · intro w e' held e'' member
    rcases List.mem_append.mp member with inside | last
    · exact exact_.distinct.apart w e' held e'' inside
    · obtain rfl := List.mem_singleton.mp last
      exact fun same => inactive (.inr ⟨w, e', held, same.symm⟩)
  · intro k member
    obtain ⟨active, others⟩ := exact_.listed k member
    exact ⟨active_append.mpr (.inl active), fun c' e' holds => others c' e' (events c' e' holds)⟩
  · intro k active
    rcases active_append.mp active with old | rfl
    · refine (exact_.active k old).imp_right ?_
      rintro ⟨c', e', stands, same⟩
      exact ⟨c', e', update_keeps (by rw [tested]; nofun) stands, same⟩
    · exact .inr ⟨c, e, Function.update_self .., rfl⟩
  · intro c' e' stands active
    rcases update_cases stands with ⟨-, here⟩ | ⟨other, there⟩
    · cases here
    · rcases active_append.mp active with old | same
      · exact exact_.tested c' e' there old
      · exact other (exact_.alone c' c e' e (by rw [there]; rfl) mine same.symm)
  · intro c' e' stands
    rcases update_cases stands with ⟨rfl, here⟩ | ⟨-, there⟩
    · obtain rfl := Producer.queued.inj here
      exact active_append.mpr (.inr rfl)
    · exact active_append.mpr (.inl (exact_.queued c' e' there))
  · intro c₁ c₂ e₁ e₂ holds₁ holds₂
    exact exact_.alone c₁ c₂ e₁ e₂ (events c₁ e₁ holds₁) (events c₂ e₂ holds₂)

theorem record (exact_ : s.Exact key) (queued : s.producers c = .queued e) :
    Exact key
      { s with keys := s.keys ++ [key e], producers := Function.update s.producers c .idle } := by
  have mine : (s.producers c).event = some e := by rw [queued]; rfl
  have others : ∀ c' e', ((Function.update s.producers c .idle) c').event = some e' →
      c' ≠ c ∧ (s.producers c').event = some e' := by
    intro c' e' holds
    rcases update_event_cases holds with ⟨-, here⟩ | there
    · cases here
    · exact there
  have stay : ∀ {c' p}, p ≠ .idle → Function.update s.producers c .idle c' = p → s.producers c' = p := by
    intro c' p busy stands
    rcases update_cases stands with ⟨-, here⟩ | ⟨-, there⟩
    · exact absurd here.symm busy
    · exact there
  refine ⟨exact_.distinct, ?_, ?_, ?_, ?_, ?_⟩
  · intro k member
    rcases List.mem_append.mp member with old | last
    · obtain ⟨active, free⟩ := exact_.listed k old
      exact ⟨active, fun c' e' holds => free c' e' (others c' e' holds).2⟩
    · obtain rfl := List.mem_singleton.mp last
      refine ⟨exact_.queued c e queued, fun c' e' holds same => ?_⟩
      obtain ⟨other, there⟩ := others c' e' holds
      exact other (exact_.alone c' c e' e there mine same)
  · intro k active
    rcases exact_.active k active with member | ⟨c', e', stands, rfl⟩
    · exact .inl (List.mem_append_left _ member)
    · by_cases same : c' = c
      · subst same
        obtain rfl := Producer.queued.inj (queued.symm.trans stands)
        exact .inl (List.mem_append_right _ (List.mem_singleton_self _))
      · exact .inr ⟨c', e', (Function.update_of_ne same ..).trans stands, rfl⟩
  · exact fun c' e' stands => exact_.tested c' e' (stay nofun stands)
  · exact fun c' e' stands => exact_.queued c' e' (stay nofun stands)
  · intro c₁ c₂ e₁ e₂ holds₁ holds₂
    exact exact_.alone c₁ c₂ e₁ e₂ (others c₁ e₁ holds₁).2 (others c₂ e₂ holds₂).2

/-- A step of the consumers that keeps the events active. -/
theorem of_consumers {queue : List E} {consumers : W → Consumer E} (exact_ : s.Exact key)
    (distinct : Distinct key queue consumers)
    (active : ∀ k, Active key { s with queue, consumers } k ↔ s.Active key k) :
    Exact key { s with queue, consumers } where
  distinct := distinct
  listed := fun k member => ⟨(active k).mpr (exact_.listed k member).1, (exact_.listed k member).2⟩
  active := fun k is => exact_.active k ((active k).mp is)
  tested := fun c' e' stands is => exact_.tested c' e' stands ((active _).mp is)
  queued := fun c' e' stands => (active _).mpr (exact_.queued c' e' stands)
  alone := exact_.alone

theorem take {rest : List E} (exact_ : s.Exact key) (idle : s.consumers w = .idle)
    (first : s.queue = e :: rest) :
    Exact key
      { s with queue := rest, consumers := Function.update s.consumers w (.working e) } := by
  have head : e ∈ s.queue := by
    rw [first]
    exact List.mem_cons_self
  have tail : ∀ e' ∈ rest, e' ∈ s.queue := fun e' member => by
    rw [first]
    exact List.mem_cons_of_mem e member
  have fresh : ∀ e' ∈ rest, key e' ≠ key e := by
    have nodup := exact_.distinct.nodup
    rw [first, List.map_cons, List.nodup_cons] at nodup
    exact fun e' member same => nodup.1 (List.mem_map.mpr ⟨e', member, same⟩)
  refine exact_.of_consumers ⟨?_, ?_, ?_⟩ fun k => ⟨?_, ?_⟩
  · have nodup := exact_.distinct.nodup
    rw [first] at nodup
    exact (List.nodup_cons.mp nodup).2
  · intro w' e' held e'' member
    rcases update_event_cases held with ⟨-, here⟩ | ⟨-, there⟩
    · obtain rfl := Option.some.inj here
      exact fresh e'' member
    · exact exact_.distinct.apart w' e' there e'' (tail e'' member)
  · intro w₁ w₂ e₁ e₂ held₁ held₂ same
    rcases update_event_cases held₁ with ⟨rfl, here₁⟩ | ⟨-, there₁⟩ <;>
      rcases update_event_cases held₂ with ⟨rfl, here₂⟩ | ⟨-, there₂⟩
    · rfl
    · obtain rfl := Option.some.inj here₁
      exact absurd same (exact_.distinct.apart w₂ e₂ there₂ e head)
    · obtain rfl := Option.some.inj here₂
      exact absurd same.symm (exact_.distinct.apart w₁ e₁ there₁ e head)
    · exact exact_.distinct.single w₁ w₂ e₁ e₂ there₁ there₂ same
  · rintro (⟨e', member, same⟩ | ⟨w', e', held, same⟩)
    · exact .inl ⟨e', tail e' member, same⟩
    · rcases update_event_cases held with ⟨-, here⟩ | ⟨-, there⟩
      · obtain rfl := Option.some.inj here
        exact .inl ⟨e, head, same⟩
      · exact .inr ⟨w', e', there, same⟩
  · rintro (⟨e', member, same⟩ | ⟨w', e', held, same⟩)
    · rw [first] at member
      rcases List.mem_cons.mp member with rfl | later
      · exact .inr ⟨w, e', congrArg Consumer.event (Function.update_self w _ s.consumers), same⟩
      · exact .inl ⟨e', later, same⟩
    · have other : w' ≠ w := by
        rintro rfl
        rw [idle] at held
        cases held
      exact .inr ⟨w', e', (congrArg Consumer.event (Function.update_of_ne other ..)).trans held, same⟩

theorem finish (exact_ : s.Exact key) (working : s.consumers w = .working e) :
    Exact key { s with consumers := Function.update s.consumers w (.done e) } := by
  have events : ∀ w', ((Function.update s.consumers w (.done e)) w').event = (s.consumers w').event := by
    intro w'
    by_cases same : w' = w
    · subst same
      rw [Function.update_self, working]
      rfl
    · rw [Function.update_of_ne same]
  refine exact_.of_consumers ⟨exact_.distinct.nodup, fun w' e' held => ?_, fun w₁ w₂ e₁ e₂ held₁ held₂ => ?_⟩
    fun k => ?_
  · exact exact_.distinct.apart w' e' (events w' ▸ held)
  · exact exact_.distinct.single w₁ w₂ e₁ e₂ (events w₁ ▸ held₁) (events w₂ ▸ held₂)
  · unfold Active
    simp only [events]

theorem remove (exact_ : s.Exact key) (done : s.consumers w = .done e)
    (added : ∀ c e', s.producers c = .queued e' → key e' ≠ key e) :
    Exact key
      { s with
        keys := s.keys.filter fun k => decide (k ≠ key e)
        consumers := Function.update s.consumers w .idle } := by
  have mine : (s.consumers w).event = some e := by rw [done]; rfl
  have others : ∀ w' e', ((Function.update s.consumers w .idle) w').event = some e' →
      w' ≠ w ∧ (s.consumers w').event = some e' := by
    intro w' e' held
    rcases update_event_cases held with ⟨-, here⟩ | there
    · cases here
    · exact there
  have active : ∀ k, Active key
      { s with
        keys := s.keys.filter fun k => decide (k ≠ key e)
        consumers := Function.update s.consumers w .idle } k ↔ s.Active key k ∧ k ≠ key e := by
    intro k
    constructor
    · rintro (⟨e', member, rfl⟩ | ⟨w', e', held, rfl⟩)
      · exact ⟨.inl ⟨e', member, rfl⟩, exact_.distinct.apart w e mine e' member⟩
      · obtain ⟨other, there⟩ := others w' e' held
        refine ⟨.inr ⟨w', e', there, rfl⟩, fun same => other ?_⟩
        exact exact_.distinct.single w' w e' e there mine same
    · rintro ⟨⟨e', member, rfl⟩ | ⟨w', e', held, rfl⟩, other⟩
      · exact .inl ⟨e', member, rfl⟩
      · have elsewhere : w' ≠ w := by
          rintro rfl
          rw [mine] at held
          exact other (congrArg key (Option.some.inj held).symm)
        exact .inr ⟨w', e', (congrArg Consumer.event (Function.update_of_ne elsewhere ..)).trans held, rfl⟩
  refine ⟨⟨exact_.distinct.nodup, ?_, ?_⟩, ?_, ?_, ?_, ?_, exact_.alone⟩
  · exact fun w' e' held => exact_.distinct.apart w' e' (others w' e' held).2
  · intro w₁ w₂ e₁ e₂ held₁ held₂
    exact exact_.distinct.single w₁ w₂ e₁ e₂ (others w₁ e₁ held₁).2 (others w₂ e₂ held₂).2
  · intro k member
    obtain ⟨inside, other⟩ := List.mem_filter.mp member
    obtain ⟨is, free⟩ := exact_.listed k inside
    exact ⟨(active k).mpr ⟨is, by simpa using other⟩, free⟩
  · intro k is
    obtain ⟨before, other⟩ := (active k).mp is
    exact (exact_.active k before).imp_left fun member => List.mem_filter.mpr ⟨member, by simpa using other⟩
  · exact fun c' e' stands is => exact_.tested c' e' stands ((active _).mp is).1
  · exact fun c' e' stands => (active _).mpr ⟨exact_.queued c' e' stands, added c' e' stands⟩

/-- **A disciplined step keeps the set exact.** -/
theorem step {label : Label E C W} (exact_ : s.Exact key) (disciplined : Disciplined key label s) :
    (step key label s).Exact key := by
  cases label with
  | test c e =>
    dsimp only [DedupQueue.step]
    cases stands : s.producers c with
    | idle =>
      dsimp only
      split
      · exact exact_
      · exact exact_.test stands ‹_› disciplined
    | _ => exact exact_
  | enqueue c =>
    dsimp only [DedupQueue.step]
    cases stands : s.producers c with
    | tested e => exact exact_.enqueue stands
    | _ => exact exact_
  | record c =>
    dsimp only [DedupQueue.step]
    cases stands : s.producers c with
    | queued e => exact exact_.record stands
    | _ => exact exact_
  | take w =>
    dsimp only [DedupQueue.step]
    cases stands : s.consumers w with
    | idle =>
      cases first : s.queue with
      | nil => exact exact_
      | cons e rest => exact exact_.take stands first
    | _ => exact exact_
  | finish w =>
    dsimp only [DedupQueue.step]
    cases stands : s.consumers w with
    | working e => exact exact_.finish stands
    | _ => exact exact_
  | crash w =>
    dsimp only [DedupQueue.step]
    cases stands : s.consumers w with
    | working e => exact absurd stands (disciplined e)
    | _ => exact exact_
  | remove w =>
    dsimp only [DedupQueue.step]
    cases stands : s.consumers w with
    | done e => exact exact_.remove stands (disciplined e stands)
    | _ => exact exact_

end Exact

end DedupQueue

end Clb.Lib
