/-
# Document.FileCache -- what the local copy of a file is a copy of

`saveTempFile` takes the file that lies at the path of its key, whoever wrote it, and reads the stream
only if there is none. This module follows the file of one key along a sequence of calls: a file that
a later call would take stays as it is until the cleaner removes it (`run_hit`), and it holds the bytes
of the call that wrote it (`hit_after`).

So the calls are faithful to their streams exactly when the streams of a key agree between two
deletions, from the first one on that leaves a file (`faithful_iff`). Two sequences that are not: a
stream that breaks off and is sent again, and other content under a key in use. -/
import Clb.Lib.Machine
import Clb.Document.HandlerOutcomes

set_option autoImplicit false

namespace Clb

open Clb.Lib

variable {other : ObjectId}

/-- The bytes that a stream yields before it ends or fails. -/
def InputStream.content (ins : InputStream) : Bytes := ins.reads.flatten

/-- The copy of the stream is a file that later calls take: a part of nothing is written again. -/
def InputStream.LeavesFile (ins : InputStream) : Prop := ins.fails = false ∨ ins.content ≠ []

/-- The calls of `saveTempFile`, and the cleaner, which deletes files and leaves the map alone. -/
inductive CacheCall where
  | save (key : ObjectId) (ins : InputStream)
  | clean (key : ObjectId)

namespace CacheCall

def key : CacheCall → ObjectId
  | .save key _ => key
  | .clean key => key

def step : CacheCall → LocalFileCache → LocalFileCache
  | .save key ins, c => (LocalFileCache.saveTempFile key ins c).2
  | .clean key, c => { c with tempFiles := c.tempFiles.filter fun entry => entry.1 != key }

end CacheCall

namespace LocalFileCache

def empty : LocalFileCache := ⟨[], []⟩

/-- The cache after a sequence of calls. -/
def after (calls : List CacheCall) : LocalFileCache := run CacheCall.step calls empty

theorem after_concat (calls : List CacheCall) (call : CacheCall) :
    after (calls ++ [call]) = call.step (after calls) := by
  simp [after, run]

theorem after_append (calls calls' : List CacheCall) :
    after (calls ++ calls') = run CacheCall.step calls' (after calls) := by
  simp [after, run]

variable {c : LocalFileCache} {key : ObjectId} {ins : InputStream}

/-- A filter that keeps the entries of a key keeps its first one. -/
theorem find?_filter_ne {entries : List (ObjectId × Bytes)} (apart : other ≠ key) :
    (entries.filter fun entry => entry.1 != other).find? (fun entry => entry.1 == key) =
      entries.find? fun entry => entry.1 == key := by
  rw [List.find?_filter]
  congr 1
  funext entry
  by_cases same : entry.1 = key
  · simp [same, apart.symm]
  · simp [same]

theorem contains_filter_ne {keys : List ObjectId} (apart : other ≠ key) :
    (keys.filter (· != other)).contains key = keys.contains key := by
  rw [Bool.eq_iff_iff]
  simp [apart.symm]

theorem tempFile_put_of_ne (apart : other ≠ key) (bytes : Bytes) :
    (c.put other bytes).tempFile key = c.tempFile key := by
  unfold tempFile put
  rw [List.find?_cons_of_neg (by simpa using apart), find?_filter_ne apart]

theorem cached_remember_of_ne (apart : other ≠ key) :
    (c.remember other).cached.contains key = c.cached.contains key := by
  rw [remember, List.contains_cons, contains_filter_ne apart, beq_false_of_ne apart.symm,
    Bool.false_or]

/-! ## One call -/

theorem saveTempFile_hit (present : c.hit key = true) :
    saveTempFile key ins c = (.ok true, c.remember key) := by
  unfold saveTempFile
  rw [if_pos present]

theorem saveTempFile_miss (missing : c.hit key = false) :
    saveTempFile key ins c =
      (.ok !ins.fails,
        if ins.fails then (c.put key ins.content).forget key
        else (c.put key ins.content).remember key) := by
  unfold saveTempFile
  rw [if_neg (by simp [missing])]
  cases ins.fails with
  | true => rfl
  | false => rfl

/-- A call for another key touches neither the file of a key nor its entry in the map. -/
theorem step_of_ne {call : CacheCall} (apart : call.key ≠ key) :
    (call.step c).tempFile key = c.tempFile key ∧
      (call.step c).cached.contains key = c.cached.contains key := by
  cases call with
  | save other ins =>
    change other ≠ key at apart
    change (saveTempFile other ins c).2.tempFile key = _ ∧
      (saveTempFile other ins c).2.cached.contains key = _
    cases present : c.hit other with
    | true =>
      rw [saveTempFile_hit present]
      exact ⟨rfl, cached_remember_of_ne apart⟩
    | false =>
      rw [saveTempFile_miss present]
      cases ins.fails with
      | true => exact ⟨tempFile_put_of_ne apart _, contains_filter_ne apart⟩
      | false => exact ⟨tempFile_put_of_ne apart _, cached_remember_of_ne apart⟩
  | clean other => exact ⟨congrArg (Option.map Prod.snd) (find?_filter_ne apart), rfl⟩

theorem hit_step_of_ne {call : CacheCall} (apart : call.key ≠ key) :
    (call.step c).hit key = c.hit key := by
  unfold hit
  rw [(step_of_ne apart).1, (step_of_ne apart).2]

theorem hit_iff : c.hit key = true ↔
    ∃ bytes, c.tempFile key = some bytes ∧ (key ∈ c.cached ∨ bytes ≠ []) := by
  simp [hit, Option.any_eq_true]

/-- A file that the call takes is there afterwards, and would be taken again. -/
theorem step_save_hit (present : c.hit key = true) :
    ((CacheCall.save key ins).step c).tempFile key = c.tempFile key ∧
      ((CacheCall.save key ins).step c).hit key = true := by
  change (saveTempFile key ins c).2.tempFile key = _ ∧ (saveTempFile key ins c).2.hit key = true
  rw [saveTempFile_hit present]
  obtain ⟨bytes, found, -⟩ := hit_iff.mp present
  exact ⟨rfl, hit_iff.mpr ⟨bytes, found, .inl List.mem_cons_self⟩⟩

/-- Without a file to take the stream is copied, as far as it goes. -/
theorem step_save_miss (missing : c.hit key = false) :
    ((CacheCall.save key ins).step c).tempFile key = some ins.content ∧
      (((CacheCall.save key ins).step c).hit key = true → ins.LeavesFile) ∧
      (ins.LeavesFile → ((CacheCall.save key ins).step c).hit key = true) := by
  change (saveTempFile key ins c).2.tempFile key = _ ∧
    ((saveTempFile key ins c).2.hit key = true → _) ∧ (_ → (saveTempFile key ins c).2.hit key = true)
  have copied : ∀ bytes, (c.put key bytes).tempFile key = some bytes := c.tempFile_put key
  rw [saveTempFile_miss missing]
  unfold InputStream.LeavesFile
  cases ins.fails with
  | true =>
    refine ⟨copied _, fun present => ?_, fun leaves => ?_⟩
    · obtain ⟨bytes, found, kept⟩ := hit_iff.mp present
      obtain rfl : ins.content = bytes := Option.some.inj ((copied _).symm.trans found)
      exact .inr (kept.resolve_left (by simp [forget]))
    · exact hit_iff.mpr ⟨_, copied _, .inr (leaves.resolve_left nofun)⟩
  | false =>
    refine ⟨copied _, fun _ => .inl rfl, fun _ => ?_⟩
    exact hit_iff.mpr ⟨_, copied _, .inl List.mem_cons_self⟩

/-- A file that is there after a deletion is not the file of the deleted key. -/
theorem hit_clean : ((CacheCall.clean key).step c).hit key = false := by
  have gone : ((CacheCall.clean key).step c).tempFile key = none := by
    simp [CacheCall.step, tempFile]
  unfold hit
  rw [gone]
  rfl

/-! ## A sequence of calls -/

/-- **A file in use stays.** -/
theorem run_hit {calls : List CacheCall} (uncleaned : .clean key ∉ calls) (present : c.hit key = true) :
    (run CacheCall.step calls c).tempFile key = c.tempFile key ∧
      (run CacheCall.step calls c).hit key = true := by
  induction calls generalizing c with
  | nil => exact ⟨rfl, present⟩
  | cons call rest ih =>
    rw [List.mem_cons, not_or] at uncleaned
    have kept : (call.step c).tempFile key = c.tempFile key ∧ (call.step c).hit key = true := by
      by_cases other : call.key = key
      · cases call with
        | save key' ins =>
          obtain rfl : key' = key := other
          exact step_save_hit present
        | clean key' => exact absurd (congrArg CacheCall.clean other.symm) uncleaned.1
      · exact ⟨(step_of_ne other).1, (hit_step_of_ne other).trans present⟩
    obtain ⟨same, present'⟩ := ih uncleaned.2 kept.2
    exact ⟨same.trans kept.1, present'⟩

/-- **A file in use has a writer.** It holds the bytes of a call after which the cleaner did not
remove it. -/
theorem hit_after {calls : List CacheCall} (present : (after calls).hit key = true) :
    ∃ before ins between, calls = before ++ .save key ins :: between ∧ .clean key ∉ between ∧
      ins.LeavesFile ∧ (after calls).tempFile key = some ins.content := by
  induction calls using List.reverseRecOn with
  | nil => exact absurd present (by simp [after, run, empty, hit, tempFile])
  | append_singleton calls call ih =>
    rw [after_concat] at present ⊢
    -- a call that leaves the file alone belongs to the time after its writer
    have extended : call ≠ .clean key → (after calls).hit key = true →
        (call.step (after calls)).tempFile key = (after calls).tempFile key →
        ∃ before ins between, calls ++ [call] = before ++ .save key ins :: between ∧
          .clean key ∉ between ∧ ins.LeavesFile ∧
          (call.step (after calls)).tempFile key = some ins.content := by
      intro keeps held same
      obtain ⟨before, ins, between, rfl, uncleaned, leaves, written⟩ := ih held
      refine ⟨before, ins, between ++ [call], by simp, ?_, leaves, same.trans written⟩
      rw [List.mem_append, List.mem_singleton, not_or]
      exact ⟨uncleaned, keeps.symm⟩
    by_cases other : call.key = key
    · cases call with
      | save key' ins =>
        obtain rfl : key' = key := other
        cases held : (after calls).hit key' with
        | true => exact extended CacheCall.noConfusion held (step_save_hit held).1
        | false =>
          obtain ⟨written, leaves, -⟩ := @step_save_miss _ _ ins held
          exact ⟨calls, ins, [], rfl, List.not_mem_nil, leaves present, written⟩
      | clean key' =>
        obtain rfl : key' = key := other
        rw [hit_clean] at present
        cases present
    · refine extended ?_ ((hit_step_of_ne other).symm.trans present) (step_of_ne other).1
      rintro rfl
      exact other rfl

/-- Every call that returns a pair leaves at its path the bytes of the stream passed to it. -/
def Faithful (calls : List CacheCall) : Prop :=
  ∀ before key ins rest c', calls = before ++ .save key ins :: rest →
    saveTempFile key ins (after before) = (.ok true, c') → c'.tempFile key = some ins.content

/-- After a stream that leaves a file, the streams of its key yield the same bytes until the cleaner
removes the file. -/
def Agreeing (calls : List CacheCall) : Prop :=
  ∀ before key ins between ins' rest,
    calls = before ++ .save key ins :: (between ++ .save key ins' :: rest) →
      .clean key ∉ between → ins.LeavesFile → ins'.content = ins.content

/-- In a faithful sequence the file of a call holds its bytes, also if the call returned nothing. -/
theorem Faithful.tempFile_eq {calls before rest : List CacheCall} (faithful : Faithful calls)
    (split : calls = before ++ .save key ins :: rest) (leaves : ins.LeavesFile) :
    (after (before ++ [.save key ins])).tempFile key = some ins.content ∧
      (after (before ++ [.save key ins])).hit key = true := by
  rw [after_concat]
  cases present : (after before).hit key with
  | true =>
    have kept := faithful before key ins rest _ split (saveTempFile_hit present)
    exact ⟨(step_save_hit present).1.trans kept, (step_save_hit present).2⟩
  | false =>
    obtain ⟨written, -, inUse⟩ := @step_save_miss _ _ ins present
    exact ⟨written, inUse leaves⟩

/-- **When the cache is faithful.** -/
theorem faithful_iff (calls : List CacheCall) : Faithful calls ↔ Agreeing calls := by
  constructor
  · intro faithful before key ins between ins' rest split uncleaned leaves
    obtain ⟨written, inUse⟩ := faithful.tempFile_eq split leaves
    obtain ⟨same, present⟩ := run_hit uncleaned inUse
    rw [← after_append] at same present
    have returned := faithful _ key ins' rest _ (by simp [split]) (saveTempFile_hit present)
    exact Option.some.inj (returned.symm.trans (same.trans written))
  · intro agreeing before key ins rest c' split done
    cases present : (after before).hit key with
    | true =>
      obtain ⟨earlier, ins', between, rfl, uncleaned, leaves, written⟩ := hit_after present
      rw [saveTempFile_hit present] at done
      rw [agreeing earlier key ins' between ins rest (by simp [split]) uncleaned leaves,
        ← (Prod.mk.inj done).2]
      exact written
    | false =>
      have copied : (saveTempFile key ins (after before)).2.tempFile key = some ins.content :=
        (step_save_miss present).1
      rwa [done] at copied

/-- A stream that breaks off after its first byte, and the same file sent again. -/
def resent : List CacheCall :=
  [.save ⟨1⟩ { reads := [[7]], fails := true }, .save ⟨1⟩ { reads := [[7], [8]] }]

/-- A document that gets new content under the key it has. -/
def rewritten : List CacheCall := [.save ⟨1⟩ { reads := [[7]] }, .save ⟨1⟩ { reads := [[8]] }]

/-- The part of the broken stream passes for the file, and so does the old content. -/
theorem other_bytes : ¬Faithful resent ∧ ¬Faithful rewritten := by
  constructor
  · intro faithful
    have returned := faithful [.save ⟨1⟩ { reads := [[7]], fails := true }] ⟨1⟩ { reads := [[7], [8]] }
      [] ⟨[(⟨1⟩, [7])], [⟨1⟩]⟩ rfl rfl
    exact absurd returned (by decide)
  · intro faithful
    have returned := faithful [.save ⟨1⟩ { reads := [[7]] }] ⟨1⟩ { reads := [[8]] }
      [] ⟨[(⟨1⟩, [7])], [⟨1⟩]⟩ rfl rfl
    exact absurd returned (by decide)

end LocalFileCache

end Clb
