/-
Which records get replicated to the whole network, and how often.

New records are looked for only when their number has changed since the last time.  So a
record set that stays as it is is queued once.  What is sent leaves the queue, and
nothing puts it back: the end of a cycle forgets what was sent but does not queue it
again, and it comes only if there was something left to send after the deadline.
-/
import Autonomi.Lib.Transition
import Autonomi.Node.NetworkWideReplication

namespace Autonomi.NetworkWideReplication

open Lib

variable {r : NetworkWideReplication} {call : Call} {key : ReplicationKey}

/-! ### One execution -/

theorem resetLoad_fields :
    (r.resetLoad call).lastRecordCount = r.lastRecordCount ∧
      (r.resetLoad call).pendingRecords = r.pendingRecords ∧
      (r.resetLoad call).completedRecords = r.completedRecords := by
  unfold resetLoad
  cases r.networkIsUnderLoad with
  | none => exact ⟨rfl, rfl, rfl⟩
  | some lastTime =>
    dsimp only
    split <;> exact ⟨rfl, rfl, rfl⟩

abbrev queued (r : NetworkWideReplication) (call : Call) : NetworkWideReplication :=
  (r.resetLoad call).queueNew call

theorem completedRecords_queued : (r.queued call).completedRecords = r.completedRecords := by
  unfold queued queueNew
  dsimp only
  split <;> exact resetLoad_fields.2.2

theorem lastRecordCount_queued :
    (r.queued call).lastRecordCount = call.records.entries.length := by
  unfold queued queueNew
  by_cases h : (r.resetLoad call).lastRecordCount ≠ call.records.entries.length
  · rw [if_pos h]
  · rw [if_neg h]
    exact not_not.mp h

theorem pendingRecords_queued_of_eq (h : r.lastRecordCount = call.records.entries.length) :
    (r.queued call).pendingRecords = r.pendingRecords := by
  unfold queued queueNew
  rw [if_neg (by rw [resetLoad_fields.1, h]; exact not_not.mpr rfl)]
  exact resetLoad_fields.2.1

theorem mem_pendingRecords_queued_of_ne (h : r.lastRecordCount ≠ call.records.entries.length) :
    key ∈ (r.queued call).pendingRecords ↔ key ∈ r.pendingRecords ∨
      (key ∈ call.keys ∧ key ∉ r.pendingRecords ∧ key ∉ r.completedRecords) := by
  unfold queued queueNew
  rw [if_pos (by rwa [resetLoad_fields.1])]
  simp only [resetLoad_fields.2.1, resetLoad_fields.2.2, List.mem_append, List.mem_filter,
    Bool.and_eq_true, Bool.not_eq_true', List.contains_eq_mem, decide_eq_false_iff_not]

/-- What an execution sent, from the front of the queue, and whether it ended a cycle. -/
structure Sends (r : NetworkWideReplication) (call : Call) (sent : List ReplicationKey) : Prop where
  count : (r.execute call).after.lastRecordCount = call.records.entries.length
  queue : (r.queued call).pendingRecords = sent ++ (r.execute call).after.pendingRecords
  event : ∀ keys ∈ (r.execute call).event, keys = sent
  moved : (r.execute call).after.completedRecords ++ (r.execute call).cleared
    = r.completedRecords ++ sent

abbrev keysToSend (r : NetworkWideReplication) (call : Call) : Option Nat :=
  calculateKeysToSend (r.queued call).pendingRecords.length
    ((r.queued call).timeRemainingSecs call.now)
    ((r.queued call).lastReplicationTime.map fun lastTime => call.now - lastTime)
    replicationIntervalSecs

theorem execute_eq : r.execute call = match r.keysToSend call with
    | none => ⟨r.queued call, none, []⟩
    | some count =>
      let ended := ((r.queued call).sendKeys call count).endCycle call.now
        ((r.queued call).timeRemainingSecs call.now)
      ⟨ended.1, if call.delivered then some ((r.queued call).pendingRecords.take count) else none,
        ended.2⟩ := rfl

/-- At the end of a cycle it is forgotten what was sent in it, and nothing else. -/
theorem endCycle_fields (now timeRemainingSecs : Nat) :
    (r.endCycle now timeRemainingSecs).1.lastRecordCount = r.lastRecordCount ∧
      (r.endCycle now timeRemainingSecs).1.pendingRecords = r.pendingRecords ∧
      (r.endCycle now timeRemainingSecs).1.completedRecords ++
        (r.endCycle now timeRemainingSecs).2 = r.completedRecords := by
  unfold endCycle
  by_cases h : timeRemainingSecs = 0 ∧ r.pendingRecords = []
  · rw [if_pos h]
    exact ⟨rfl, rfl, rfl⟩
  · rw [if_neg h]
    exact ⟨rfl, rfl, List.append_nil _⟩

/-- **An execution moves keys from the front of the queue to those that were sent.** -/
theorem exists_sends (r : NetworkWideReplication) (call : Call) : ∃ sent, Sends r call sent := by
  cases hcount : r.keysToSend call with
  | none =>
    refine ⟨[], ?_, ?_, ?_, ?_⟩ <;> rw [execute_eq, hcount]
    · exact lastRecordCount_queued
    · rfl
    · nofun
    · rw [List.append_nil, List.append_nil]
      exact completedRecords_queued
  | some count =>
    obtain ⟨hrecords, hpending, hcompleted⟩ := endCycle_fields call.now
      ((r.queued call).timeRemainingSecs call.now)
    refine ⟨(r.queued call).pendingRecords.take count, ?_, ?_, ?_, ?_⟩ <;>
      rw [execute_eq, hcount]
    · exact hrecords.trans lastRecordCount_queued
    · rw [hpending]
      exact (List.take_append_drop _ _).symm
    · intro keys hkeys
      cases hdelivered : call.delivered with
      | false => simp [hdelivered] at hkeys
      | true => simpa [hdelivered, eq_comm] using hkeys
    · refine hcompleted.trans ?_
      rw [sendKeys, completedRecords_queued]

/-! ### A record set that stays as it is -/

/-- Calls that go on for ever, at least one in each interval. -/
structure Schedule where
  flagTime : Nat → Nat
  now : Nat → Nat
  delivered : Nat → Bool
  ordered : ∀ i, now i ≤ now (i + 1)
  often : ∀ t, now 0 ≤ t → ∃ i, t ≤ now i ∧ now i ≤ t + fromSecs replicationIntervalSecs

def Schedule.calls (schedule : Schedule) (records : Table RecordKey IndexEntry) (i : Nat) : Call :=
  ⟨records, schedule.flagTime i, schedule.now i, schedule.delivered i⟩

def stateAt (r : NetworkWideReplication) (calls : Nat → Call) : Nat → NetworkWideReplication :=
  runForever (fun r call => (r.execute call).after) r calls

/-- The key is sent again and again: in every time of two deadlines. -/
def SentAgain (r : NetworkWideReplication) (records : Table RecordKey IndexEntry)
    (schedule : Schedule) (key : ReplicationKey) : Prop :=
  ∀ t, schedule.now 0 ≤ t → ∃ i, t ≤ schedule.now i ∧
    schedule.now i ≤ t + 2 * fromSecs replicationDeadlineSecs ∧
    ∃ keys ∈ ((r.stateAt (schedule.calls records) i).execute (schedule.calls records i)).event,
      key ∈ keys

theorem Schedule.now_mono (schedule : Schedule) {i j : Nat} (h : i ≤ j) :
    schedule.now i ≤ schedule.now j := by
  induction h with
  | refl => exact le_rfl
  | step _ ih => exact ih.trans (schedule.ordered _)

/-- **At some point the last key is sent**, if the number of records stays as it is. -/
theorem exists_last_sent (r : NetworkWideReplication) (calls : Nat → Call)
    (hcount : ∀ i, (calls i).records.entries.length = (calls (i + 1)).records.entries.length) :
    ∃ N, ∀ i, N ≤ i → ∀ keys ∈ ((r.stateAt calls i).execute (calls i)).event,
      ∀ key, key ∉ keys := by
  -- From the second call on the number of records is the one of the last call.
  have hshorter : ∀ i, ∃ sent, Sends (r.stateAt calls (i + 1)) (calls (i + 1)) sent ∧
      (r.stateAt calls (i + 1)).pendingRecords.length
        = sent.length + (r.stateAt calls (i + 1 + 1)).pendingRecords.length := by
    intro i
    obtain ⟨_, hbefore⟩ := exists_sends (r.stateAt calls i) (calls i)
    obtain ⟨sent, hsends⟩ := exists_sends (r.stateAt calls (i + 1)) (calls (i + 1))
    have hsame : (r.stateAt calls (i + 1)).lastRecordCount = _ := hbefore.count.trans (hcount i)
    have hqueue := congrArg List.length hsends.queue
    rw [pendingRecords_queued_of_eq hsame, List.length_append] at hqueue
    exact ⟨sent, hsends, hqueue⟩
  have hle : ∀ i, (r.stateAt calls (i + 1 + 1)).pendingRecords.length
      ≤ (r.stateAt calls (i + 1)).pendingRecords.length := by
    intro i
    obtain ⟨sent, -, hlength⟩ := hshorter i
    omega
  obtain ⟨N, hN⟩ := exists_settled
    (μ := fun i => (r.stateAt calls (i + 1)).pendingRecords.length) hle
  refine ⟨N + 1, ?_⟩
  intro i hi keys hkeys key hkey
  obtain ⟨i, rfl⟩ : ∃ j, i = j + 1 := ⟨i - 1, by omega⟩
  obtain ⟨sent, hsends, hlength⟩ := hshorter i
  rw [hsends.event keys hkeys] at hkey
  have hsome := List.length_pos_of_mem hkey
  have hsettled := hN i (by omega)
  omega

/--
**No record is sent again and again**, whatever the records are, whatever has been sent
before and however often `execute` is called.
-/
theorem never_sentAgain (r : NetworkWideReplication) (records : Table RecordKey IndexEntry)
    (schedule : Schedule) (key : ReplicationKey) : ¬ SentAgain r records schedule key := by
  intro h
  obtain ⟨N, hlast⟩ := exists_last_sent r (schedule.calls records) fun _ => rfl
  -- A time after the last key was sent, and the call the property gives from then on.
  obtain ⟨i, hafter, -, keys, hkeys, hkey⟩ := h (schedule.now N + 1)
    (Nat.le_succ_of_le (schedule.now_mono (Nat.zero_le N)))
  have hlate : N ≤ i := by
    by_contra hearly
    have hbefore := schedule.now_mono (Nat.le_of_not_le hearly)
    omega
  exact hlast i hlate keys hkeys key hkey

def Schedule.regular : Schedule where
  flagTime i := i * fromSecs replicationIntervalSecs
  now i := i * fromSecs replicationIntervalSecs
  delivered _ := true
  ordered i := Nat.mul_le_mul_right _ (Nat.le_succ i)
  often := by
    intro t _
    have hpos : 0 < fromSecs replicationIntervalSecs := by decide
    have hdiv := Nat.div_add_mod t (fromSecs replicationIntervalSecs)
    have hmod := Nat.mod_lt t hpos
    refine ⟨t / fromSecs replicationIntervalSecs + 1, ?_, ?_⟩
    · rw [Nat.succ_mul, Nat.mul_comm]
      omega
    · rw [Nat.succ_mul, Nat.mul_comm]
      omega

def oneRecord : Table RecordKey IndexEntry :=
  AList.insert [1] ⟨.recordKey [1], .chunk, .chunk⟩ ∅

/-- One record that stays, looked after every quarter of an hour. -/
theorem not_always_sentAgain :
    ¬ ∀ (records : Table RecordKey IndexEntry) (schedule : Schedule),
      ∀ entry ∈ records.entries, SentAgain (.new (schedule.now 0)) records schedule
        (entry.2.address, entry.2.validationType) := by
  intro h
  obtain ⟨N, hlast⟩ := exists_last_sent (.new 0) (Schedule.regular.calls oneRecord) fun _ => rfl
  have hmem : (⟨[1], ⟨.recordKey [1], .chunk, .chunk⟩⟩ : Σ _ : RecordKey, IndexEntry)
      ∈ oneRecord.entries := by
    decide
  obtain ⟨i, hafter, -, keys, hkeys, hkey⟩ := h oneRecord .regular _ hmem
    (Schedule.regular.now N) (Schedule.regular.now_mono (Nat.zero_le N))
  have hlate : N ≤ i := Nat.le_of_mul_le_mul_right hafter (by decide)
  exact hlast i hlate keys hkeys _ hkey

/-! ### Records that change -/

/-- Every record there is is queued or has been sent in this cycle; what the call itself
forgot when it ended the cycle counts. -/
def AllQueued (call : Call) (execution : Execution) : Prop :=
  ∀ key ∈ call.keys, key ∈ execution.after.pendingRecords ∨
    key ∈ execution.after.completedRecords ∨ key ∈ execution.cleared

/-- The number of records has changed, or there is nothing new. -/
def Noticed (r : NetworkWideReplication) (call : Call) : Prop :=
  r.lastRecordCount ≠ call.records.entries.length ∨
    ∀ key ∈ call.keys, key ∈ r.pendingRecords ∨ key ∈ r.completedRecords

theorem mem_execution :
    (key ∈ (r.execute call).after.pendingRecords ∨
      key ∈ (r.execute call).after.completedRecords ∨ key ∈ (r.execute call).cleared) ↔
    key ∈ (r.queued call).pendingRecords ∨ key ∈ r.completedRecords := by
  obtain ⟨sent, hsends⟩ := exists_sends r call
  rw [← List.mem_append, hsends.moved, hsends.queue, List.mem_append, List.mem_append]
  tauto

theorem allQueued_iff : AllQueued call (r.execute call) ↔ Noticed r call := by
  unfold AllQueued Noticed
  simp only [mem_execution]
  by_cases hcount : r.lastRecordCount = call.records.entries.length
  · rw [pendingRecords_queued_of_eq hcount]
    exact ⟨.inr, fun h => h.resolve_left (not_not.mpr hcount)⟩
  · refine ⟨fun _ => .inl hcount, ?_⟩
    intro _ key hkey
    rw [mem_pendingRecords_queued_of_ne hcount]
    tauto

def afterCalls (r : NetworkWideReplication) (calls : List Call) : NetworkWideReplication :=
  calls.foldl (fun r call => (r.execute call).after) r

/--
**After each call all records have been queued if and only if each call finds the number
of records changed or nothing new**, whatever happens to the records between the calls.
-/
theorem always_allQueued_iff (start : Nat) (calls : List Call) :
    (∀ earlier call later, calls = earlier ++ call :: later →
      AllQueued call (((new start).afterCalls earlier).execute call)) ↔
    ∀ earlier call later, calls = earlier ++ call :: later →
      Noticed ((new start).afterCalls earlier) call := by
  exact forall₄_congr fun _ _ _ _ => allQueued_iff

def versionCall (hash : UInt8) : Call where
  records :=
    AList.insert [1] ⟨.recordKey [1], .nonChunk (Vector.replicate 32 hash), .scratchpad⟩ ∅
  flagTime := 0
  now := 0
  delivered := true

/-- A record is replaced by another version of it. -/
theorem not_always_allQueued :
    ¬ ∀ (start : Nat) (calls : List Call) (earlier : List Call) (call : Call) (later : List Call),
      calls = earlier ++ call :: later →
      AllQueued call (((new start).afterCalls earlier).execute call) := by
  intro h
  have hqueued := h 0 [versionCall 1, versionCall 2] [versionCall 1] (versionCall 2) [] rfl
  rw [allQueued_iff] at hqueued
  rcases hqueued with hcount | hnothing
  · exact hcount (by decide)
  · have hkey := hnothing (.recordKey [1], .nonChunk (Vector.replicate 32 2)) (by decide)
    revert hkey
    decide

/-! ### How many keys are sent -/

/-- `a / b`, which panics for `b = 0`. -/
def checkedDiv (a b : Nat) : Option Nat := if b = 0 then none else some (a / b)

/-- `calculate_keys_to_send` again, with a panic as `none`. -/
def tryCalculateKeysToSend (pendingCount timeRemainingSecs : Nat) (elapsedSinceLast : Option Nat)
    (executeIntervalSecs : Nat) : Option (Option Nat) :=
  if pendingCount = 0 then some none
  else do
    let executeRunsRemaining ← if timeRemainingSecs = 0 then some 0
      else (checkedDiv timeRemainingSecs executeIntervalSecs).map fun runs => max runs 1
    if executeRunsRemaining = 0 then some (some pendingCount)
    else
      let keysPerExecution ←
        checkedDiv (pendingCount + executeRunsRemaining - 1) executeRunsRemaining
      if keysPerExecution = 0 ∨ pendingCount < executeRunsRemaining then
        let targetIntervalSecs ← checkedDiv timeRemainingSecs pendingCount
        match elapsedSinceLast with
        | some elapsed =>
          if asSecs elapsed < targetIntervalSecs then some none
          else (checkedDiv (asSecs elapsed) targetIntervalSecs).map fun sends =>
            some (min (max sends 1) pendingCount)
        | none => some (some 1)
      else some (some (min keysPerExecution pendingCount))

variable {pendingCount timeRemainingSecs executeIntervalSecs : Nat}

theorem checkedDiv_of_pos {a b : Nat} (h : 0 < b) : checkedDiv a b = some (a / b) :=
  if_neg (Nat.ne_of_gt h)

theorem ceilDiv_pos {a b : Nat} (ha : 0 < a) (hb : 0 < b) : 0 < (a + b - 1) / b :=
  Nat.div_pos (by omega) hb

/-- With more executions left than keys, the time left is at least a second for each key. -/
theorem targetInterval_pos (hpending : 0 < pendingCount)
    (hruns : pendingCount < max (timeRemainingSecs / executeIntervalSecs) 1) :
    0 < timeRemainingSecs / pendingCount := by
  have hle : timeRemainingSecs / executeIntervalSecs ≤ timeRemainingSecs := Nat.div_le_self _ _
  exact Nat.div_pos (by omega) hpending

/-- **The number of keys to send is well defined**, between one and all that are pending, and all
of them when there is no second execution before the deadline. -/
theorem keysToSend_sound (hinterval : 0 < executeIntervalSecs)
    (pendingCount timeRemainingSecs : Nat)
    (elapsedSinceLast : Option Nat) :
    tryCalculateKeysToSend pendingCount timeRemainingSecs elapsedSinceLast executeIntervalSecs =
        some (calculateKeysToSend pendingCount timeRemainingSecs elapsedSinceLast
          executeIntervalSecs) ∧
      (∀ k, calculateKeysToSend pendingCount timeRemainingSecs elapsedSinceLast
        executeIntervalSecs = some k → 1 ≤ k ∧ k ≤ pendingCount) ∧
      (0 < pendingCount → timeRemainingSecs < 2 * executeIntervalSecs →
        calculateKeysToSend pendingCount timeRemainingSecs elapsedSinceLast executeIntervalSecs =
          some pendingCount) := by
  by_cases hpending : pendingCount = 0
  · simp [tryCalculateKeysToSend, calculateKeysToSend, hpending]
  have hpos : 0 < pendingCount := Nat.pos_of_ne_zero hpending
  by_cases hremaining : timeRemainingSecs = 0
  · simp [tryCalculateKeysToSend, calculateKeysToSend, hpending, hremaining]
    omega
  simp only [tryCalculateKeysToSend, calculateKeysToSend, if_neg hpending, if_neg hremaining,
    checkedDiv_of_pos hinterval, Option.map_some, Option.bind_eq_bind, Option.bind_some]
  have hruns : 0 < max (timeRemainingSecs / executeIntervalSecs) 1 := by omega
  have hshort : timeRemainingSecs < 2 * executeIntervalSecs →
      max (timeRemainingSecs / executeIntervalSecs) 1 = 1 := by
    intro h
    have hle : timeRemainingSecs / executeIntervalSecs < 2 :=
      (Nat.div_lt_iff_lt_mul hinterval).mpr h
    omega
  have htarget : pendingCount < max (timeRemainingSecs / executeIntervalSecs) 1 →
      0 < timeRemainingSecs / pendingCount := targetInterval_pos hpos
  generalize max (timeRemainingSecs / executeIntervalSecs) 1 = runs at *
  have hkeys := ceilDiv_pos hpos hruns
  rw [if_neg (Nat.ne_of_gt hruns), if_neg (Nat.ne_of_gt hruns), checkedDiv_of_pos hruns,
    Option.bind_some]
  by_cases hfew : pendingCount < runs
  · rw [if_pos (.inr hfew), if_pos (.inr hfew), checkedDiv_of_pos hpos]
    have htarget := htarget hfew
    have hlong : timeRemainingSecs < 2 * executeIntervalSecs → False := by
      intro h
      have hone := hshort h
      omega
    cases elapsedSinceLast with
    | none => simp; omega
    | some elapsed =>
      by_cases hearly : asSecs elapsed < timeRemainingSecs / pendingCount
      · simp [hearly]; omega
      · simp [hearly, checkedDiv_of_pos htarget]; omega
  · have hmany : ¬ ((pendingCount + runs - 1) / runs = 0 ∨ pendingCount < runs) := by omega
    rw [if_neg hmany, if_neg hmany]
    refine ⟨rfl, ?_, ?_⟩
    · simp; omega
    · intro _ h
      simp [hshort h]

theorem keysToSend_sound_sample : calculateKeysToSend 7 1000 none 900 = some 7 :=
  (keysToSend_sound (by decide) 7 1000 none).2.2 (by decide) (by decide)

end Autonomi.NetworkWideReplication
