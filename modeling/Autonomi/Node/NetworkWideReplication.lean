/-
Replication of a node's records to the whole network, a few at a time.

Every quarter of an hour `execute` looks for records that are new, queues them, and
sends some of those that are queued, so many that all are sent by the deadline.  Once
the deadline has passed and the queue is empty, a new cycle is to begin.

Times are in nanoseconds.  The number of keys for each execution is computed with
floating point numbers; for counts below `2 ^ 53` that is the quotient rounded up.
-/
import Autonomi.Lib.Table
import Autonomi.Node.Network

namespace Autonomi

open Lib

def fromSecs (secs : Nat) : Nat := secs * 1000000000

def asSecs (duration : Nat) : Nat := duration / 1000000000

/-- What is replicated: a record, as it is stored now. -/
abbrev ReplicationKey := NetworkAddress × ValidationType

structure NetworkWideReplication where
  lastRecordCount : Nat
  pendingRecords : List ReplicationKey
  completedRecords : List ReplicationKey
  lastReplicationTime : Option Nat
  completeReplicationWithin : Nat
  networkIsUnderLoad : Option Nat

namespace NetworkWideReplication

/-- `REPLICATION_DEADLINE_SECS`: four days. -/
def replicationDeadlineSecs : Nat := 4 * 24 * 60 * 60

def networkLoadTimeoutSecs : Nat := 72 * 60 * 60

def replicationIntervalSecs : Nat := 15 * 60

def new (now : Nat) : NetworkWideReplication where
  lastRecordCount := 0
  pendingRecords := []
  completedRecords := []
  lastReplicationTime := none
  completeReplicationWithin := now + fromSecs replicationDeadlineSecs
  networkIsUnderLoad := none

variable (r : NetworkWideReplication)

def setNetworkUnderLoad (now : Nat) : NetworkWideReplication :=
  { r with networkIsUnderLoad := some now }

def isNetworkUnderLoad : Bool := r.networkIsUnderLoad.isSome

/-- How many keys to send now to be done by the deadline; `none` to skip this time. -/
def calculateKeysToSend (pendingCount timeRemainingSecs : Nat) (elapsedSinceLast : Option Nat)
    (executeIntervalSecs : Nat) : Option Nat :=
  if pendingCount = 0 then none
  else
    let executeRunsRemaining :=
      if timeRemainingSecs = 0 then 0 else max (timeRemainingSecs / executeIntervalSecs) 1
    if executeRunsRemaining = 0 then some pendingCount
    else
      let keysPerExecution := (pendingCount + executeRunsRemaining - 1) / executeRunsRemaining
      if keysPerExecution = 0 ∨ pendingCount < executeRunsRemaining then
        -- more executions than keys: space them out
        let targetIntervalSecs := timeRemainingSecs / pendingCount
        match elapsedSinceLast with
        | some elapsed =>
          if asSecs elapsed < targetIntervalSecs then none
          else some (min (max (asSecs elapsed / targetIntervalSecs) 1) pendingCount)
        | none => some 1
      else some (min keysPerExecution pendingCount)

/-- What a call of `execute` finds: the store's index, the time when it looks at the load flag
and the time it works with, and whether the event gets through. -/
structure Call where
  records : Table RecordKey IndexEntry
  flagTime : Nat
  now : Nat
  delivered : Bool

/-- The records of the store, in the order the index is walked. -/
def Call.keys (call : Call) : List ReplicationKey :=
  call.records.entries.map fun e => (e.2.address, e.2.validationType)

def resetLoad (call : Call) : NetworkWideReplication :=
  match r.networkIsUnderLoad with
  | some lastTime =>
    if fromSecs networkLoadTimeoutSecs < call.flagTime - lastTime then
      { r with networkIsUnderLoad := none }
    else r
  | none => r

/-- Queue new records, if the number of records has changed. -/
def queueNew (call : Call) : NetworkWideReplication :=
  let currentCount := call.records.entries.length
  if r.lastRecordCount ≠ currentCount then
    let newKeys := call.keys.filter fun key =>
      !r.pendingRecords.contains key && !r.completedRecords.contains key
    { r with
      lastRecordCount := currentCount
      pendingRecords := r.pendingRecords ++ newKeys }
  else r

def timeRemainingSecs (now : Nat) : Nat :=
  if now < r.completeReplicationWithin then asSecs (r.completeReplicationWithin - now) else 0

def sendKeys (call : Call) (keysToSend : Nat) : NetworkWideReplication :=
  { r with
    pendingRecords := r.pendingRecords.drop keysToSend
    completedRecords := r.completedRecords ++ r.pendingRecords.take keysToSend
    lastReplicationTime := if call.delivered then some call.now else r.lastReplicationTime }

/-- What an execution leaves behind, sends, and forgets at the end of a cycle. -/
structure Execution where
  after : NetworkWideReplication
  event : Option (List ReplicationKey)
  cleared : List ReplicationKey

/-- Begin a new cycle if the deadline has passed and nothing is left to send. -/
def endCycle (now timeRemainingSecs : Nat) : NetworkWideReplication × List ReplicationKey :=
  if timeRemainingSecs = 0 ∧ r.pendingRecords = [] then
    ({ r with
        completedRecords := []
        completeReplicationWithin := now + fromSecs replicationDeadlineSecs
        lastReplicationTime := none }, r.completedRecords)
  else (r, [])

def execute (call : Call) : Execution :=
  let r := (r.resetLoad call).queueNew call
  let timeRemainingSecs := r.timeRemainingSecs call.now
  let elapsedSinceLast := r.lastReplicationTime.map fun lastTime => call.now - lastTime
  match calculateKeysToSend r.pendingRecords.length timeRemainingSecs elapsedSinceLast
      replicationIntervalSecs with
  | none => ⟨r, none, []⟩
  | some keysToSend =>
    let (after, cleared) := (r.sendKeys call keysToSend).endCycle call.now timeRemainingSecs
    ⟨after, if call.delivered then some (r.pendingRecords.take keysToSend) else none, cleared⟩

end NetworkWideReplication

end Autonomi
