/-
The swarm driver and the files it works on.

The driver handles one command at a time.  Commands come from spawned senders, and file
operations run as spawned tasks, so commands wait in one pool, tasks in another, and
either is taken up in any order.

Each step is a label: which command or task is taken up next, and what the world outside
contributes, such as clock readings and whether a file operation works.
-/
import Autonomi.Lib.Pool
import Autonomi.Lib.Transition
import Autonomi.Node.RecordStore

namespace Autonomi

open Lib

inductive LocalSwarmCmd
  | putLocalRecord (record : Record) (isClientPut : Bool)
  | addLocalRecordAsStored (key : RecordKey) (recordType : ValidationType) (dataType : DataTypes)
  | removeFailedLocalRecord (key : RecordKey)
  | removeOutOfSyncEntry (key : RecordKey)
deriving DecidableEq

def LocalSwarmCmd.key : LocalSwarmCmd → RecordKey
  | .putLocalRecord record _ => record.key
  | .addLocalRecordAsStored key _ _ => key
  | .removeFailedLocalRecord key => key
  | .removeOutOfSyncEntry key => key

variable (n : Node) (cfg : NodeRecordStoreConfig)

/-- What a record is indexed as; a record with a payment is not to be stored. -/
def localRecordType (record : Record) : Option ValidationType :=
  match record.value.kind with
  | some (.dataOnly .chunk) => some .chunk
  | some (.dataOnly _) => some (.nonChunk (record.value.contentHash n.crypto n.serialize))
  | some (.dataWithPayment _) => none
  | some (.dataWithMerklePayment _) => none
  | none => none

def handleLocalCmd (s : NodeRecordStore) (clock : List Time) :
    LocalSwarmCmd → Option (NodeRecordStore × List StoreTask)
  | .putLocalRecord record isClientPut =>
    match localRecordType n record with
    | none => some (s, [])
    | some recordType =>
      (s.putVerified n cfg clock record recordType isClientPut).map fun result => result.2
  | .addLocalRecordAsStored key recordType dataType =>
    some (s.markAsStored n key recordType dataType, [])
  | .removeFailedLocalRecord key => some (s.remove n key)
  | .removeOutOfSyncEntry key => some (s.pruningIndexingCache n key, [])

/-- How a file operation went; a failed write leaves anything behind. -/
inductive FileOutcome
  | succeeded
  | failed (left : Option Bytes)
deriving DecidableEq

/-- Run a spawned task: what becomes of its file, and the commands it sends. -/
def StoreTask.run (disk : Disk) (outcome : FileOutcome) : StoreTask → Disk × List LocalSwarmCmd
  | .write record recordType =>
    match record.value.getDataType with
    | none => (disk, [])
    | some dataType =>
      match prepareRecordBytes cfg record with
      | none => (disk, [])
      | some bytes =>
        match outcome with
        | .succeeded => (Function.update disk record.key (some bytes),
            [.addLocalRecordAsStored record.key recordType dataType])
        | .failed left => (Function.update disk record.key left,
            [.removeFailedLocalRecord record.key])
  | .removeFile key =>
    match outcome with
    | .succeeded => (Function.update disk key none, [])
    | .failed _ => (disk, [])

/-- The driver's store, the files, and what is still to be done. -/
structure DriverState where
  store : NodeRecordStore
  disk : Disk
  tasks : List StoreTask
  commands : List LocalSwarmCmd

namespace DriverState

variable (d : DriverState)

def Drained : Prop := d.tasks = [] ∧ d.commands = []

def visible (key : RecordKey) : Option Record := d.store.get cfg d.disk key

/-- Read a record; a failed read of an indexed key sends a command. -/
def read (key : RecordKey) : DriverState :=
  if d.store.outOfSync cfg d.disk key then
    { d with commands := d.commands ++ [.removeOutOfSyncEntry key] }
  else d

def send (cmd : LocalSwarmCmd) : DriverState :=
  { d with commands := d.commands ++ [cmd] }

end DriverState

inductive DriverLabel
  /-- The driver takes up a command. -/
  | handle (i : Nat) (clock : List Time)
  /-- A spawned task runs. -/
  | runTask (i : Nat) (outcome : FileOutcome)
  /-- A record is asked for. -/
  | get (key : RecordKey)
  /-- A validated record arrives. -/
  | put (record : Record) (isClientPut : Bool)
  /-- A key is removed, for instance as irrelevant. -/
  | remove (key : RecordKey)

def driverStep (d : DriverState) : DriverLabel → Option DriverState
  | .handle i clock => do
    let (cmd, commands) ← Pool.take d.commands i
    let (store, spawned) ← handleLocalCmd n cfg d.store clock cmd
    return { d with store, commands, tasks := d.tasks ++ spawned }
  | .runTask i outcome => do
    let (task, tasks) ← Pool.take d.tasks i
    let (disk, sent) := task.run cfg d.disk outcome
    return { d with disk, tasks, commands := d.commands ++ sent }
  | .get key => some (d.read cfg key)
  | .put record isClientPut => some (d.send (.putLocalRecord record isClientPut))
  | .remove key =>
    let (store, spawned) := d.store.remove n key
    some { d with store, tasks := d.tasks ++ spawned }

end Autonomi
