/-
The record store of a node.

Records live in files, encrypted, one for each key.  The store changes its index at
once, but never a file: writing and removing files is spawned, and a write reports back
by a command to the driver, which only then adds the key to the index.

A call that reads the clock is given the readings it gets.  If they run out the call has
not returned; making room in the cache is a loop that reads the clock each time round,
so how many it needs is not fixed beforehand.
-/
import Autonomi.Node.Network
import Mathlib.Data.List.AList

namespace Autonomi

open Lib

/-- A reading of the system clock, or an instant compared with one. -/
abbrev Time := Nat

/-! ### The cache -/

structure RecordCache where
  recordsCache : AList fun _ : RecordKey => Record × Time
  cacheSize : Nat
  cacheTimeout : Time

namespace RecordCache

variable (c : RecordCache)

def get (key : RecordKey) : Option (Record × Time) := c.recordsCache.lookup key

def remove (key : RecordKey) : RecordCache :=
  { c with recordsCache := c.recordsCache.erase key }

def retain (current : Time) : RecordCache :=
  { c with
    recordsCache := ⟨c.recordsCache.entries.filter fun e => current < e.2.2,
      c.recordsCache.nodupKeys.sublist List.filter_sublist⟩ }

/-- The entry that expires first, among those that expire before the bound. -/
def oldest (bound : Time) : Option RecordKey :=
  (c.recordsCache.entries.foldl
    (fun best e => if e.2.2 < best.1 then (e.2.2, some e.1) else best) (bound, none)).2

def removeOldestEntry (now : Time) : RecordCache :=
  match c.oldest (now + c.cacheTimeout) with
  | some key => c.remove key
  | none => c

/-- `while self.records_cache.len() >= self.cache_size { self.remove_oldest_entry() }` -/
def evict : List Time → RecordCache → Option (RecordCache × List Time)
  | [], c => if c.cacheSize ≤ c.recordsCache.entries.length then none else some (c, [])
  | now :: clock, c =>
    if c.cacheSize ≤ c.recordsCache.entries.length then evict clock (c.removeOldestEntry now)
    else some (c, now :: clock)

/-- Make room, with the clock readings; gives back those not used. -/
def freeUpSpace : List Time → Option (RecordCache × List Time)
  | [] => none
  | current :: clock => evict clock (c.retain current)

def pushBack (clock : List Time) (key : RecordKey) (record : Record) : Option RecordCache := do
  let (c, clock) ← c.freeUpSpace clock
  match clock with
  | [] => none
  | now :: _ =>
    some { c with recordsCache := c.recordsCache.insert key (record, now + c.cacheTimeout) }

end RecordCache

/-! ### Files -/

/-- `aes_gcm_siv::Aes256GcmSiv` under the store's key: what is encrypted can be decrypted. -/
structure Cipher where
  encrypt : (nonce : Bytes) → RecordValue → Option Bytes
  decrypt : (nonce : Bytes) → Bytes → Option RecordValue
  decrypt_encrypt : ∀ {nonce value bytes}, encrypt nonce value = some bytes →
    decrypt nonce bytes = some value

structure NodeRecordStoreConfig where
  maxRecords : Nat
  cipher : Cipher
  nonceStarter : Vector UInt8 4

/-- The files of the storage directory; each is named after its key. -/
abbrev Disk := RecordKey → Option Bytes

/-- Twelve bytes: the starter and the key, cut or padded with zeros. -/
def generateNonceForRecord (nonceStarter : Vector UInt8 4) (key : RecordKey) : Bytes :=
  ((nonceStarter.toList ++ key) ++ List.replicate 12 0).take 12

variable (n : Node) (cfg : NodeRecordStoreConfig)

def prepareRecordBytes (record : Record) : Option Bytes :=
  cfg.cipher.encrypt (generateNonceForRecord cfg.nonceStarter record.key) record.value

def getRecordFromBytes (bytes : Bytes) (key : RecordKey) : Option Record :=
  (cfg.cipher.decrypt (generateNonceForRecord cfg.nonceStarter key) bytes).map fun value =>
    { key, value }

def readFromDisk (disk : Disk) (key : RecordKey) : Option Record :=
  (disk key).bind fun bytes => getRecordFromBytes cfg bytes key

/-! ### The store -/

inductive StoreError
  | maxRecords
deriving DecidableEq

inductive StoreTask
  | write (record : Record) (recordType : ValidationType)
  | removeFile (key : RecordKey)
deriving DecidableEq

def StoreTask.key : StoreTask → RecordKey
  | .write record _ => record.key
  | .removeFile key => key

structure NodeRecordStore where
  records : AList fun _ : RecordKey => IndexEntry
  recordsByDistance : AList fun _ : Nat => RecordKey
  recordsCache : RecordCache
  farthestRecord : Option (RecordKey × Nat)

namespace NodeRecordStore

def distance (address : NetworkAddress) : Nat :=
  (NetworkAddress.peerId n.peerId).distance n.crypto address

variable (s : NodeRecordStore)

def calculateFarthest : Option (RecordKey × Nat) :=
  let sortedRecords := s.records.keys.insertionSort fun a b =>
    distance n (.recordKey a) ≤ distance n (.recordKey b)
  sortedRecords.getLast?.map fun key => (key, distance n (.recordKey key))

/-- Take a key out of the index, and leave everything else as it is. -/
def pruningIndexingCache (key : RecordKey) : NodeRecordStore :=
  match s.records.lookup key with
  | none => s
  | some entry =>
    { s with
      records := s.records.erase key
      recordsByDistance := s.recordsByDistance.erase (distance n entry.address) }

def remove (key : RecordKey) : NodeRecordStore × List StoreTask :=
  let pruned := s.pruningIndexingCache n key
  let uncached := { pruned with recordsCache := pruned.recordsCache.remove key }
  let store := match uncached.farthestRecord with
    | some (farthestRecord, _) =>
      if farthestRecord = key then
        { uncached with farthestRecord := uncached.calculateFarthest n }
      else uncached
    | none => uncached
  (store, [.removeFile key])

def getFarthest : Option RecordKey := s.farthestRecord.map Prod.fst

/-- Make room for a record by removing the farthest, unless the record is farther still. -/
def pruneRecordsIfNeeded (incoming : RecordKey) :
    Except StoreError (NodeRecordStore × List StoreTask) :=
  if s.records.entries.length < cfg.maxRecords then .ok (s, [])
  else
    match s.farthestRecord with
    | none => .ok (s, [])
    | some (farthestRecord, farthestRecordDistance) =>
      if farthestRecordDistance < distance n (.recordKey incoming) then .error .maxRecords
      else .ok (s.remove n farthestRecord)

/-- Only what a client puts is cached, for a quick response to the check that follows. -/
def cacheForPut (cache : RecordCache) (clock : List Time) (r : Record) (isClientPut : Bool) :
    Option RecordCache :=
  if isClientPut then cache.pushBack clock r.key r else some cache

def spawnWrite (r : Record) (recordType : ValidationType) :
    Except StoreError Unit × NodeRecordStore × List StoreTask :=
  match s.pruneRecordsIfNeeded n cfg r.key with
  | .error e => (.error e, s, [])
  | .ok (pruned, spawned) => (.ok (), pruned, spawned ++ [.write r recordType])

/-- Write a record without validation; it is in the index once `markAsStored` is called. -/
def putVerified (clock : List Time) (r : Record)
    (recordType : ValidationType) (isClientPut : Bool) :
    Option (Except StoreError Unit × NodeRecordStore × List StoreTask) :=
  let uncached := s.recordsCache.remove r.key
  match (s.recordsCache.get r.key).filter fun existing => existing.1.value = r.value with
  | some (existingRecord, _) =>
    -- The same content is put back, and taken to be stored already.
    (uncached.pushBack clock r.key existingRecord).map fun cache =>
      (.ok (), { s with recordsCache := cache }, [])
  | none =>
    (cacheForPut uncached clock r isClientPut).map fun cache =>
      spawnWrite n cfg { s with recordsCache := cache } r recordType

def markAsStored (key : RecordKey) (validateType : ValidationType)
    (dataType : DataTypes) : NodeRecordStore :=
  let addr := NetworkAddress.recordKey key
  let dist := distance n addr
  { s with
    records := s.records.insert key
      { address := addr, validationType := validateType, dataType := dataType }
    recordsByDistance := s.recordsByDistance.insert dist key
    farthestRecord := match s.farthestRecord with
      | some (farthestRecord, farthestRecordDistance) =>
        if dist > farthestRecordDistance then some (key, dist)
        else some (farthestRecord, farthestRecordDistance)
      | none => some (key, dist) }

/-- The record of a key, from the cache or else from its file if it is in the index. -/
def get (disk : Disk) (key : RecordKey) : Option Record :=
  match s.recordsCache.get key with
  | some (record, _) => some record
  | none => if (s.records.lookup key).isSome then readFromDisk cfg disk key else none

def maxRecordsCount : Nat := 16 * 1024

/-- The index by distance in the order a `BTreeMap` iterates, closest first. -/
def sortedByDistance : List (Nat × RecordKey) :=
  (s.recordsByDistance.entries.map fun e => (e.1, e.2)).insertionSort fun a b => a.1 ≤ b.1

/-- Of the farthest tenth, the keys at ten times the responsible distance or beyond. -/
def irrelevantKeys (responsibleDistance : Nat) : List RecordKey :=
  -- `saturating_mul` of a `U256`
  let increasedDistance := min (responsibleDistance * 10) (2 ^ 256 - 1)
  let targetCleanupCount := s.records.entries.length / 10
  ((s.sortedByDistance.reverse.take targetCleanupCount).filter fun e =>
    increasedDistance ≤ e.1).map Prod.snd

def removeAll (s : NodeRecordStore) : List RecordKey → NodeRecordStore × List StoreTask
  | [] => (s, [])
  | key :: keys =>
    let (removed, spawned) := s.remove n key
    let (store, more) := removed.removeAll keys
    (store, spawned ++ more)

/-- Remove records far out of range, a few at a time, once there are many; the store's own
responsible distance is an argument. -/
def cleanupIrrelevantRecords (responsibleDistanceRange : Option Nat) :
    NodeRecordStore × List StoreTask :=
  if s.records.entries.length < maxRecordsCount / 10 then (s, [])
  else
    match responsibleDistanceRange with
    | none => (s, [])
    | some responsibleDistance =>
      if s.records.entries.length / 10 = 0 then (s, [])
      else s.removeAll n (s.irrelevantKeys responsibleDistance)

def getRecordsWithinDistanceRange (range : Nat) : Nat :=
  (s.recordsByDistance.entries.filter fun e => e.1 < range).length

/-- `close_records_stored` of `quoting_metrics`: without a responsible distance, all records. -/
def closeRecordsStored : (responsibleDistanceRange : Option Nat) → Nat
  | some distanceRange => s.getRecordsWithinDistanceRange distanceRange
  | none => s.records.entries.length

/-- Whether `get` finds the index out of sync with the files, and asks for a prune. -/
def outOfSync (disk : Disk) (key : RecordKey) : Bool :=
  (s.recordsCache.get key).isNone && (s.records.lookup key).isSome
    && (readFromDisk cfg disk key).isNone

end NodeRecordStore

end Autonomi
