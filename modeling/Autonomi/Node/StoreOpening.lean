/-
Opening a record store on a directory that may hold records already.

The directory is walked, with everything below it, and each file is tried: its name has
to be the hexadecimal form of a key, its content has to decrypt under that key, and what
comes out has to have a record header.  A file that fails to decrypt or to parse is
removed; one whose name is no key is left where it is.
-/
import Autonomi.Node.RecordStore

namespace Autonomi

open Lib

structure DirEntry where
  isFile : Bool
  /-- Directly in the storage directory, and not in one below. -/
  isDirect : Bool
  /-- `none` if it is not Unicode. -/
  fileName : Option String
  /-- What reading it gives, if it can be read. -/
  content : Option Bytes
deriving DecidableEq

structure StorageDir where
  entries : List DirEntry
  /-- No two entries of a directory have the same name. -/
  unique : entries.Pairwise fun a b => a.isDirect → b.isDirect → ∀ name,
    a.fileName = some name → b.fileName ≠ some name

def generateFilename (key : RecordKey) : String := hexEncode key

def getDataFromFilename (hexStr : String) : Option RecordKey := hexDecode hexStr

/-- The entry is the file a key's record is kept in. -/
def DirEntry.isFileOf (entry : DirEntry) (key : RecordKey) : Bool :=
  entry.isFile && entry.isDirect && entry.fileName = some (generateFilename key)

def StorageDir.disk (dir : StorageDir) : Disk := fun key =>
  (dir.entries.find? fun entry => entry.isFileOf key).bind DirEntry.content

/-- What becomes of a file when the store is opened. -/
inductive EntryOutcome
  | loaded (key : RecordKey) (entry : IndexEntry)
  | cleanedUp
  | skipped
deriving DecidableEq

variable (n : Node) (cfg : NodeRecordStoreConfig)

def existingRecordType (record : Record) : DataTypes → ValidationType
  | .chunk => .chunk
  | _ => .nonChunk (record.value.contentHash n.crypto n.serialize)

def processEntry (entry : DirEntry) : EntryOutcome :=
  if entry.isFile then
    match entry.fileName with
    | none => .cleanedUp
    | some filename =>
      match getDataFromFilename filename with
      | none => .skipped
      | some key =>
        match entry.content with
        | none => .skipped
        | some bytes =>
          match getRecordFromBytes cfg bytes key with
          -- encrypted under other details
          | none => .cleanedUp
          | some record =>
            match record.value.getDataType with
            | none => .cleanedUp
            | some dataType =>
              .loaded key ⟨.recordKey key, existingRecordType n record dataType, dataType⟩
  else .skipped

def loadedFrom (entry : DirEntry) : Option (Σ _ : RecordKey, IndexEntry) :=
  match processEntry n cfg entry with
  | .loaded key entry => some ⟨key, entry⟩
  | .cleanedUp => none
  | .skipped => none

/-- `update_records_from_an_existing_store`; of two files for one key the later counts. -/
def updateRecordsFromAnExistingStore (entries : List DirEntry) :
    AList fun _ : RecordKey => IndexEntry :=
  (entries.filterMap (loadedFrom n cfg)).foldl (fun records e => records.insert e.1 e.2) ∅

/-- The directory after the store was opened; a file may resist being removed. -/
def StorageDir.afterOpening (dir : StorageDir) (resists : DirEntry → Bool) : StorageDir where
  entries := dir.entries.filter fun entry =>
    processEntry n cfg entry ≠ .cleanedUp || resists entry
  unique := dir.unique.sublist List.filter_sublist

def cacheTimeout : Time := 360

def recordsByDistanceOf (records : AList fun _ : RecordKey => IndexEntry) :
    AList fun _ : Nat => RecordKey :=
  records.entries.foldl
    (fun byDistance e => byDistance.insert (NodeRecordStore.distance n e.2.address) e.1) ∅

def NodeRecordStore.withConfig (recordsCacheSize : Nat) (dir : StorageDir) : NodeRecordStore :=
  let records := updateRecordsFromAnExistingStore n cfg dir.entries
  let recordStore : NodeRecordStore :=
    { records
      recordsByDistance := recordsByDistanceOf n records
      recordsCache := ⟨∅, recordsCacheSize, cacheTimeout⟩
      farthestRecord := none }
  { recordStore with farthestRecord := recordStore.calculateFarthest n }

end Autonomi
