/-
A store that is opened again on its own directory.

The index is made anew from the files.

A read looks into the cache before anything else, and the cache starts out empty.  So
reads stay the same just if everything in the cache was on file.
-/
import Autonomi.Proofs.StoreIndex

namespace Autonomi

open Lib NodeRecordStore List

/-- Every file named like a record is the file of its key, and where it belongs. -/
def StorageDir.RecordsInPlace (dir : StorageDir) : Prop :=
  ∀ entry ∈ dir.entries, entry.isFile → ∀ name key, entry.fileName = some name →
    getDataFromFilename name = some key → entry.isFileOf key

/-- The same keys, with the same validation and data types. -/
def SameIndex (s s' : NodeRecordStore) : Prop :=
  ∀ key, (s'.records.lookup key).map (fun entry => (entry.validationType, entry.dataType))
    = (s.records.lookup key).map fun entry => (entry.validationType, entry.dataType)

/-- What is cached is what is on file. -/
def CacheOnFile (cfg : NodeRecordStoreConfig) (d : DriverState) : Prop :=
  ∀ key cached, d.store.recordsCache.get key = some cached →
    readFromDisk cfg d.disk key = some cached.1

variable {n : Node} {cfg : NodeRecordStoreConfig} {d : DriverState} {dir : StorageDir}
  {key : RecordKey} {entry : DirEntry} {record : Record} {dataType : DataTypes}

/-! ### Files by their names -/

theorem isFileOf_iff :
    entry.isFileOf key ↔ entry.isFile ∧ entry.isDirect ∧
      entry.fileName = some (generateFilename key) := by
  unfold DirEntry.isFileOf
  rw [Bool.and_eq_true, Bool.and_eq_true, decide_eq_true_eq, and_assoc]

theorem StorageDir.eq_of_isFileOf {entry' : DirEntry} (hentry : entry ∈ dir.entries)
    (hentry' : entry' ∈ dir.entries) (h : entry.isFileOf key) (h' : entry'.isFileOf key) :
    entry = entry' := by
  by_contra hne
  have hsymm : Std.Symm fun a b : DirEntry => a.isDirect → b.isDirect → ∀ name,
      a.fileName = some name → b.fileName ≠ some name :=
    ⟨fun a b hab hb ha name hbname haname => hab ha hb name haname hbname⟩
  obtain ⟨-, hdirect, hname⟩ := isFileOf_iff.mp h
  obtain ⟨-, hdirect', hname'⟩ := isFileOf_iff.mp h'
  exact dir.unique.forall hentry hentry' hne hdirect hdirect' _ hname hname'

theorem StorageDir.disk_of_isFileOf (hentry : entry ∈ dir.entries) (h : entry.isFileOf key) :
    dir.disk key = entry.content := by
  unfold StorageDir.disk
  cases hfind : dir.entries.find? fun entry => entry.isFileOf key with
  | none => exact absurd h (List.find?_eq_none.mp hfind entry hentry)
  | some found =>
    have hof : found.isFileOf key := List.find?_some (p := fun e : DirEntry => e.isFileOf key) hfind
    rw [dir.eq_of_isFileOf (mem_of_find?_eq_some hfind) hentry hof h]
    rfl

theorem StorageDir.isFileOf_of_disk {bytes : Bytes} (h : dir.disk key = some bytes) :
    ∃ entry ∈ dir.entries, entry.isFileOf key ∧ entry.content = some bytes := by
  obtain ⟨entry, hfind, hcontent⟩ := Option.bind_eq_some_iff.mp h
  exact ⟨entry, mem_of_find?_eq_some hfind,
    List.find?_some (p := fun e : DirEntry => e.isFileOf key) hfind, hcontent⟩

/-! ### The index made anew -/

theorem loaded_of_read (hread : readFromDisk cfg dir.disk key = some record)
    (hdata : record.value.getDataType = some dataType) :
    ∃ entry ∈ dir.entries, entry.isFileOf key ∧ processEntry n cfg entry
      = .loaded key ⟨.recordKey key, existingRecordType n record dataType, dataType⟩ := by
  obtain ⟨bytes, hbytes, hrecord⟩ := Option.bind_eq_some_iff.mp hread
  obtain ⟨entry, hentry, hof, hcontent⟩ := dir.isFileOf_of_disk hbytes
  obtain ⟨hfile, -, hname⟩ := isFileOf_iff.mp hof
  exact ⟨entry, hentry, hof, processEntry_eq_loaded.mpr ⟨hfile, generateFilename key, bytes, record,
    dataType, hname, hexDecode_hexEncode key, hcontent, hrecord, hdata, rfl⟩⟩

theorem read_of_lookup (hplace : dir.RecordsInPlace) {index : IndexEntry}
    (h : (updateRecordsFromAnExistingStore n cfg dir.entries).lookup key = some index) :
    ∃ record dataType, readFromDisk cfg dir.disk key = some record ∧
      record.value.getDataType = some dataType ∧
      index = ⟨.recordKey key, existingRecordType n record dataType, dataType⟩ := by
  rcases Table.mem_of_lookup_foldl_insert _ h with hmem | hnot
  · obtain ⟨entry, hentry, hloaded⟩ := mem_filterMap.mp hmem
    obtain ⟨hfile, filename, bytes, record, dataType, hname, hkey, hcontent, hrecord, hdata, heq⟩ :=
      processEntry_eq_loaded.mp (loadedFrom_eq_some.mp hloaded)
    refine ⟨record, dataType, ?_, hdata, heq⟩
    unfold readFromDisk
    rw [dir.disk_of_isFileOf hentry (hplace entry hentry hfile filename key hname hkey), hcontent]
    exact hrecord
  · cases hnot

/-- **The new index has an entry for a key just if its file holds a record.** -/
theorem lookup_reopened (hplace : dir.RecordsInPlace) :
    (updateRecordsFromAnExistingStore n cfg dir.entries).lookup key
      = (readFromDisk cfg dir.disk key).bind fun record =>
          record.value.getDataType.map fun dataType =>
            ⟨.recordKey key, existingRecordType n record dataType, dataType⟩ := by
  ext index
  rw [Option.bind_eq_some_iff]
  constructor
  · intro h
    obtain ⟨record, dataType, hread, hdata, rfl⟩ := read_of_lookup hplace h
    exact ⟨record, hread, by rw [hdata]; rfl⟩
  · rintro ⟨record, hread, hindex⟩
    obtain ⟨dataType, hdata, rfl⟩ := Option.map_eq_some_iff.mp hindex
    obtain ⟨entry, hentry, -, hloaded⟩ := loaded_of_read hread hdata
    have hmem : key ∈ updateRecordsFromAnExistingStore n cfg dir.entries := by
      refine (Table.mem_foldl_insert _).mpr (.inr
        ⟨⟨key, .recordKey key, existingRecordType n record dataType, dataType⟩, ?_, rfl⟩)
      exact mem_filterMap.mpr ⟨entry, hentry, loadedFrom_eq_some.mpr hloaded⟩
    -- There is an entry, and it can only be this one.
    obtain ⟨index, hlookup⟩ := Table.mem_iff_lookup.mp hmem
    obtain ⟨record', dataType', hread', hdata', rfl⟩ := read_of_lookup hplace hlookup
    cases hread'.symm.trans hread
    cases hdata'.symm.trans hdata
    exact hlookup

theorem read_afterOpening {resists : DirEntry → Bool}
    (hread : readFromDisk cfg dir.disk key = some record)
    (hdata : record.value.getDataType = some dataType) :
    readFromDisk cfg (dir.afterOpening n cfg resists).disk key = some record := by
  obtain ⟨entry, hentry, hof, hloaded⟩ := loaded_of_read hread hdata
  have hkept : entry ∈ (dir.afterOpening n cfg resists).entries := by
    refine mem_filter.mpr ⟨hentry, ?_⟩
    rw [hloaded]
    rfl
  have hsame : (dir.afterOpening n cfg resists).disk key = dir.disk key := by
    rw [StorageDir.disk_of_isFileOf hkept hof, dir.disk_of_isFileOf hentry hof]
  rw [readFromDisk_congr hsame, hread]

/-! ### What agreed before -/

theorem IndexEntry.TellsOf.existing {index : IndexEntry} (h : index.TellsOf n record) :
    existingRecordType n record index.dataType = index.validationType := by
  by_cases hchunk : index.dataType = .chunk
  · obtain ⟨htype, hdata⟩ := h
    rw [hchunk] at hdata ⊢
    unfold localRecordType at htype
    obtain ⟨kind, hkind, hof⟩ := Option.map_eq_some_iff.mp hdata
    rw [hkind] at htype
    cases kind with
    | dataWithPayment t | dataWithMerklePayment t => cases htype
    | dataOnly t =>
      obtain rfl : t = .chunk := hof
      exact Option.some.inj htype
  · rw [h.nonChunk hchunk]
    cases htype : index.dataType with
    | chunk => exact absurd htype hchunk
    | graphEntry | pointer | scratchpad => rfl

/-- Where index and files agree, a key that is not indexed has no file. -/
theorem Agree.disk_of_lookup_none (h : Agree n cfg d key)
    (hnone : d.store.records.lookup key = none) : d.disk key = none := by
  rcases h with ⟨-, hfile⟩ | ⟨entry, record, hentry, -, -⟩
  · exact hfile
  · cases hnone.symm.trans hentry

theorem Agree.read_of_lookup_none (h : Agree n cfg d key)
    (hnone : d.store.records.lookup key = none) : readFromDisk cfg d.disk key = none := by
  unfold readFromDisk
  rw [h.disk_of_lookup_none hnone]
  rfl

theorem sameIndex_reopened {recordsCacheSize : Nat} (hdisk : d.disk = dir.disk)
    (hagree : ∀ key, Agree n cfg d key) (hplace : dir.RecordsInPlace) :
    SameIndex d.store (withConfig n cfg recordsCacheSize dir) := by
  intro key
  show ((updateRecordsFromAnExistingStore n cfg dir.entries).lookup key).map _ = _
  rw [lookup_reopened hplace, ← hdisk]
  rcases hagree key with ⟨hindex, hfile⟩ | ⟨entry, record, hindex, hread, htells⟩
  · rw [hindex, (hagree key).read_of_lookup_none hindex]
    rfl
  · rw [hindex, hread, Option.bind_some, htells.2]
    simp only [Option.map_some, htells.existing]

theorem get_reopened {recordsCacheSize : Nat} {resists : DirEntry → Bool}
    (hdisk : d.disk = dir.disk) (hagree : Agree n cfg d key) (hplace : dir.RecordsInPlace) :
    (withConfig n cfg recordsCacheSize dir).get cfg (dir.afterOpening n cfg resists).disk key
      = readFromDisk cfg d.disk key := by
  have hindexed : (withConfig n cfg recordsCacheSize dir).get cfg
      (dir.afterOpening n cfg resists).disk key
      = if ((updateRecordsFromAnExistingStore n cfg dir.entries).lookup key).isSome then
          readFromDisk cfg (dir.afterOpening n cfg resists).disk key else none := rfl
  rw [hindexed, lookup_reopened hplace, ← hdisk]
  rcases hagree with hagree | ⟨entry, record, hindex, hread, htells⟩
  · rw [Agree.read_of_lookup_none (n := n) (.inl hagree) hagree.1]
    rfl
  · rw [hread, Option.bind_some, htells.2]
    exact read_afterOpening (hdisk ▸ hread) htells.2

theorem get_of_agree (hagree : Agree n cfg d key) :
    d.store.get cfg d.disk key = ((d.store.recordsCache.get key).map Prod.fst).or
      (readFromDisk cfg d.disk key) := by
  unfold NodeRecordStore.get
  cases d.store.recordsCache.get key with
  | some cached => rfl
  | none =>
    cases hlookup : d.store.records.lookup key with
    | none => exact (hagree.read_of_lookup_none hlookup).symm
    | some entry => rfl

/--
**Opening the directory again gives the same index and the same reads if and only if what
is cached is on file**, for a store whose index and files agree.
-/
theorem reopening_preserves_iff (n : Node) (cfg : NodeRecordStoreConfig) (d : DriverState)
    (dir : StorageDir) (recordsCacheSize : Nat) (resists : DirEntry → Bool)
    (hdisk : d.disk = dir.disk) (hagree : ∀ key, Agree n cfg d key)
    (hplace : dir.RecordsInPlace) :
    (SameIndex d.store (.withConfig n cfg recordsCacheSize dir) ∧
      ∀ key, (NodeRecordStore.withConfig n cfg recordsCacheSize dir).get cfg
        (dir.afterOpening n cfg resists).disk key = d.store.get cfg d.disk key) ↔
    CacheOnFile cfg d := by
  constructor
  · rintro ⟨-, hget⟩ key cached hcached
    have hkey := hget key
    rw [get_reopened hdisk (hagree key) hplace, get_of_agree (hagree key), hcached] at hkey
    exact hkey
  · intro hcache
    refine ⟨sameIndex_reopened hdisk hagree hplace, ?_⟩
    intro key
    rw [get_reopened hdisk (hagree key) hplace, get_of_agree (hagree key)]
    cases hcached : d.store.recordsCache.get key with
    | none => rfl
    | some cached => exact hcache key cached hcached

/-! ### A refused record in the cache -/

/-- A driver that has just been started on an empty directory. -/
def DriverState.started (n : Node) (cfg : NodeRecordStoreConfig) (recordsCacheSize : Nat) :
    DriverState where
  store := .withConfig n cfg recordsCacheSize .empty
  disk := StorageDir.empty.disk
  tasks := []
  commands := []

namespace Sample

def oneFile (key : RecordKey) (bytes : Bytes) : StorageDir where
  entries := [⟨true, true, some (generateFilename key), some bytes⟩]
  unique := pairwise_singleton _ _

theorem oneFile_inPlace (key : RecordKey) (bytes : Bytes) :
    (oneFile key bytes).RecordsInPlace := by
  intro entry hentry _ name key' hname hkey
  obtain rfl := mem_singleton.mp hentry
  cases hname
  cases (hexDecode_hexEncode key).symm.trans hkey
  exact isFileOf_iff.mpr ⟨rfl, rfl, rfl⟩

/-- With one key in the index and one file to go with it, that is the whole directory. -/
theorem disk_eq_oneFile {bytes : Bytes} (hagree : ∀ key, Agree n cfg d key)
    (hkeys : d.store.records.keys = [key]) (hbytes : d.disk key = some bytes) :
    d.disk = (oneFile key bytes).disk := by
  funext k
  by_cases hk : k = key
  · subst hk
    have hmem : (⟨true, true, some (generateFilename k), some bytes⟩ : DirEntry)
        ∈ (oneFile k bytes).entries := mem_cons_self
    rw [hbytes, StorageDir.disk_of_isFileOf hmem (isFileOf_iff.mpr ⟨rfl, rfl, rfl⟩)]
  · have hnone : d.store.records.lookup k = none := by
      rw [AList.lookup_eq_none, AList.mem_keys, hkeys, mem_singleton]
      exact hk
    cases hdisk : (oneFile key bytes).disk k with
    | none => exact (hagree k).disk_of_lookup_none hnone
    | some bytes' =>
      obtain ⟨entry, hentry, hof, -⟩ := StorageDir.isFileOf_of_disk hdisk
      obtain rfl := mem_singleton.mp hentry
      have hname := congrArg hexDecode (Option.some.inj (isFileOf_iff.mp hof).2.2)
      unfold generateFilename at hname
      rw [hexDecode_hexEncode, hexDecode_hexEncode] at hname
      exact absurd (Option.some.inj hname).symm hk

def oneStored : List DriverLabel :=
  [.put (recordAt 1) true, .handle 0 [1, 1], .runTask 0 .succeeded, .handle 0 []]

/-- A client's record is stored, and another is refused: the store is full, and it is farther. -/
def oneRefused : List DriverLabel := oneStored ++ [.put (recordAt 3) true, .handle 0 [2, 2]]

theorem started_agree (key : RecordKey) :
    Agree node (smallStore 1) (.started node (smallStore 1) 25) key := .inl ⟨rfl, rfl⟩

def cachedIn (d : DriverState) : List (RecordKey × Record) :=
  d.store.recordsCache.recordsCache.entries.map fun e => (e.1, e.2.1)

theorem mem_cachedIn {cached : Record × Time} (h : d.store.recordsCache.get key = some cached) :
    (key, cached.1) ∈ cachedIn d :=
  mem_map.mpr ⟨⟨key, cached⟩, AList.mem_lookup_iff.mp h, rfl⟩

/-- What a run has left: whether there is nothing to do, the keys, a file, and the cache. -/
structure Left where
  idle : Bool
  keys : List RecordKey
  file : Option Bytes
  cached : List (RecordKey × Record)
deriving DecidableEq

def leftBy (d : DriverState) : Left where
  idle := d.tasks.isEmpty && d.commands.isEmpty
  keys := d.store.records.keys
  file := d.disk [1]
  cached := cachedIn d

/-- What a run from the start leaves, if it leaves one record and nothing to do. -/
theorem oneFile_of_run (labels : List DriverLabel) (cached : List (RecordKey × Record))
    (h : (runGuarded (driverStep node (smallStore 1)) (OneInFlight (smallStore 1))
      (.started node (smallStore 1) 25) labels).map leftBy
        = some ⟨true, [[1]], some [0], cached⟩) :
    ∃ d, runSteps (driverStep node (smallStore 1)) (.started node (smallStore 1) 25) labels
        = some d ∧ d.Drained ∧ (∀ key, Agree node (smallStore 1) d key) ∧
      d.disk = (oneFile [1] [0]).disk ∧ cachedIn d = cached := by
  obtain ⟨d, hrun, hshown⟩ := Option.map_eq_some_iff.mp h
  obtain ⟨hdone, hkeys, hbytes, hcached⟩ := Left.mk.inj hshown
  have hdrained : d.Drained := by
    simpa [DriverState.Drained] using hdone
  have hguarded := guardedRun_of_runGuarded hrun
  have hagree := agree_of_run ⟨rfl, rfl⟩ started_agree hguarded hdrained
  exact ⟨d, hguarded.runSteps_eq, hdrained, hagree, disk_eq_oneFile hagree hkeys hbytes, hcached⟩

end Sample

open Sample

theorem reopening_preserves_sample :
    ∃ d, runSteps (driverStep Sample.node (Sample.smallStore 1))
        (.started Sample.node (Sample.smallStore 1) 25) Sample.oneStored = some d ∧
      SameIndex d.store (.withConfig Sample.node (Sample.smallStore 1) 25 (Sample.oneFile [1] [0])) ∧
      ∀ key, (NodeRecordStore.withConfig Sample.node (Sample.smallStore 1) 25
          (Sample.oneFile [1] [0])).get (Sample.smallStore 1)
            ((Sample.oneFile [1] [0]).afterOpening Sample.node (Sample.smallStore 1)
              fun _ => false).disk key
        = d.store.get (Sample.smallStore 1) d.disk key := by
  obtain ⟨d, hrun, -, hagree, hdisk, hcached⟩ := oneFile_of_run
    oneStored [([1], recordAt 1)] (by decide)
  have hcache : CacheOnFile (smallStore 1) d := by
    intro key cached hget
    have hmem := mem_cachedIn hget
    rw [hcached] at hmem
    obtain ⟨rfl, hrecord⟩ := Prod.mk.inj (mem_singleton.mp hmem)
    rw [hdisk, hrecord]
    decide
  exact ⟨d, hrun, (reopening_preserves_iff node (smallStore 1) d
    (oneFile [1] [0]) 25 (fun _ => false) hdisk hagree (oneFile_inPlace [1] [0])).mpr hcache⟩

/-- A refused record is read from the cache, and no more once the store is opened again. -/
theorem reopening_not_always_preserves :
    ¬ ∀ (n : Node) (cfg : NodeRecordStoreConfig) (recordsCacheSize : Nat)
        (labels : List DriverLabel) (d : DriverState) (dir : StorageDir)
        (resists : DirEntry → Bool),
      runSteps (driverStep n cfg) (.started n cfg recordsCacheSize) labels = some d →
      d.Drained → d.disk = dir.disk → (∀ key, Agree n cfg d key) → dir.RecordsInPlace →
      SameIndex d.store (.withConfig n cfg recordsCacheSize dir) ∧
        ∀ key, (NodeRecordStore.withConfig n cfg recordsCacheSize dir).get cfg
          (dir.afterOpening n cfg resists).disk key = d.store.get cfg d.disk key := by
  intro h
  obtain ⟨d, hrun, hdrained, hagree, hdisk, hcached⟩ := oneFile_of_run
    oneRefused [([3], recordAt 3), ([1], recordAt 1)] (by decide)
  have hget := (h _ _ _ _ d (oneFile [1] [0]) (fun _ => false) hrun hdrained hdisk hagree
    (oneFile_inPlace [1] [0])).2 [3]
  rw [get_reopened hdisk (hagree [3]) (oneFile_inPlace [1] [0]), get_of_agree (hagree [3])] at hget
  have hmem : ([3], recordAt 3) ∈ cachedIn d := by
    rw [hcached]
    exact mem_cons_self
  obtain ⟨e, he, hshown⟩ := mem_map.mp hmem
  obtain ⟨hkey, hrecord⟩ := Prod.mk.inj hshown
  have hcache : d.store.recordsCache.get [3] = some e.2 := hkey ▸ AList.mem_lookup_iff.mpr he
  rw [hcache, Option.map_some, hdisk, hrecord] at hget
  exact absurd hget (by decide)

end Autonomi
