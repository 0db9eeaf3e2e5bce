/-
What the operations of the record store change.

Of the store, the index and the cache decide what a key reads as.  For each
operation there is one lemma on the index, and one on the cache where it matters;
nothing later unfolds an operation again.
-/
import Autonomi.Lib.Table
import Autonomi.Node.Driver

namespace Autonomi

open Lib Relation

variable {n : Node} {cfg : NodeRecordStoreConfig} {s s' : NodeRecordStore} {key k : RecordKey}

/-! ### The cache -/

namespace RecordCache

variable {c c' : RecordCache}

theorem get_remove : (c.remove key).get k = if k = key then none else c.get k := by
  unfold remove get
  by_cases h : k = key
  · rw [if_pos h, h, AList.lookup_erase]
  · rw [if_neg h, AList.lookup_erase_ne h]

variable {record : Record}

theorem get_pushBack {clock : List Time} (h : c.pushBack clock key record = some c') :
    ∃ expiry, c'.get key = some (record, expiry) := by
  obtain ⟨⟨freed, rest⟩, -, h⟩ := Option.bind_eq_some_iff.mp h
  cases rest with
  | nil => cases h
  | cons now rest =>
    cases h
    exact ⟨now + freed.cacheTimeout, AList.lookup_insert _⟩

/-! ### Making room -/

/-- An entry goes that expires no later than any other. -/
def EvictsFirst (c c' : RecordCache) : Prop :=
  ∃ e ∈ c.recordsCache.entries, (∀ e' ∈ c.recordsCache.entries, e.2.2 ≤ e'.2.2) ∧ c' = c.remove e.1

/-- Enough readings that come after all entries were put in. -/
def Advances (c : RecordCache) (latest : Time) (clock : List Time) : Prop :=
  (∀ e ∈ c.recordsCache.entries, e.2.2 ≤ latest) ∧
    c.recordsCache.entries.length ≤ clock.countP fun now => latest < now + c.cacheTimeout

theorem removeOldestEntry_cases (c : RecordCache) (now : Time) :
    (c.removeOldestEntry now = c ∧ ∀ e ∈ c.recordsCache.entries, now + c.cacheTimeout ≤ e.2.2) ∨
      c.EvictsFirst (c.removeOldestEntry now) := by
  unfold removeOldestEntry
  obtain ⟨hleast, ⟨hnone, hbound⟩ | ⟨e, he, hsome, htime⟩⟩ := foldl_least Sigma.fst
    (fun e => e.2.2) (now + c.cacheTimeout) c.recordsCache.entries rfl
  · rw [oldest, hnone]
    exact .inl ⟨rfl, hbound ▸ hleast⟩
  · rw [oldest, hsome]
    exact .inr ⟨e, he, htime ▸ hleast, rfl⟩

theorem evict_ends {latest : Time} (clock : List Time) : ∀ {c : RecordCache}, 0 < c.cacheSize →
    c.Advances latest clock → ∃ freed rest, evict clock c = some (freed, rest) ∧
      freed.recordsCache.entries.length < c.cacheSize ∧ ReflTransGen EvictsFirst c freed := by
  induction clock with
  | nil =>
    rintro c hsize ⟨-, hfew⟩
    have hroom := hfew.trans_lt hsize
    rw [evict, if_neg hroom.not_ge]
    exact ⟨c, [], rfl, hroom, .refl⟩
  | cons now clock ih =>
    rintro c hsize ⟨hlatest, hmany⟩
    unfold evict
    split
    · rename_i hfull
      -- a reading that lets no entry go is not one of those counted
      rcases c.removeOldestEntry_cases now with ⟨hsame, hnone⟩ | hevicts
      · rw [hsame]
        refine ih hsize ⟨hlatest, hmany.trans ?_⟩
        have hentry := List.getElem_mem (hsize.trans_le hfull)
        have hearly := (hnone _ hentry).trans (hlatest _ hentry)
        rw [List.countP_cons_of_neg (by simpa using hearly)]
      · obtain ⟨e, he, hleast, heq⟩ := hevicts
        have hless : (c.remove e.1).recordsCache.entries.length
            = c.recordsCache.entries.length - 1 := by
          rw [remove, Table.length_erase, if_pos]
          exact Table.mem_iff_lookup.mpr ⟨e.2, AList.mem_lookup_iff.mpr he⟩
        have hmore : c.recordsCache.entries.length - 1
            ≤ clock.countP fun now => latest < now + c.cacheTimeout := by
          rw [List.countP_cons] at hmany
          split at hmany <;> omega
        obtain ⟨freed, rest, hrun, hroom, hsteps⟩ := ih (c := c.remove e.1) hsize
          ⟨fun e' he' => hlatest e' ((List.kerase_sublist _ _).subset he'), hless.trans_le hmore⟩
        exact ⟨freed, rest, heq ▸ hrun, hroom, .head ⟨e, he, hleast, rfl⟩ hsteps⟩
    · rename_i hroom
      exact ⟨c, _, rfl, not_le.mp hroom, .refl⟩

end RecordCache

variable {r : Record}

/-! ### The index -/

namespace NodeRecordStore

theorem lookup_pruningIndexingCache :
    (s.pruningIndexingCache n key).records.lookup k
      = if k = key then none else s.records.lookup k := by
  unfold pruningIndexingCache
  cases hentry : s.records.lookup key with
  | none =>
    by_cases h : k = key
    · rw [if_pos h, h, hentry]
    · rw [if_neg h]
  | some entry =>
    by_cases h : k = key
    · rw [if_pos h, h]
      exact AList.lookup_erase key s.records
    · rw [if_neg h]
      exact AList.lookup_erase_ne h

theorem farthestRecord_pruningIndexingCache :
    (s.pruningIndexingCache n key).farthestRecord = s.farthestRecord := by
  unfold pruningIndexingCache
  cases s.records.lookup key with
  | none | some entry => rfl

/-- A removal prunes the key, drops it from the cache and has its file removed; beside that only
the farthest record changes, if it was the key. -/
theorem remove_eq (n : Node) (s : NodeRecordStore) (key : RecordKey) : ∃ farthestRecord,
    s.remove n key = ({ s.pruningIndexingCache n key with
      recordsCache := s.recordsCache.remove key, farthestRecord }, [.removeFile key]) ∧
    (farthestRecord = (s.pruningIndexingCache n key).calculateFarthest n ∨
      farthestRecord = s.farthestRecord ∧ ∀ far ∈ s.farthestRecord, far.1 ≠ key) := by
  have hkept : (s.pruningIndexingCache n key).recordsCache = s.recordsCache := by
    unfold pruningIndexingCache
    cases s.records.lookup key with
    | none | some entry => rfl
  simp only [remove, hkept, farthestRecord_pruningIndexingCache]
  cases s.farthestRecord with
  | none => exact ⟨none, rfl, .inr ⟨rfl, nofun⟩⟩
  | some far =>
    by_cases h : far.1 = key
    · exact ⟨_, congrArg (·, _) (if_pos h), .inl rfl⟩
    · refine ⟨_, congrArg (·, _) (if_neg h), .inr ⟨rfl, ?_⟩⟩
      rintro _ ⟨⟩
      exact h

theorem lookup_remove :
    (s.remove n key).1.records.lookup k = if k = key then none else s.records.lookup k := by
  obtain ⟨_, hremove, -⟩ := remove_eq n s key
  rw [hremove]
  exact lookup_pruningIndexingCache

theorem lookup_markAsStored {validateType : ValidationType} {dataType : DataTypes} :
    (s.markAsStored n key validateType dataType).records.lookup k
      = if k = key then some ⟨.recordKey key, validateType, dataType⟩
        else s.records.lookup k := by
  by_cases h : k = key
  · rw [if_pos h, h]
    exact AList.lookup_insert _
  · rw [if_neg h]
    exact AList.lookup_insert_ne h

variable {recordType : ValidationType} {res : Except StoreError Unit} {spawned : List StoreTask}

/-- What becomes of the index when a write is spawned: nothing if there is room, and else
the farthest record goes, unless that is closer. -/
theorem spawnWrite_cases (h : s.spawnWrite n cfg r recordType = (res, s', spawned)) :
    ((∃ far dist, s.farthestRecord = some (far, dist) ∧
      cfg.maxRecords ≤ s.records.entries.length ∧ dist < distance n (.recordKey r.key)) ∧
      res = .error .maxRecords ∧ spawned = [] ∧ s' = s) ∨
    (res = .ok () ∧ spawned = [.write r recordType] ∧ s' = s ∧
      (s.records.entries.length < cfg.maxRecords ∨ s.farthestRecord = none)) ∨
    (∃ far dist, s.farthestRecord = some (far, dist) ∧
      cfg.maxRecords ≤ s.records.entries.length ∧ distance n (.recordKey r.key) ≤ dist ∧
      res = .ok () ∧ spawned = [.removeFile far, .write r recordType] ∧
      s' = (s.remove n far).1) := by
  unfold spawnWrite pruneRecordsIfNeeded at h
  by_cases hroom : s.records.entries.length < cfg.maxRecords
  · rw [if_pos hroom] at h
    cases h
    exact .inr (.inl ⟨rfl, rfl, rfl, .inl hroom⟩)
  rw [if_neg hroom] at h
  cases hfar : s.farthestRecord with
  | none =>
    rw [hfar] at h
    cases h
    exact .inr (.inl ⟨rfl, rfl, rfl, .inr rfl⟩)
  | some far =>
    rw [hfar] at h
    dsimp only at h
    by_cases hdist : far.2 < distance n (.recordKey r.key)
    · rw [if_pos hdist] at h
      cases h
      exact .inl ⟨⟨far.1, far.2, rfl, not_lt.mp hroom, hdist⟩, rfl, rfl, rfl⟩
    · rw [if_neg hdist] at h
      cases h
      exact .inr (.inr ⟨far.1, far.2, rfl, not_lt.mp hroom, not_lt.mp hdist, rfl, rfl, rfl⟩)

variable {clock : List Time} {isClientPut : Bool}

/-- A put of new content that is not cached under its key. -/
theorem putVerified_new
    (hnew : ¬ ∃ e, s.recordsCache.get r.key = some e ∧ e.1.value = r.value) :
    s.putVerified n cfg clock r recordType isClientPut =
      (cacheForPut (s.recordsCache.remove r.key) clock r isClientPut).map fun cache =>
        spawnWrite n cfg { s with recordsCache := cache } r recordType := by
  have hfilter : ((s.recordsCache.get r.key).filter fun existing => existing.1.value = r.value)
      = none := by
    rw [Option.filter_eq_none_iff]
    intro e he
    simpa using fun hsame => hnew ⟨e, he, hsame⟩
  unfold putVerified
  simp only [hfilter]

variable (h : s.putVerified n cfg clock r recordType isClientPut = some (res, s', spawned))

include h

theorem putVerified_cached
    (hcached : ∃ e, s.recordsCache.get r.key = some e ∧ e.1.value = r.value) :
    res = .ok () ∧ spawned = [] ∧ s'.records = s.records := by
  obtain ⟨existing, hget, hsame⟩ := hcached
  have hfilter : ((s.recordsCache.get r.key).filter fun existing => existing.1.value = r.value)
      = some existing := by
    simp [hget, hsame]
  unfold putVerified at h
  simp only [hfilter] at h
  obtain ⟨cache, -, heq⟩ := Option.map_eq_some_iff.mp h
  cases heq
  exact ⟨rfl, rfl, rfl⟩

/-- What a put can do to the index: nothing, a write spawned, or one after the farthest
record has gone. -/
theorem putVerified_cases :
    (spawned = [] ∧ s'.records = s.records) ∨
    (spawned = [.write r recordType] ∧ s'.records = s.records ∧
      (s.records.entries.length < cfg.maxRecords ∨ s.farthestRecord = none)) ∨
    (∃ far dist, s.farthestRecord = some (far, dist) ∧
      cfg.maxRecords ≤ s.records.entries.length ∧ distance n (.recordKey r.key) ≤ dist ∧
      spawned = [.removeFile far, .write r recordType] ∧
      ∀ k, s'.records.lookup k = if k = far then none else s.records.lookup k) := by
  by_cases hcached : ∃ e, s.recordsCache.get r.key = some e ∧ e.1.value = r.value
  · exact .inl (putVerified_cached h hcached).2
  · rw [putVerified_new hcached] at h
    obtain ⟨cache, -, heq⟩ := Option.map_eq_some_iff.mp h
    rcases spawnWrite_cases heq with ⟨-, -, hspawned, rfl⟩ | ⟨-, hspawned, rfl, hroom⟩ |
      ⟨far, dist, hfar, hfull, hdist, -, hspawned, rfl⟩
    · exact .inl ⟨hspawned, rfl⟩
    · exact .inr (.inl ⟨hspawned, rfl, hroom⟩)
    · exact .inr (.inr ⟨far, dist, hfar, hfull, hdist, hspawned, fun k => lookup_remove⟩)

/-- A put of new content, with room: a write is spawned, the index stays, and at most this
record is cached under its key. -/
theorem putVerified_room (hroom : s.records.entries.length < cfg.maxRecords)
    (hnew : ∀ e, s.recordsCache.get r.key = some e → e.1.value ≠ r.value) :
    spawned = [.write r recordType] ∧ s'.records = s.records ∧
      ∀ e, s'.recordsCache.get r.key = some e → e.1 = r := by
  rw [putVerified_new fun ⟨e, hget, hsame⟩ => hnew e hget hsame] at h
  obtain ⟨cache, hcache, hspawn⟩ := Option.map_eq_some_iff.mp h
  unfold spawnWrite pruneRecordsIfNeeded at hspawn
  rw [if_pos hroom] at hspawn
  cases hspawn
  refine ⟨rfl, rfl, ?_⟩
  intro e he
  cases isClientPut with
  | true =>
    obtain ⟨expiry, hget⟩ := RecordCache.get_pushBack hcache
    cases hget.symm.trans he
    rfl
  | false =>
    cases hcache
    have hnone : (s.recordsCache.remove r.key).get r.key = none := by
      rw [RecordCache.get_remove, if_pos rfl]
    cases hnone.symm.trans he

end NodeRecordStore

/-! ### File tasks -/

theorem run_write_cases (cfg : NodeRecordStoreConfig) (disk : Disk) (outcome : FileOutcome)
    (record : Record) (recordType : ValidationType) :
    StoreTask.run cfg disk outcome (.write record recordType) = (disk, []) ∨
    (∃ bytes dataType, prepareRecordBytes cfg record = some bytes ∧
      record.value.getDataType = some dataType ∧ outcome = .succeeded ∧
      StoreTask.run cfg disk outcome (.write record recordType)
        = (Function.update disk record.key (some bytes),
            [.addLocalRecordAsStored record.key recordType dataType])) ∨
    (∃ left, outcome = .failed left ∧
      StoreTask.run cfg disk outcome (.write record recordType)
        = (Function.update disk record.key left, [.removeFailedLocalRecord record.key])) := by
  cases hdata : record.value.getDataType with
  | none => exact .inl (by simp only [StoreTask.run, hdata])
  | some dataType =>
    cases hbytes : prepareRecordBytes cfg record with
    | none => exact .inl (by simp only [StoreTask.run, hdata, hbytes])
    | some bytes =>
      cases outcome with
      | succeeded =>
        exact .inr (.inl ⟨bytes, dataType, rfl, rfl, rfl,
          by simp only [StoreTask.run, hdata, hbytes]⟩)
      | failed left =>
        exact .inr (.inr ⟨left, rfl, by simp only [StoreTask.run, hdata, hbytes]⟩)

theorem run_write_succeeded (hdata : record.value.getDataType.isSome)
    (hbytes : (prepareRecordBytes cfg record).isSome) (disk : Disk) (recordType : ValidationType) :
    ∃ bytes dataType, prepareRecordBytes cfg record = some bytes ∧
      StoreTask.run cfg disk .succeeded (.write record recordType)
        = (Function.update disk record.key (some bytes),
            [.addLocalRecordAsStored record.key recordType dataType]) := by
  obtain ⟨dataType, hdata⟩ := Option.isSome_iff_exists.mp hdata
  obtain ⟨bytes, hbytes⟩ := Option.isSome_iff_exists.mp hbytes
  exact ⟨bytes, dataType, hbytes, by simp only [StoreTask.run, hdata, hbytes]⟩

theorem readFromDisk_written {bytes : Bytes} (h : prepareRecordBytes cfg record = some bytes)
    (disk : Disk) :
    readFromDisk cfg (Function.update disk record.key (some bytes)) record.key = some record := by
  unfold readFromDisk
  rw [Function.update_self]
  show (cfg.cipher.decrypt _ bytes).map _ = _
  rw [cfg.cipher.decrypt_encrypt h]
  rfl

/-! ### Steps of the driver -/

section Steps

variable {d d' : DriverState} {i : Nat} {clock : List Time} {outcome : FileOutcome}

def DriverState.handled (d : DriverState) (store : NodeRecordStore) (rest : List LocalSwarmCmd)
    (spawned : List StoreTask) : DriverState :=
  { d with store := store, commands := rest, tasks := d.tasks ++ spawned }

theorem driverStep_handle (h : driverStep n cfg d (.handle i clock) = some d') :
    ∃ cmd rest store spawned, Pool.take d.commands i = some (cmd, rest) ∧
      handleLocalCmd n cfg d.store clock cmd = some (store, spawned) ∧
      d' = d.handled store rest spawned := by
  obtain ⟨⟨cmd, rest⟩, htake, h⟩ := Option.bind_eq_some_iff.mp h
  obtain ⟨⟨store, spawned⟩, hhandle, h⟩ := Option.bind_eq_some_iff.mp h
  exact ⟨cmd, rest, store, spawned, htake, hhandle, (Option.some.inj h).symm⟩

def DriverState.ran (d : DriverState) (disk : Disk) (rest : List StoreTask)
    (sent : List LocalSwarmCmd) : DriverState :=
  { d with disk := disk, tasks := rest, commands := d.commands ++ sent }

theorem driverStep_runTask (h : driverStep n cfg d (.runTask i outcome) = some d') :
    ∃ task rest, Pool.take d.tasks i = some (task, rest) ∧
      d' = d.ran (task.run cfg d.disk outcome).1 rest (task.run cfg d.disk outcome).2 := by
  obtain ⟨⟨task, rest⟩, htake, h⟩ := Option.bind_eq_some_iff.mp h
  exact ⟨task, rest, htake, (Option.some.inj h).symm⟩

end Steps

end Autonomi
