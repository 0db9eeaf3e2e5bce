/-
How many records the index can come to hold.

`max_records` is compared with the size of the index when a record is put.  The key is
added to the index only later, after its file has been written and the driver has been
told, and nothing is compared then.  Puts on their way are not counted, so two of them
can be let in for the one place that is left.

A key is claimed if it is in the index, or if a write or the report of one is on its way
for it.
-/
import Autonomi.Proofs.StoreConsistency

namespace Autonomi

open Lib List DriverState

/-! ### Keys that are claimed -/

def StoreTask.writes : StoreTask → Option RecordKey
  | .write record _ => some record.key
  | .removeFile _ => none

def LocalSwarmCmd.adds : LocalSwarmCmd → Option RecordKey
  | .addLocalRecordAsStored key _ _ => some key
  | .putLocalRecord _ _ => none
  | .removeFailedLocalRecord _ => none
  | .removeOutOfSyncEntry _ => none

def DriverState.inFlight (d : DriverState) : Finset RecordKey :=
  (d.tasks.filterMap StoreTask.writes).toFinset ∪
    (d.commands.filterMap LocalSwarmCmd.adds).toFinset

/-- The keys that are in the index or on their way to it. -/
def DriverState.claimed (d : DriverState) : Finset RecordKey :=
  d.store.records.keys.toFinset ∪ d.inFlight

inductive StoreLabel
  /-- `put_verified` is called. -/
  | putVerified (record : Record) (recordType : ValidationType) (isClientPut : Bool)
      (clock : List Time)
  /-- Anything else the driver or a task does. -/
  | driver (label : DriverLabel)

section Room

variable (n : Node) (cfg : NodeRecordStoreConfig)

variable (d : DriverState)

/-- A call of `put_verified`, or a step of the driver and its tasks. -/
def storeStep : StoreLabel → Option DriverState
  | .putVerified record recordType isClientPut clock =>
    (d.store.putVerified n cfg clock record recordType isClientPut).map fun result =>
      { d with store := result.2.1, tasks := d.tasks ++ result.2.2 }
  | .driver label => driverStep n cfg d label

/-- The farthest record decides about a full store: the record is refused, or the farthest
gives way for good. -/
def FarthestDecides (key : RecordKey) : Prop :=
  cfg.maxRecords ≤ d.store.records.entries.length ∧ ∃ far ∈ d.store.farthestRecord,
    far.2 < NodeRecordStore.distance n (.recordKey key) ∨
      ((d.store.records.lookup far.1).isSome ∧ far.1 ∉ d.inFlight)

/-- There is room for the record, counting what is on its way. -/
def RoomFor (record : Record) : Prop :=
  (∃ existing ∈ d.store.recordsCache.get record.key, existing.1.value = record.value) ∨
    record.key ∈ d.claimed ∨ d.claimed.card < cfg.maxRecords ∨ FarthestDecides n cfg d record.key

/-- Records are put only if there is room for them. -/
def PutsHaveRoom : StoreLabel → Prop
  | .putVerified record _ _ _ => RoomFor n cfg d record
  | .driver (.handle i _) =>
    ∀ record ∈ d.putAt i, (localRecordType n record).isSome → RoomFor n cfg d record
  | .driver _ => True

instance (d : DriverState) (key : RecordKey) : Decidable (FarthestDecides n cfg d key) :=
  inferInstanceAs (Decidable (_ ∧ ∃ far ∈ d.store.farthestRecord, _))

instance (d : DriverState) (record : Record) : Decidable (RoomFor n cfg d record) :=
  inferInstanceAs (Decidable ((∃ existing ∈ d.store.recordsCache.get record.key, _) ∨ _ ∨ _ ∨ _))

instance (d : DriverState) : (label : StoreLabel) → Decidable (PutsHaveRoom n cfg d label)
  | .putVerified record _ _ _ => inferInstanceAs (Decidable (RoomFor n cfg d record))
  | .driver (.handle i _) => inferInstanceAs (Decidable
      (∀ record ∈ d.putAt i, (localRecordType n record).isSome → RoomFor n cfg d record))
  | .driver (.runTask _ _) | .driver (.get _) | .driver (.put _ _) | .driver (.remove _) =>
    isTrue trivial

end Room

variable {n : Node} {cfg : NodeRecordStoreConfig} {d d' : DriverState} {key : RecordKey}

theorem DriverState.mem_inFlight : key ∈ d.inFlight ↔
    (∃ task ∈ d.tasks, task.writes = some key) ∨ ∃ cmd ∈ d.commands, cmd.adds = some key := by
  simp [inFlight]

theorem DriverState.mem_claimed :
    key ∈ d.claimed ↔ (d.store.records.lookup key).isSome ∨ key ∈ d.inFlight := by
  rw [claimed, Finset.mem_union, mem_toFinset, AList.lookup_isSome, AList.mem_keys]

theorem DriverState.length_le_claimed : d.store.records.entries.length ≤ d.claimed.card := by
  have hkeys : d.store.records.keys.toFinset.card = d.store.records.entries.length := by
    rw [toFinset_card_of_nodup d.store.records.keys_nodup]
    exact length_map _
  rw [← hkeys]
  exact Finset.card_le_card Finset.subset_union_left

theorem DriverState.claimed_of_drained (h : d.Drained) :
    d.claimed.card = d.store.records.entries.length := by
  have hnone : d.inFlight = ∅ := by
    rw [inFlight, h.1, h.2]
    rfl
  rw [claimed, hnone, Finset.union_empty, toFinset_card_of_nodup d.store.records.keys_nodup]
  exact length_map _

/-! ### What a put claims -/

theorem isSome_of_lookup_ite {records records' : AList fun _ : RecordKey => IndexEntry}
    (h : ∀ k, records'.lookup k = if k = key then none else records.lookup k) (k : RecordKey)
    (hk : (records'.lookup k).isSome) : (records.lookup k).isSome := by
  rw [h] at hk
  by_cases heq : k = key
  · rw [if_pos heq] at hk
    cases hk
  · rwa [if_neg heq] at hk

section Put

variable {record : Record} {recordType : ValidationType} {store : NodeRecordStore}
  {spawned : List StoreTask} {rest : List LocalSwarmCmd} (hrest : rest ⊆ d.commands)

include hrest

/-- What is claimed after a command is in the index then, was on its way, or is what the command
has spawned a write for. -/
theorem claimed_handled_subset {claims : Finset RecordKey} (hflight : d.inFlight ⊆ claims)
    (hindex : ∀ k, (store.records.lookup k).isSome → k ∈ claims)
    (hspawned : ∀ k ∈ spawned.filterMap StoreTask.writes, k ∈ claims) :
    (d.handled store rest spawned).claimed ⊆ claims := by
  intro k hk
  rcases mem_claimed.mp hk with hindexed | hk
  · exact hindex k hindexed
  rcases mem_inFlight.mp hk with ⟨task, htask, hwrites⟩ | ⟨cmd, hcmd, hadds⟩
  · rcases mem_append.mp htask with hold | hnew
    · exact hflight (mem_inFlight.mpr (.inl ⟨task, hold, hwrites⟩))
    · exact hspawned k (mem_filterMap.mpr ⟨task, hnew, hwrites⟩)
  · exact hflight (mem_inFlight.mpr (.inr ⟨cmd, hrest hcmd, hadds⟩))

section Index

variable (hindex : ∀ k, (store.records.lookup k).isSome → (d.store.records.lookup k).isSome)

include hindex

/-- A command that adds nothing to the index and spawns no write claims nothing. -/
theorem claimed_handled_none (hspawned : spawned.filterMap StoreTask.writes = []) :
    (d.handled store rest spawned).claimed ⊆ d.claimed := by
  refine claimed_handled_subset hrest Finset.subset_union_right ?_ (hspawned ▸ nofun)
  intro k hk
  exact mem_claimed.mpr (.inl (hindex k hk))

theorem claimed_handled_write (hspawned : spawned.filterMap StoreTask.writes = [key]) :
    (d.handled store rest spawned).claimed ⊆ insert key d.claimed := by
  refine claimed_handled_subset hrest
    (Finset.subset_union_right.trans (Finset.subset_insert _ _)) ?_ ?_
  · intro k hk
    exact Finset.mem_insert_of_mem (mem_claimed.mpr (.inl (hindex k hk)))
  · rw [hspawned]
    simp

end Index

/-- When the farthest record makes way, its claim goes too, unless it has one on its way. -/
theorem claimed_handled_replace {far : RecordKey} (hfar : far ∉ d.inFlight)
    (hindex : ∀ k, store.records.lookup k = if k = far then none else d.store.records.lookup k)
    (hspawned : spawned.filterMap StoreTask.writes = [key]) :
    (d.handled store rest spawned).claimed ⊆ insert key (d.claimed.erase far) := by
  refine claimed_handled_subset hrest ?_ ?_ ?_
  · intro k hk
    refine Finset.mem_insert_of_mem (Finset.mem_erase.mpr ⟨?_, mem_claimed.mpr (.inr hk)⟩)
    rintro rfl
    exact hfar hk
  · intro k hk
    rw [hindex] at hk
    by_cases heq : k = far
    · rw [if_pos heq] at hk
      cases hk
    · rw [if_neg heq] at hk
      exact Finset.mem_insert_of_mem (Finset.mem_erase.mpr ⟨heq, mem_claimed.mpr (.inl hk)⟩)
  · rw [hspawned]
    simp

omit hrest

theorem card_le_of_subset_insert {claims claims' : Finset RecordKey} {limit : Nat}
    (hsubset : claims' ⊆ insert key claims) (hle : claims.card ≤ limit)
    (hplace : key ∈ claims ∨ claims.card < limit) : claims'.card ≤ limit := by
  have hcard := Finset.card_le_card hsubset
  rcases hplace with hmem | hlt
  · rw [Finset.insert_eq_of_mem hmem] at hcard
    omega
  · have hinsert := Finset.card_insert_le key claims
    omega

/-- **A put with room keeps the claimed keys within the limit.** -/
theorem claimed_put {clock : List Time} {isClientPut : Bool} {res : Except StoreError Unit}
    (hput : d.store.putVerified n cfg clock record recordType isClientPut
      = some (res, store, spawned))
    (hrest : rest ⊆ d.commands) (hroom : RoomFor n cfg d record)
    (hle : d.claimed.card ≤ cfg.maxRecords) :
    (d.handled store rest spawned).claimed.card ≤ cfg.maxRecords := by
  have hunchanged : ∀ (_ : spawned = [] ∧ store.records = d.store.records),
      (d.handled store rest spawned).claimed.card ≤ cfg.maxRecords := by
    rintro ⟨rfl, hindex⟩
    exact le_trans (Finset.card_le_card (claimed_handled_none hrest (hindex ▸ fun _ => id) rfl)) hle
  -- All that `RoomFor` says besides the first is for a record that is not cached.
  rcases hroom with hcached | hroom
  · exact hunchanged (NodeRecordStore.putVerified_cached hput hcached).2
  rcases NodeRecordStore.putVerified_cases hput with
    hnothing | ⟨hspawned, hindex, hnotfull⟩ | ⟨far, dist, hfar, hfull, hdist, hspawned, hindex⟩
  · exact hunchanged hnothing
  · subst hspawned
    refine card_le_of_subset_insert (claimed_handled_write hrest (hindex ▸ fun _ => id) rfl) hle ?_
    rcases hroom with hmem | hlt | ⟨hfull, far, hfar, -⟩
    · exact .inl hmem
    · exact .inr hlt
    · rcases hnotfull with hlt | hnone
      · exact absurd hfull (not_le.mpr hlt)
      · rw [hnone] at hfar
        cases hfar
  · have hwrites : spawned.filterMap StoreTask.writes = [record.key] := hspawned ▸ rfl
    have hinsert := claimed_handled_write hrest (isSome_of_lookup_ite hindex) hwrites
    rcases hroom with hmem | hlt | ⟨-, far', hfar', hdecides⟩
    · exact card_le_of_subset_insert hinsert hle (.inl hmem)
    · exact card_le_of_subset_insert hinsert hle (.inr hlt)
    · rw [hfar] at hfar'
      cases hfar'
      rcases hdecides with hfarther | ⟨hindexed, hnot⟩
      · exact absurd hdist (not_le.mpr hfarther)
      · have hclaimed : far ∈ d.claimed := mem_claimed.mpr (.inl hindexed)
        have hfar : far ∉ d.inFlight := hnot
        have hcard := Finset.card_le_card (claimed_handled_replace hrest hfar hindex hwrites)
        have hone := Finset.card_insert_le record.key (d.claimed.erase far)
        have hless := Finset.card_erase_add_one hclaimed
        omega

end Put

/-! ### Every step -/

section Steps

variable {i : Nat} {clock : List Time} {cmd : LocalSwarmCmd} {rest : List LocalSwarmCmd}
  {store : NodeRecordStore} {spawned : List StoreTask}

theorem subset_of_take {α : Type} {pool rest : List α} {a : α}
    (h : Pool.take pool i = some (a, rest)) : rest ⊆ pool := by
  obtain ⟨before, after, rfl, rfl⟩ := Pool.take_eq_some h
  intro b hb
  rcases mem_append.mp hb with hbefore | hafter
  · exact mem_append_left _ hbefore
  · exact mem_append_right _ (mem_cons_of_mem _ hafter)

/-- Reports of writes add keys that were claimed, and other reports take keys away. -/
theorem claimed_report (htake : Pool.take d.commands i = some (cmd, rest))
    (hhandle : handleLocalCmd n cfg d.store clock cmd = some (store, spawned))
    (hreport : cmd.reportOf.isSome) : (d.handled store rest spawned).claimed ⊆ d.claimed := by
  have hrest := subset_of_take htake
  cases cmd with
  | putLocalRecord record isClientPut => cases hreport
  | addLocalRecordAsStored k recordType dataType =>
    cases hhandle
    refine claimed_handled_subset hrest Finset.subset_union_right ?_ nofun
    intro k' hindexed
    rw [NodeRecordStore.lookup_markAsStored] at hindexed
    by_cases heq : k' = k
    · subst heq
      exact mem_claimed.mpr (.inr (mem_inFlight.mpr (.inr ⟨_, Pool.mem_of_take htake, rfl⟩)))
    · rw [if_neg heq] at hindexed
      exact mem_claimed.mpr (.inl hindexed)
  | removeFailedLocalRecord k =>
    obtain ⟨rfl, rfl⟩ := Prod.mk.inj (Option.some.inj hhandle)
    exact claimed_handled_none hrest
      (isSome_of_lookup_ite fun _ => NodeRecordStore.lookup_remove) rfl
  | removeOutOfSyncEntry k =>
    cases hhandle
    exact claimed_handled_none hrest
      (isSome_of_lookup_ite fun _ => NodeRecordStore.lookup_pruningIndexingCache) rfl

theorem claimed_ran {task : StoreTask} {rest : List StoreTask} {outcome : FileOutcome}
    (htake : Pool.take d.tasks i = some (task, rest)) :
    (d.ran (task.run cfg d.disk outcome).1 rest (task.run cfg d.disk outcome).2).claimed
      ⊆ d.claimed := by
  have hsent : ∀ cmd ∈ (task.run cfg d.disk outcome).2, ∀ k, cmd.adds = some k →
      task.writes = some k := by
    intro cmd hcmd k hadds
    cases task with
    | removeFile k' => cases outcome <;> cases hcmd
    | write record recordType =>
      rcases run_write_cases cfg d.disk outcome record recordType with
        hrun | ⟨bytes, dataType, -, -, -, hrun⟩ | ⟨left, -, hrun⟩
      · rw [hrun] at hcmd
        cases hcmd
      · rw [hrun] at hcmd
        obtain rfl := mem_singleton.mp hcmd
        exact hadds
      · rw [hrun] at hcmd
        obtain rfl := mem_singleton.mp hcmd
        cases hadds
  intro k hk
  rcases mem_claimed.mp hk with hindexed | hflight
  · exact mem_claimed.mpr (.inl hindexed)
  refine mem_claimed.mpr (.inr (mem_inFlight.mpr ?_))
  rcases mem_inFlight.mp hflight with ⟨task', htask', hwrites⟩ | ⟨cmd, hcmd, hadds⟩
  · exact .inl ⟨task', subset_of_take htake htask', hwrites⟩
  · rcases mem_append.mp hcmd with hold | hnew
    · exact .inr ⟨cmd, hold, hadds⟩
    · exact .inl ⟨task, Pool.mem_of_take htake, hsent cmd hnew k hadds⟩

theorem claimed_send (hadds : cmd.adds = none) : (d.send cmd).claimed = d.claimed := by
  have hcommands : (d.commands ++ [cmd]).filterMap LocalSwarmCmd.adds
      = d.commands.filterMap LocalSwarmCmd.adds := by
    simp [hadds]
  unfold DriverState.claimed DriverState.inFlight DriverState.send
  rw [hcommands]

theorem claimed_read : (d.read cfg key).claimed = d.claimed := by
  unfold DriverState.read
  by_cases hsync : d.store.outOfSync cfg d.disk key = true
  · rw [if_pos hsync]
    exact claimed_send rfl
  · rw [if_neg hsync]

/-- A local put claims a key if its record has a type, and has room for it. -/
theorem claimed_putLocalRecord {record : Record} {isClientPut : Bool}
    (htake : Pool.take d.commands i = some (.putLocalRecord record isClientPut, rest))
    (hhandle : handleLocalCmd n cfg d.store clock (.putLocalRecord record isClientPut)
      = some (store, spawned)) (hroom : (localRecordType n record).isSome → RoomFor n cfg d record)
    (hle : d.claimed.card ≤ cfg.maxRecords) :
    (d.handled store rest spawned).claimed.card ≤ cfg.maxRecords := by
  unfold handleLocalCmd at hhandle
  cases htype : localRecordType n record with
  | none =>
    simp only [htype] at hhandle
    cases hhandle
    exact le_trans (Finset.card_le_card (claimed_handled_none
      (subset_of_take htake) (fun _ hk => hk) rfl)) hle
  | some recordType =>
    simp only [htype] at hhandle
    obtain ⟨⟨res, _, _⟩, hput, heq⟩ := Option.map_eq_some_iff.mp hhandle
    cases heq
    exact claimed_put hput (subset_of_take htake) (hroom (by rw [htype]; rfl)) hle

/-- **No step takes the claimed keys over the limit**, if puts have room. -/
theorem claimed_step {label : StoreLabel} (hguard : PutsHaveRoom n cfg d label)
    (hstep : storeStep n cfg d label = some d') (hle : d.claimed.card ≤ cfg.maxRecords) :
    d'.claimed.card ≤ cfg.maxRecords := by
  cases label with
  | putVerified record recordType isClientPut clock =>
    obtain ⟨⟨res, store, spawned⟩, hput, rfl⟩ := Option.map_eq_some_iff.mp hstep
    exact claimed_put hput (List.Subset.refl _) hguard hle
  | driver label =>
    cases label with
    | handle i clock =>
      obtain ⟨cmd, rest, store, spawned, htake, hhandle, rfl⟩ := driverStep_handle hstep
      cases cmd with
      | putLocalRecord record isClientPut =>
        exact claimed_putLocalRecord htake hhandle (hguard record (putAt_of_take htake)) hle
      | addLocalRecordAsStored k recordType dataType | removeFailedLocalRecord k
      | removeOutOfSyncEntry k =>
        exact le_trans (Finset.card_le_card (claimed_report htake hhandle rfl)) hle
    | runTask i outcome =>
      obtain ⟨task, rest, htake, rfl⟩ := driverStep_runTask (n := n) hstep
      exact le_trans (Finset.card_le_card (claimed_ran htake)) hle
    | get k =>
      cases hstep
      rwa [claimed_read]
    | put record isClientPut =>
      cases hstep
      rwa [claimed_send rfl]
    | remove k =>
      cases hstep
      exact le_trans (Finset.card_le_card (claimed_handled_none (List.Subset.refl _)
        (isSome_of_lookup_ite fun _ => NodeRecordStore.lookup_remove) rfl)) hle

end Steps

/--
**The index stays within its limit** in every run from a store within it with nothing
on its way, as long as each put finds room among the keys that are claimed.
-/
theorem index_within_limit (n : Node) (cfg : NodeRecordStoreConfig) (d d' : DriverState)
    (labels : List StoreLabel) (hdrained : d.Drained)
    (hstart : d.store.records.entries.length ≤ cfg.maxRecords)
    (hrun : GuardedRun (storeStep n cfg) (PutsHaveRoom n cfg) d labels d') :
    d'.store.records.entries.length ≤ cfg.maxRecords := by
  have hclaimed : d.claimed.card ≤ cfg.maxRecords := by
    rwa [claimed_of_drained hdrained]
  have hend := hrun.invariant
    (fun _ _ _ hle hguard hstep => claimed_step hguard hstep hle) hclaimed
  exact le_trans length_le_claimed hend

/-! ### Two puts for one place -/

namespace Sample

def recordAt (key : UInt8) : Record := ⟨[key], (version 1).value⟩

def smallStore (maxRecords : Nat) : NodeRecordStoreConfig :=
  { storeConfig [(version 1).value] with maxRecords }

def putOf (key : UInt8) (isClientPut : Bool) : StoreLabel :=
  .putVerified (recordAt key) .chunk isClientPut [1, 1]

def writeNext : List StoreLabel := [.driver (.runTask 0 .succeeded), .driver (.handle 0 [])]

/-- Two records are put before either is in the index. -/
def together : List StoreLabel := [putOf 1 false, putOf 2 false] ++ writeNext ++ writeNext

def fullStore : NodeRecordStore :=
  (emptyStore.markAsStored node [1] .chunk .chunk).markAsStored node [2] .chunk .chunk

/-- A record is stored, makes way for a closer one, and a farther one is refused. -/
def oneByOne : List StoreLabel :=
  putOf 2 false :: writeNext ++ putOf 1 true :: .driver (.runTask 0 .succeeded) :: writeNext
    ++ [putOf 3 true]

end Sample

open Sample

theorem index_within_limit_sample :
    ∃ d, runGuarded (storeStep Sample.node (Sample.smallStore 1))
        (PutsHaveRoom Sample.node (Sample.smallStore 1)) Sample.emptyDriver Sample.oneByOne
          = some d ∧
      d.store.records.keys = [[1]] ∧ d.store.records.entries.length ≤ 1 := by
  have hend : (runGuarded (storeStep node (smallStore 1))
      (PutsHaveRoom node (smallStore 1)) emptyDriver oneByOne).map
        (fun d => d.store.records.keys) = some [[1]] := by
    decide
  obtain ⟨d, hrun, hkeys⟩ := Option.map_eq_some_iff.mp hend
  exact ⟨d, hrun, hkeys, index_within_limit _ (smallStore 1) _ d _
    emptyDriver_drained (Nat.zero_le _) (guardedRun_of_runGuarded hrun)⟩

/-- Two records put at once both end up in an index for one. -/
theorem index_not_always_within_limit :
    ¬ ∀ (n : Node) (cfg : NodeRecordStoreConfig) (d d' : DriverState) (labels : List StoreLabel),
      d.Drained → d.store.records.entries.length ≤ cfg.maxRecords →
      runSteps (storeStep n cfg) d labels = some d' →
      d'.store.records.entries.length ≤ cfg.maxRecords := by
  intro h
  have hend : (runSteps (storeStep node (smallStore 1)) emptyDriver
      together).map (fun d => d.store.records.entries.length) = some 2 := by
    decide
  obtain ⟨d, hrun, hlength⟩ := Option.map_eq_some_iff.mp hend
  have hle := h _ _ _ d _ emptyDriver_drained (Nat.zero_le _) hrun
  rw [hlength] at hle
  exact absurd hle (by decide)

/-! ### What a put leaves as it was -/

namespace NodeRecordStore

variable {n : Node} {cfg : NodeRecordStoreConfig} {s s' : NodeRecordStore} {r : Record}
  {clock : List Time} {recordType : ValidationType} {isClientPut : Bool}
  {res : Except StoreError Unit} {spawned : List StoreTask}

/-- The value is cached under its key, and a put of it is taken to be done. -/
def Cached (s : NodeRecordStore) (r : Record) : Prop :=
  ∃ e, s.recordsCache.get r.key = some e ∧ e.1.value = r.value

/-- The store is full, and the distance of its farthest record has the property. -/
def WhenFull (cfg : NodeRecordStoreConfig) (s : NodeRecordStore) (P : Nat → Prop) : Prop :=
  ∃ far dist, s.farthestRecord = some (far, dist) ∧
    cfg.maxRecords ≤ s.records.entries.length ∧ P dist

/-- The farthest record makes way for the key. -/
def Evicts (n : Node) (cfg : NodeRecordStoreConfig) (s : NodeRecordStore) (key : RecordKey) :
    Prop :=
  s.WhenFull cfg (distance n (.recordKey key) ≤ ·)

def Refuses (n : Node) (cfg : NodeRecordStoreConfig) (s : NodeRecordStore) (key : RecordKey) :
    Prop :=
  s.WhenFull cfg (· < distance n (.recordKey key))

theorem not_whenFull_of_room {P : Nat → Prop}
    (hroom : s.records.entries.length < cfg.maxRecords ∨ s.farthestRecord = none) :
    ¬ s.WhenFull cfg P := by
  rintro ⟨far, dist, hfar, hfull, -⟩
  rcases hroom with hroom | hnone
  · exact absurd hfull (not_le.mpr hroom)
  · cases hnone.symm.trans hfar

theorem not_whenFull {P : Nat → Prop} {far : RecordKey} {dist : Nat}
    (hfar : s.farthestRecord = some (far, dist)) (h : ¬ P dist) : ¬ s.WhenFull cfg P := by
  rintro ⟨far', dist', hfar', -, hP⟩
  cases hfar.symm.trans hfar'
  exact h hP

/-- What is in the file, or on its way to it. -/
def Held (cfg : NodeRecordStoreConfig) (disk : Disk) (tasks : List StoreTask) (r : Record) : Prop :=
  (∃ stored, readFromDisk cfg disk r.key = some stored ∧ stored.value = r.value) ∨
    ∃ record t, .write record t ∈ tasks ∧ record.key = r.key ∧ record.value = r.value

/-- Nothing that is read has changed. -/
def SameReads (cfg : NodeRecordStoreConfig) (s s' : NodeRecordStore) : Prop :=
  s'.records = s.records ∧ (∀ k, s'.recordsCache.get k = s.recordsCache.get k) ∧
    ∀ disk k, s'.get cfg disk k = s.get cfg disk k

/-- A refused put changes what is read, unless it is not a client's and nothing was cached. -/
theorem sameReads_refused_iff {cache : RecordCache} (hnew : ¬ s.Cached r)
    (hcache : cacheForPut (s.recordsCache.remove r.key) clock r isClientPut = some cache) :
    SameReads cfg s { s with recordsCache := cache } ↔
      isClientPut = false ∧ s.recordsCache.get r.key = none := by
  constructor
  · rintro ⟨-, hsame, -⟩
    have hkey := hsame r.key
    cases isClientPut with
    | true =>
      obtain ⟨expiry, hget⟩ := RecordCache.get_pushBack hcache
      exact absurd ⟨_, hkey.symm.trans hget, rfl⟩ hnew
    | false =>
      cases hcache
      rw [RecordCache.get_remove, if_pos rfl] at hkey
      exact ⟨rfl, hkey.symm⟩
  · rintro ⟨rfl, hnone⟩
    cases hcache
    have hget : ∀ k, (s.recordsCache.remove r.key).get k = s.recordsCache.get k := by
      intro k
      rw [RecordCache.get_remove]
      by_cases hk : k = r.key
      · rw [if_pos hk, hk, hnone]
      · rw [if_neg hk]
    refine ⟨rfl, hget, fun disk k => ?_⟩
    unfold get
    rw [hget]

/-- **What a put returns is right** exactly if one that is refused leaves nothing in the cache and
takes nothing out of it, and what is taken to be done is. -/
theorem put_result_right_iff (disk : Disk) (tasks : List StoreTask)
    (h : s.putVerified n cfg clock r recordType isClientPut = some (res, s', spawned)) :
    ((res = .error .maxRecords → SameReads cfg s s') ∧
        (res = .ok () → .write r recordType ∈ spawned ∨ Held cfg disk tasks r)) ↔
      (¬ s.Cached r → s.Refuses n cfg r.key →
        isClientPut = false ∧ s.recordsCache.get r.key = none) ∧
      (s.Cached r → Held cfg disk tasks r) := by
  by_cases hcached : s.Cached r
  · obtain ⟨rfl, rfl, -⟩ := putVerified_cached h hcached
    simp [hcached]
  · rw [putVerified_new hcached] at h
    obtain ⟨cache, hcache, hspawn⟩ := Option.map_eq_some_iff.mp h
    rcases spawnWrite_cases hspawn with ⟨hrefuses, rfl, rfl, rfl⟩ |
      ⟨rfl, rfl, rfl, hroom⟩ | ⟨far, dist, hfar, -, hdist, rfl, rfl, -⟩
    · simp [hcached, show s.Refuses n cfg r.key from hrefuses, sameReads_refused_iff hcached hcache]
    · have hnot : ¬ s.Refuses n cfg r.key := not_whenFull_of_room hroom
      simp [hcached, hnot]
    · have hnot : ¬ s.Refuses n cfg r.key := not_whenFull hfar (not_lt.mpr hdist)
      simp [hcached, hnot]

theorem put_result_right_iff_sample :
    ∃ s', Sample.emptyStore.putVerified Sample.node (Sample.smallStore 1) [] (Sample.recordAt 1)
        .chunk false = some (.ok (), s', [.write (Sample.recordAt 1) .chunk]) ∧
      (.write (Sample.recordAt 1) .chunk ∈ [StoreTask.write (Sample.recordAt 1) .chunk] ∨
        Held (Sample.smallStore 1) (fun _ => none) [] (Sample.recordAt 1)) :=
  ⟨_, rfl, ((@put_result_right_iff Sample.node (Sample.smallStore 1) Sample.emptyStore _
    (Sample.recordAt 1) [] .chunk false _ _ (fun _ => none) [] rfl).mpr
      ⟨fun _ h => absurd h (not_whenFull_of_room (.inr rfl)), fun ⟨_, h, _⟩ => nomatch h⟩).2 rfl⟩

/-- A client's record is refused and can be read all the same; put again, it is taken to be
stored. -/
theorem refused_put_can_be_read :
    Sample.fullStore.get (Sample.smallStore 2) (fun _ => none) [3] = none ∧
    ∃ s' s'', Sample.fullStore.putVerified Sample.node (Sample.smallStore 2) [1, 1]
        (Sample.recordAt 3) .chunk true = some (.error .maxRecords, s', []) ∧
      s'.get (Sample.smallStore 2) (fun _ => none) [3] = some (Sample.recordAt 3) ∧
      s'.putVerified Sample.node (Sample.smallStore 2) [2, 2] (Sample.recordAt 3) .chunk true =
        some (.ok (), s'', []) :=
  ⟨rfl, _, _, rfl, rfl, rfl⟩

end NodeRecordStore

end Autonomi
