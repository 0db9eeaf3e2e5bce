/-
The farthest record and the index by distance, over all operations on the index.

`Lib.Ranked` says what it means for a farthest record and an index by distance to be
right for a set of keys; here the set is the keys of the index, and the rank of a key is
its distance from our address.

Every operation changes the two along with the index, but for one.  A key pruned as out
of sync leaves the index and the index by distance, and stays the farthest record if it
was.
-/
import Autonomi.Lib.Ranked
import Autonomi.Node.StoreOpening
import Autonomi.Proofs.StoreCapacity

namespace Autonomi

open Lib List

def StorageDir.empty : StorageDir := ⟨[], .nil⟩

/-- What is done to a store's index, opening it included. -/
inductive IndexOp
  | withConfig (dir : StorageDir)
  | markAsStored (key : RecordKey) (validateType : ValidationType) (dataType : DataTypes)
  | remove (key : RecordKey)
  | pruningIndexingCache (key : RecordKey)
  | cleanupIrrelevantRecords (responsibleDistanceRange : Option Nat)

section Operations

variable (n : Node) (cfg : NodeRecordStoreConfig) (recordsCacheSize : Nat)

/-- One operation; none of them fails. -/
def indexStep (s : NodeRecordStore) : IndexOp → Option NodeRecordStore
  | .withConfig dir => some (.withConfig n cfg recordsCacheSize dir)
  | .markAsStored key validateType dataType => some (s.markAsStored n key validateType dataType)
  | .remove key => some (s.remove n key).1
  | .pruningIndexingCache key => some (s.pruningIndexingCache n key)
  | .cleanupIrrelevantRecords range => some (s.cleanupIrrelevantRecords n range).1

def loadedKeys (dir : StorageDir) : List RecordKey :=
  (dir.entries.filterMap (loadedFrom n cfg)).map fun e => e.1

def IndexOp.storedKeys : IndexOp → List RecordKey
  | .withConfig dir => loadedKeys n cfg dir
  | .markAsStored key _ _ => [key]
  | .remove _ => []
  | .pruningIndexingCache _ => []
  | .cleanupIrrelevantRecords _ => []

def keyDistance (key : RecordKey) : Nat := NodeRecordStore.distance n (.recordKey key)

end Operations

namespace NodeRecordStore

variable {n : Node} {cfg : NodeRecordStoreConfig} {s : NodeRecordStore} {key k : RecordKey}

def held (s : NodeRecordStore) : Set RecordKey := {k | k ∈ s.records.keys}

theorem mem_held : k ∈ s.held ↔ (s.records.lookup k).isSome :=
  AList.mem_keys.symm.trans AList.lookup_isSome.symm

/-! ### What the operations do to the set of keys -/

theorem held_pruningIndexingCache : (s.pruningIndexingCache n key).held = s.held \ {key} := by
  ext k
  rw [Set.mem_sdiff, mem_held, mem_held, lookup_pruningIndexingCache]
  by_cases h : k = key
  · simp [h]
  · simp [h]

variable {validateType : ValidationType} {dataType : DataTypes}

theorem held_markAsStored :
    (s.markAsStored n key validateType dataType).held = insert key s.held := by
  ext k
  rw [Set.mem_insert_iff, mem_held, mem_held, lookup_markAsStored]
  by_cases h : k = key
  · simp [h]
  · simp [h]

/-! ### The farthest record -/

def FarthestRecorded (n : Node) (s : NodeRecordStore) : Prop :=
  Greatest (keyDistance n) s.held s.farthestRecord

theorem greatest_calculateFarthest :
    Greatest (keyDistance n) s.held (s.calculateFarthest n) := greatest_last _ _

theorem farthestRecorded_withConfig {recordsCacheSize : Nat} {dir : StorageDir} :
    FarthestRecorded n (withConfig n cfg recordsCacheSize dir) := greatest_calculateFarthest

theorem FarthestRecorded.markAsStored (h : FarthestRecorded n s) :
    FarthestRecorded n (s.markAsStored n key validateType dataType) := by
  have hkept : (s.markAsStored n key validateType dataType).farthestRecord
      = keepGreater (keyDistance n) key s.farthestRecord := by
    unfold NodeRecordStore.markAsStored
    cases s.farthestRecord with
    | none => rfl
    | some far => rfl
  unfold FarthestRecorded
  rw [held_markAsStored, hkept]
  exact h.insert

theorem FarthestRecorded.remove (h : FarthestRecorded n s) :
    FarthestRecorded n (s.remove n key).1 := by
  obtain ⟨_, hremove, rfl | ⟨rfl, hne⟩⟩ := remove_eq n s key
  · rw [hremove]
    exact greatest_calculateFarthest (s := s.pruningIndexingCache n key)
  · rw [hremove]
    show Greatest _ (s.pruningIndexingCache n key).held _
    rw [held_pruningIndexingCache]
    exact h.erase hne

section Cleanup

variable {P : NodeRecordStore → Prop} (hremove : ∀ {s key}, P s → P (s.remove n key).1)

include hremove

theorem removeAll_induct (keys : List RecordKey) :
    ∀ {s : NodeRecordStore}, P s → P (s.removeAll n keys).1 := by
  induction keys with
  | nil => exact id
  | cons key keys ih => exact fun h => ih (hremove h)

/-- A cleanup keeps what every removal keeps. -/
theorem cleanup_induct (h : P s) (range : Option Nat) :
    P (s.cleanupIrrelevantRecords n range).1 := by
  unfold cleanupIrrelevantRecords
  split
  · exact h
  · cases range with
    | none => exact h
    | some responsibleDistance =>
      dsimp only
      split
      · exact h
      · exact removeAll_induct hremove _ h

end Cleanup

theorem FarthestRecorded.pruningIndexingCache (h : FarthestRecorded n s)
    (hother : key ∈ s.held → s.getFarthest ≠ some key) :
    FarthestRecorded n (s.pruningIndexingCache n key) := by
  unfold FarthestRecorded
  rw [held_pruningIndexingCache, farthestRecord_pruningIndexingCache]
  refine h.erase ?_
  intro far hfar hkey
  have hheld : key ∈ s.held := by
    unfold FarthestRecorded at h
    rw [hfar] at h
    exact hkey ▸ h.1
  refine hother hheld ?_
  rw [getFarthest, hfar, Option.map_some, hkey]

/-- `get_farthest` gives a key of the index that no other is farther than, if there is one. -/
def KnowsFarthest (n : Node) (s : NodeRecordStore) : Prop :=
  (s.getFarthest = none ↔ s.records.keys = []) ∧
    ∀ far, s.getFarthest = some far → far ∈ s.records.keys ∧
      ∀ key ∈ s.records.keys, distance n (.recordKey key) ≤ distance n (.recordKey far)

theorem FarthestRecorded.knowsFarthest (h : FarthestRecorded n s) : KnowsFarthest n s := by
  unfold FarthestRecorded at h
  unfold KnowsFarthest getFarthest
  cases hfar : s.farthestRecord with
  | none =>
    rw [hfar] at h
    refine ⟨⟨fun _ => ?_, fun _ => rfl⟩, nofun⟩
    refine eq_nil_iff_forall_not_mem.mpr ?_
    intro key hkey
    have hheld : key ∈ s.held := hkey
    rw [show s.held = ∅ from h] at hheld
    exact Set.notMem_empty key hheld
  | some far =>
    rw [hfar] at h
    obtain ⟨hmem, hdist, hmax⟩ := h
    refine ⟨⟨nofun, ?_⟩, ?_⟩
    · intro hnil
      have hkey : far.1 ∈ s.records.keys := hmem
      rw [hnil] at hkey
      cases hkey
    · intro key hkey
      obtain rfl : far.1 = key := Option.some.inj hkey
      refine ⟨hmem, ?_⟩
      intro key hkey
      exact (hmax key hkey).trans_eq hdist

end NodeRecordStore

open NodeRecordStore

def PrunesNotFarthest (s : NodeRecordStore) : IndexOp → Prop
  | .pruningIndexingCache key => key ∈ s.records.keys → s.getFarthest ≠ some key
  | _ => True

variable {n : Node} {cfg : NodeRecordStoreConfig} {recordsCacheSize : Nat}
  {s s' : NodeRecordStore} {op : IndexOp}

/-- **Every other operation keeps the farthest record right.** -/
theorem farthestRecorded_step (h : FarthestRecorded n s) (hguard : PrunesNotFarthest s op)
    (hstep : indexStep n cfg recordsCacheSize s op = some s') : FarthestRecorded n s' := by
  cases op <;> cases hstep
  case withConfig => exact farthestRecorded_withConfig
  case markAsStored => exact h.markAsStored
  case remove => exact h.remove
  case pruningIndexingCache => exact h.pruningIndexingCache hguard
  case cleanupIrrelevantRecords range => exact cleanup_induct FarthestRecorded.remove h range

/--
**The farthest record is known after every sequence of operations** in which the one
that is recorded is never pruned as out of sync.
-/
theorem knowsFarthest_of_run (n : Node) (cfg : NodeRecordStoreConfig) (recordsCacheSize : Nat)
    (dir : StorageDir) (ops : List IndexOp) (s : NodeRecordStore)
    (hrun : GuardedRun (indexStep n cfg recordsCacheSize) PrunesNotFarthest
      (.withConfig n cfg recordsCacheSize dir) ops s) : KnowsFarthest n s :=
  (hrun.invariant (fun _ _ _ h hguard hstep => farthestRecorded_step h hguard hstep)
    farthestRecorded_withConfig).knowsFarthest

namespace Sample

/-- Three records come, and two of them go: one is pruned, and the farthest is removed. -/
def comeAndGo : List IndexOp :=
  [.markAsStored [1] .chunk .chunk, .markAsStored [3] .chunk .chunk,
    .markAsStored [2] .chunk .chunk, .pruningIndexingCache [2], .remove [3],
    .cleanupIrrelevantRecords (some 1)]

def openedEmpty : NodeRecordStore := .withConfig node (smallStore 10) 25 .empty

end Sample

instance (s : NodeRecordStore) : (op : IndexOp) → Decidable (PrunesNotFarthest s op)
  | .pruningIndexingCache key =>
    inferInstanceAs (Decidable (key ∈ s.records.keys → s.getFarthest ≠ some key))
  | .withConfig _ | .markAsStored _ _ _ | .remove _ | .cleanupIrrelevantRecords _ =>
    isTrue trivial

open Sample

theorem knowsFarthest_of_run_sample :
    ∃ s, runGuarded (indexStep Sample.node (Sample.smallStore 10) 25) PrunesNotFarthest
        Sample.openedEmpty Sample.comeAndGo = some s ∧
      s.getFarthest = some [1] ∧ KnowsFarthest Sample.node s := by
  have hend : (runGuarded (indexStep node (smallStore 10) 25) PrunesNotFarthest
      openedEmpty comeAndGo).map getFarthest = some (some [1]) := by
    decide
  obtain ⟨s, hrun, hfar⟩ := Option.map_eq_some_iff.mp hend
  exact ⟨s, hrun, hfar, knowsFarthest_of_run _ _ _ _ _ s (guardedRun_of_runGuarded hrun)⟩

/-- The only record is pruned, and stays the farthest. -/
theorem not_always_knowsFarthest :
    ¬ ∀ (n : Node) (cfg : NodeRecordStoreConfig) (recordsCacheSize : Nat) (dir : StorageDir)
        (ops : List IndexOp) (s : NodeRecordStore),
      runSteps (indexStep n cfg recordsCacheSize) (.withConfig n cfg recordsCacheSize dir) ops
        = some s → KnowsFarthest n s := by
  intro h
  have hend : (runSteps (indexStep node (smallStore 10) 25) openedEmpty
      [.markAsStored [1] .chunk .chunk, .pruningIndexingCache [1]]).map
        (fun s => (s.getFarthest, s.records.keys)) = some (some [1], []) := by
    decide
  obtain ⟨s, hrun, hshown⟩ := Option.map_eq_some_iff.mp hend
  obtain ⟨hfar, hkeys⟩ := Prod.mk.inj hshown
  have hmem := ((h _ _ _ _ _ s hrun).2 _ hfar).1
  rw [hkeys] at hmem
  cases hmem

/-! ### The index by distance -/

/-- The index by distance is right, for keys among those of which no two are equally far. -/
structure DistancesIndexed (n : Node) (K : Set RecordKey) (s : NodeRecordStore) : Prop where
  within : s.held ⊆ K
  addressed : ∀ key entry, s.records.lookup key = some entry → entry.address = .recordKey key
  indexes : Indexes (keyDistance n) s.held s.recordsByDistance

section ByDistance

variable {K : Set RecordKey} {key : RecordKey} (h : DistancesIndexed n K s)

include h

theorem DistancesIndexed.markAsStored (hinj : Set.InjOn (keyDistance n) K) (hkey : key ∈ K) :
    DistancesIndexed n K (s.markAsStored n key validateType dataType) := by
  have hwithin : insert key s.held ⊆ K := Set.insert_subset hkey h.within
  refine ⟨by rwa [held_markAsStored], ?_, ?_⟩
  · intro k entry hentry
    rw [lookup_markAsStored] at hentry
    by_cases heq : k = key
    · rw [if_pos heq] at hentry
      cases hentry
      rw [heq]
    · rw [if_neg heq] at hentry
      exact h.addressed k entry hentry
  · rw [held_markAsStored]
    exact h.indexes.insert (hinj.mono hwithin)

theorem DistancesIndexed.pruningIndexingCache (hinj : Set.InjOn (keyDistance n) K) :
    DistancesIndexed n K (s.pruningIndexingCache n key) := by
  refine ⟨?_, ?_, ?_⟩
  · rw [held_pruningIndexingCache]
    exact Set.sdiff_subset.trans h.within
  · intro k entry hentry
    rw [lookup_pruningIndexingCache] at hentry
    exact h.addressed k entry (Option.ite_none_left_eq_some.mp hentry).2
  · rw [held_pruningIndexingCache]
    unfold NodeRecordStore.pruningIndexingCache
    cases hentry : s.records.lookup key with
    | none =>
      have hnot : key ∉ s.held := by
        rw [mem_held, hentry]
        nofun
      rw [Set.sdiff_singleton_eq_self hnot]
      exact h.indexes
    | some entry =>
      have hheld : key ∈ s.held := by
        rw [mem_held, hentry]
        rfl
      have hdist : distance n entry.address = keyDistance n key := by
        rw [h.addressed key entry hentry]
        rfl
      dsimp only
      rw [hdist]
      exact h.indexes.erase (hinj.mono h.within) hheld

theorem DistancesIndexed.remove (hinj : Set.InjOn (keyDistance n) K) :
    DistancesIndexed n K (s.remove n key).1 := by
  have hpruned : DistancesIndexed n K (s.pruningIndexingCache n key) :=
    h.pruningIndexingCache hinj
  obtain ⟨_, hremove, -⟩ := remove_eq n s key
  rw [hremove]
  exact ⟨hpruned.within, hpruned.addressed, hpruned.indexes⟩

omit h

/-! ### Opening -/

theorem processEntry_eq_loaded {entry : DirEntry} {index : IndexEntry} :
    processEntry n cfg entry = .loaded key index ↔
      entry.isFile ∧ ∃ filename bytes record dataType, entry.fileName = some filename ∧
        getDataFromFilename filename = some key ∧ entry.content = some bytes ∧
        getRecordFromBytes cfg bytes key = some record ∧
        record.value.getDataType = some dataType ∧
        index = ⟨.recordKey key, existingRecordType n record dataType, dataType⟩ := by
  constructor
  · intro h
    unfold processEntry at h
    split at h
    · rename_i hfile
      refine ⟨hfile, ?_⟩
      split at h
      · cases h
      rename_i filename hname
      split at h
      · cases h
      rename_i key' hkey
      split at h
      · cases h
      rename_i bytes hcontent
      split at h
      · cases h
      rename_i record hrecord
      split at h
      · cases h
      rename_i dataType hdata
      cases h
      exact ⟨filename, bytes, record, dataType, hname, hkey, hcontent, hrecord, hdata, rfl⟩
    · cases h
  · rintro ⟨hfile, filename, bytes, record, dataType, hname, hkey, hcontent, hrecord, hdata, rfl⟩
    simp only [processEntry, hfile, hname, hkey, hcontent, hrecord, hdata, if_true]

theorem loadedFrom_eq_some {entry : DirEntry} {loaded : Σ _ : RecordKey, IndexEntry} :
    loadedFrom n cfg entry = some loaded ↔
      processEntry n cfg entry = .loaded loaded.1 loaded.2 := by
  unfold loadedFrom
  cases processEntry n cfg entry with
  | cleanedUp | skipped => exact ⟨nofun, nofun⟩
  | loaded key index =>
    constructor
    · intro h
      cases h
      rfl
    · intro h
      cases h
      rfl

variable {dir : StorageDir}

theorem mem_loadedKeys :
    key ∈ loadedKeys n cfg dir ↔
      ∃ e ∈ dir.entries.filterMap (loadedFrom n cfg), e.1 = key := mem_map

theorem mem_held_withConfig :
    key ∈ (withConfig n cfg recordsCacheSize dir).held ↔ key ∈ loadedKeys n cfg dir := by
  rw [mem_loadedKeys]
  refine (AList.mem_keys.symm.trans (Table.mem_foldl_insert _)).trans ⟨?_, .inr⟩
  rintro (hnot | hloaded)
  · exact absurd hnot (AList.notMem_empty key)
  · exact hloaded

theorem addressed_updateRecords {entries : List DirEntry} {entry : IndexEntry}
    (h : (updateRecordsFromAnExistingStore n cfg entries).lookup key = some entry) :
    entry.address = .recordKey key := by
  rcases Table.mem_of_lookup_foldl_insert _ h with hmem | hnot
  · obtain ⟨file, -, hloaded⟩ := mem_filterMap.mp hmem
    obtain ⟨-, filename, bytes, record, dataType, -, -, -, -, -, heq⟩ :=
      processEntry_eq_loaded.mp (loadedFrom_eq_some.mp hloaded)
    exact congrArg IndexEntry.address heq
  · cases hnot

theorem distancesIndexed_withConfig (hinj : Set.InjOn (keyDistance n) K)
    (hkeys : ∀ key ∈ loadedKeys n cfg dir, key ∈ K) :
    DistancesIndexed n K (withConfig n cfg recordsCacheSize dir) := by
  have hwithin : (withConfig n cfg recordsCacheSize dir).held ⊆ K := fun key hkey =>
    hkeys key (mem_held_withConfig.mp hkey)
  refine ⟨hwithin, fun _ _ => addressed_updateRecords, ?_⟩
  have hempty : (∅ : Set RecordKey) ∪ (withConfig n cfg recordsCacheSize dir).held
      = (withConfig n cfg recordsCacheSize dir).held := Set.empty_union _
  have hall := (indexes_empty (keyDistance n)).insertAll
    (withConfig n cfg recordsCacheSize dir).records.keys (hinj.mono (hempty.trans_subset hwithin))
  have htable : (withConfig n cfg recordsCacheSize dir).recordsByDistance
      = (withConfig n cfg recordsCacheSize dir).records.keys.foldl
        (fun m a => m.insert (keyDistance n a) a) ∅ := by
    show recordsByDistanceOf n _ = _
    unfold recordsByDistanceOf AList.keys List.keys
    rw [foldl_map]
    refine foldl_ext _ _ _ ?_
    intro m e he
    rw [addressed_updateRecords (AList.mem_lookup_iff.mpr he)]
    rfl
  rw [htable, ← hempty]
  exact hall

/-- **Every operation keeps the index by distance right**, if the keys it stores are among
those of which no two are equally far. -/
theorem distancesIndexed_step (h : DistancesIndexed n K s) (hinj : Set.InjOn (keyDistance n) K)
    (hkeys : ∀ key ∈ op.storedKeys n cfg, key ∈ K)
    (hstep : indexStep n cfg recordsCacheSize s op = some s') : DistancesIndexed n K s' := by
  cases op <;> cases hstep
  case withConfig => exact distancesIndexed_withConfig hinj hkeys
  case markAsStored key _ _ => exact h.markAsStored hinj (hkeys key mem_cons_self)
  case remove => exact h.remove hinj
  case pruningIndexingCache => exact h.pruningIndexingCache hinj
  case cleanupIrrelevantRecords range => exact cleanup_induct (fun h => h.remove hinj) h range

end ByDistance

/--
**The index by distance is the index**, after every sequence of operations, as long as no
two keys that are ever stored are equally far.  The records counted in a quote are then
those that are closer than the range.
-/
theorem recordsByDistance_of_run (n : Node) (cfg : NodeRecordStoreConfig)
    (recordsCacheSize : Nat) (dir : StorageDir) (ops : List IndexOp) (s : NodeRecordStore)
    (hinj : Set.InjOn (fun key => distance n (.recordKey key))
      {key | ∃ op ∈ IndexOp.withConfig dir :: ops, key ∈ op.storedKeys n cfg})
    (hrun : runSteps (indexStep n cfg recordsCacheSize) (.withConfig n cfg recordsCacheSize dir) ops
      = some s) :
    (∀ d key, s.recordsByDistance.lookup d = some key ↔
      key ∈ s.records.keys ∧ distance n (.recordKey key) = d) ∧
    ∀ range, s.closeRecordsStored (some range)
      = (s.records.keys.filter fun key => distance n (.recordKey key) < range).length := by
  have hstart : DistancesIndexed n
      {key | ∃ op ∈ IndexOp.withConfig dir :: ops, key ∈ op.storedKeys n cfg}
      (withConfig n cfg recordsCacheSize dir) :=
    distancesIndexed_withConfig hinj fun key hkey => ⟨_, mem_cons_self, hkey⟩
  have hguarded : GuardedRun (indexStep n cfg recordsCacheSize)
      (fun _ op => ∀ key ∈ op.storedKeys n cfg,
        ∃ op ∈ IndexOp.withConfig dir :: ops, key ∈ op.storedKeys n cfg) _ ops s :=
    guardedRun_of_forall hrun fun op hop _ key hkey => ⟨op, mem_cons_of_mem _ hop, hkey⟩
  have hend := hguarded.invariant
    (fun _ _ _ h hkeys hstep => distancesIndexed_step h hinj hkeys hstep) hstart
  exact ⟨hend.indexes, fun range => hend.indexes.count s.records.keys_nodup (· < range)⟩

theorem comeAndGo_apart :
    Set.InjOn (fun key => distance node (.recordKey key))
      {key | ∃ op ∈ IndexOp.withConfig .empty :: comeAndGo,
        key ∈ op.storedKeys node (smallStore 10)} := by
  have hall : ∀ key ∈ comeAndGo.flatMap
        (IndexOp.storedKeys node (smallStore 10)),
      ∀ key' ∈ comeAndGo.flatMap (IndexOp.storedKeys node (smallStore 10)),
      distance node (.recordKey key) = distance node (.recordKey key') →
        key = key' := by
    decide
  rintro key ⟨op, hop, hkey⟩ key' ⟨op', hop', hkey'⟩ heq
  -- Opening the empty directory stores nothing.
  rcases mem_cons.mp hop with rfl | hop
  · cases hkey
  rcases mem_cons.mp hop' with rfl | hop'
  · cases hkey'
  exact hall key (mem_flatMap.mpr ⟨op, hop, hkey⟩) key'
    (mem_flatMap.mpr ⟨op', hop', hkey'⟩) heq

theorem recordsByDistance_of_run_sample :
    ∃ s, runSteps (indexStep Sample.node (Sample.smallStore 10) 25) Sample.openedEmpty
        Sample.comeAndGo = some s ∧ s.recordsByDistance.lookup 10 = some [1] ∧
      s.closeRecordsStored (some 11) = 1 := by
  have hend : (runSteps (indexStep node (smallStore 10) 25) openedEmpty
      comeAndGo).map (fun s => s.records.keys) = some [[1]] := by
    decide
  obtain ⟨s, hrun, hkeys⟩ := Option.map_eq_some_iff.mp hend
  obtain ⟨hindex, hcount⟩ := recordsByDistance_of_run _ _ _ .empty _ s comeAndGo_apart hrun
  refine ⟨s, hrun, (hindex 10 [1]).mpr ?_, (hcount 11).trans ?_⟩
  · rw [hkeys]
    decide
  · rw [hkeys]
    decide

/-! ### Records far out of range -/

namespace NodeRecordStore

variable {n : Node} {s : NodeRecordStore} {key k : RecordKey}

def under (s : NodeRecordStore) (key : RecordKey) : Option IndexEntry × Option (Record × Time) :=
  (s.records.lookup key, s.recordsCache.get key)

theorem under_remove :
    (s.remove n key).1.under k = if k = key then (none, none) else s.under k := by
  obtain ⟨_, hremove, -⟩ := remove_eq n s key
  have hcache : (s.remove n key).1.recordsCache = s.recordsCache.remove key := by
    rw [hremove]
  rw [under, hcache, lookup_remove, RecordCache.get_remove]
  split <;> rfl

theorem under_removeAll (keys : List RecordKey) :
    ∀ s : NodeRecordStore, (s.removeAll n keys).1.under k =
      if k ∈ keys then (none, none) else s.under k := by
  induction keys with
  | nil => exact fun _ => rfl
  | cons key keys ih =>
    intro s
    rw [removeAll]
    simp only [ih, under_remove, mem_cons]
    by_cases hk : k ∈ keys
    · simp [hk]
    · simp [hk]

theorem spawned_removeAll (keys : List RecordKey) :
    ∀ s : NodeRecordStore, (s.removeAll n keys).2 = keys.map .removeFile := by
  induction keys with
  | nil => exact fun _ => rfl
  | cons key keys ih => exact fun _ => congrArg (StoreTask.removeFile key :: ·) (ih _)

/-- Among the farthest tenth, and at ten times the responsible distance or beyond. -/
structure Irrelevant (n : Node) (s : NodeRecordStore) (responsibleDistance : Nat)
    (key : RecordKey) : Prop where
  held : key ∈ s.records.keys
  farthest : (s.records.keys.filter fun k => keyDistance n key < keyDistance n k).length <
    s.records.entries.length / 10
  far : min (responsibleDistance * 10) (2 ^ 256 - 1) ≤ keyDistance n key

theorem pairwise_sortedByDistance :
    s.sortedByDistance.reverse.Pairwise fun a b => b.1 < a.1 := by
  have hle := pairwise_insertionSort (fun a b : Nat × RecordKey => a.1 ≤ b.1)
    (s.recordsByDistance.entries.map fun e => (e.1, e.2))
  have hne : (s.recordsByDistance.entries.map fun e => (e.1, e.2)).Pairwise
      fun a b => a.1 ≠ b.1 := by
    have hkeys := s.recordsByDistance.nodupKeys
    simpa [pairwise_map, List.NodupKeys, List.keys, List.Nodup] using hkeys
  have hsorted := (perm_insertionSort (fun a b : Nat × RecordKey => a.1 ≤ b.1) _).symm.pairwise
    hne Ne.symm
  rw [pairwise_reverse]
  exact (hle.and hsorted).imp fun h => lt_of_le_of_ne h.1 h.2

theorem mem_irrelevantKeys (h : Indexes (keyDistance n) s.held s.recordsByDistance)
    {responsibleDistance : Nat} :
    key ∈ s.irrelevantKeys responsibleDistance ↔ s.Irrelevant n responsibleDistance key := by
  have hcount : ∀ d, (s.sortedByDistance.reverse.filter fun e => d < e.1).length =
      (s.records.keys.filter fun k => d < keyDistance n k).length := by
    intro d
    rw [← h.count s.records.keys_nodup fun e => d < e, filter_reverse, length_reverse,
      sortedByDistance, ((perm_insertionSort _ _).filter _).length_eq, filter_map,
      length_map]
    rfl
  have hmem : ∀ e : Nat × RecordKey, e ∈ s.sortedByDistance.reverse ↔
      e.2 ∈ s.records.keys ∧ keyDistance n e.2 = e.1 := by
    intro e
    rw [mem_reverse, sortedByDistance, mem_insertionSort, mem_map]
    refine Iff.trans ?_ (AList.mem_lookup_iff.symm.trans (h e.1 e.2))
    constructor
    · rintro ⟨e', he', rfl⟩
      exact he'
    · exact fun he => ⟨⟨e.1, e.2⟩, he, rfl⟩
  simp only [irrelevantKeys, mem_map, mem_filter, decide_eq_true_eq,
    mem_take_iff pairwise_sortedByDistance, hcount, hmem]
  constructor
  · rintro ⟨e, ⟨⟨⟨hheld, hdist⟩, hfarthest⟩, hfar⟩, rfl⟩
    rw [← hdist] at hfarthest hfar
    exact ⟨hheld, hfarthest, hfar⟩
  · rintro ⟨hheld, hfarthest, hfar⟩
    exact ⟨(keyDistance n key, key), ⟨⟨⟨hheld, rfl⟩, hfarthest⟩, hfar⟩, rfl⟩

end NodeRecordStore

end Autonomi
