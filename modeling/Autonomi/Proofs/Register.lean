/-
The store as a register.

Seen from one key, and with one put under way at a time, the cache, the index, the
files, the tasks and the commands make up a register: it holds a value, and a put
replaces it.  What a read returns may lag behind: while a put is under way it is
the value or the one before, and from one to the other it only ever moves forward.

`Holds` lists the stages a put goes through, and `holds_driverStep` follows it from
the command to the entry in the index.
-/
import Autonomi.Proofs.RecordStore

namespace Autonomi

open Lib

section Stages

variable (n : Node) (cfg : NodeRecordStoreConfig)

def DriverState.onDisk (d : DriverState) (key : RecordKey) : Option Record :=
  if (d.store.records.lookup key).isSome then readFromDisk cfg d.disk key else none

/-- An indexed key has a file that can be read. -/
def DriverState.Synced (d : DriverState) (key : RecordKey) : Prop :=
  (d.store.records.lookup key).isSome → (readFromDisk cfg d.disk key).isSome

/-- If the key is cached at all, it is with this record. -/
def DriverState.CachedIs (d : DriverState) (key : RecordKey) (value : Option Record) : Prop :=
  ∀ e, d.store.recordsCache.get key = some e → some e.1 = value

def Storable (key : RecordKey) (p : Record) : Prop :=
  p.key = key ∧ (localRecordType n p).isSome ∧ p.value.getDataType.isSome

/-- The register's value, and how far the put of it has come. -/
inductive Holds (key : RecordKey) (value : Option Record) (d : DriverState) : Prop
  | quiet (hdrained : d.Drained) (hdisk : d.onDisk cfg key = value) (hsynced : d.Synced cfg key)
      (hcache : d.CachedIs key value)
  | sent (old : Option Record) (p : Record) (isClientPut : Bool) (hvalue : value = some p)
      (htasks : d.tasks = []) (hcommands : d.commands = [.putLocalRecord p isClientPut])
      (hdisk : d.onDisk cfg key = old) (hsynced : d.Synced cfg key) (hcache : d.CachedIs key old)
      (hnew : ∀ r, old = some r → r.value ≠ p.value) (hstorable : Storable n key p)
  | writing (p : Record) (recordType : ValidationType) (hvalue : value = some p)
      (htasks : d.tasks = [.write p recordType]) (hcommands : d.commands = [])
      (hsynced : d.Synced cfg key) (hcache : d.CachedIs key value) (hstorable : Storable n key p)
  | written (p : Record) (recordType : ValidationType) (dataType : DataTypes)
      (hvalue : value = some p) (htasks : d.tasks = [])
      (hcommands : d.commands = [.addLocalRecordAsStored key recordType dataType])
      (hfile : readFromDisk cfg d.disk key = some p) (hcache : d.CachedIs key value)

end Stages

variable {n : Node} {cfg : NodeRecordStoreConfig} {d d' : DriverState} {key : RecordKey}
  {value : Option Record}

/-! ### What a read returns -/

theorem visible_of_cached {e : Record × Time} (h : d.store.recordsCache.get key = some e) :
    d.visible cfg key = some e.1 := by
  unfold DriverState.visible NodeRecordStore.get
  rw [h]

theorem visible_of_not_cached (h : d.store.recordsCache.get key = none) :
    d.visible cfg key = d.onDisk cfg key := by
  unfold DriverState.visible NodeRecordStore.get
  rw [h]
  rfl

theorem visible_eq (hdisk : d.onDisk cfg key = value) (hcache : d.CachedIs key value) :
    d.visible cfg key = value := by
  cases hget : d.store.recordsCache.get key with
  | none => rw [visible_of_not_cached hget, hdisk]
  | some e => rw [visible_of_cached hget, hcache e hget]

theorem onDisk_indexed (h : (d.store.records.lookup key).isSome) :
    d.onDisk cfg key = readFromDisk cfg d.disk key := if_pos h

theorem onDisk_not_indexed (h : d.store.records.lookup key = none) : d.onDisk cfg key = none := by
  unfold DriverState.onDisk
  rw [h]
  rfl

/-! ### One stage to the next -/

/-- Nothing but the key's own reads comes from outside. -/
def DriverLabel.Within (key : RecordKey) : DriverLabel → Prop
  | .handle _ _ => True
  | .runTask _ _ => True
  | .get k => k = key
  | .put _ _ => False
  | .remove _ => False

def DriverState.writeAt (d : DriverState) (i : Nat) : Option Record :=
  match d.tasks[i]? with
  | some (.write record _) => some record
  | _ => none

/-- There is room in the store, and writing files works. -/
def Smooth (cfg : NodeRecordStoreConfig) (d : DriverState) : DriverLabel → Prop
  | .handle _ _ => d.store.records.entries.length < cfg.maxRecords
  | .runTask i outcome => outcome = .succeeded ∧
      ∀ record ∈ d.writeAt i, (prepareRecordBytes cfg record).isSome
  | _ => True

instance (key : RecordKey) : (label : DriverLabel) → Decidable (label.Within key)
  | .handle _ _ | .runTask _ _ => isTrue trivial
  | .get k => inferInstanceAs (Decidable (k = key))
  | .put _ _ | .remove _ => isFalse id

instance (cfg : NodeRecordStoreConfig) (d : DriverState) :
    (label : DriverLabel) → Decidable (Smooth cfg d label)
  | .handle _ _ => inferInstanceAs (Decidable (_ < _))
  | .runTask i outcome => inferInstanceAs (Decidable (outcome = .succeeded ∧
      ∀ record ∈ d.writeAt i, (prepareRecordBytes cfg record).isSome))
  | .get _ | .put _ _ | .remove _ => isTrue trivial

theorem read_synced (h : d.Synced cfg key) : d.read cfg key = d := by
  have hsync : d.store.outOfSync cfg d.disk key = false := by
    unfold NodeRecordStore.outOfSync
    cases hlookup : d.store.records.lookup key with
    | none => simp
    | some entry =>
      have hfile : (readFromDisk cfg d.disk key).isSome := h (by rw [hlookup]; rfl)
      simp [hfile]
  unfold DriverState.read
  rw [hsync]
  rfl

variable (h : Holds n cfg key value d)

include h

theorem Holds.synced : d.Synced cfg key := by
  cases h with
  | quiet _ _ hsynced _ | sent _ _ _ _ _ _ _ hsynced _ _ _
  | writing _ _ _ _ _ hsynced _ _ => exact hsynced
  | written p _ _ _ _ _ hfile _ => intro _; rw [hfile]; rfl

theorem Holds.settled (hdrained : d.Drained) :
    d.onDisk cfg key = value ∧ d.Synced cfg key ∧ d.CachedIs key value := by
  cases h with
  | quiet _ hdisk hsynced hcache => exact ⟨hdisk, hsynced, hcache⟩
  | sent _ _ _ _ _ hcommands _ _ _ _ _ => cases hcommands.symm.trans hdrained.2
  | writing _ _ _ htasks _ _ _ _ => cases htasks.symm.trans hdrained.1
  | written _ _ _ _ _ hcommands _ _ => cases hcommands.symm.trans hdrained.2

theorem Holds.visible_of_drained (hdrained : d.Drained) : d.visible cfg key = value := by
  obtain ⟨hdisk, -, hcache⟩ := h.settled hdrained
  exact visible_eq hdisk hcache

omit h

/-- What has happened to the reads: nothing, or they have caught up. -/
def CatchesUp (cfg : NodeRecordStoreConfig) (key : RecordKey) (value : Option Record)
    (d d' : DriverState) : Prop :=
  d'.visible cfg key = d.visible cfg key ∨ d'.visible cfg key = value

/-- Anything that relates what is read to the value still does, and relates it to what was
read before. -/
theorem CatchesUp.relate {R : Option Record → Option Record → Prop} (hrefl : ∀ v, R v v)
    (h : CatchesUp cfg key value d d') (hbehind : R (d.visible cfg key) value) :
    R (d'.visible cfg key) value ∧ R (d.visible cfg key) (d'.visible cfg key) := by
  rcases h with hsame | hvalue
  · rw [hsame]
    exact ⟨hbehind, hrefl _⟩
  · rw [hvalue]
    exact ⟨hrefl _, hbehind⟩

/-- The put is taken up: its record may be cached, and its write is spawned. -/
theorem holds_handle_put {old : Option Record} {p : Record} {isClientPut : Bool}
    {clock : List Time} {store : NodeRecordStore} {spawned : List StoreTask}
    (hhandle : handleLocalCmd n cfg d.store clock (.putLocalRecord p isClientPut)
      = some (store, spawned))
    (hroom : d.store.records.entries.length < cfg.maxRecords) (htasks : d.tasks = [])
    (hdisk : d.onDisk cfg key = old) (hsynced : d.Synced cfg key) (hcache : d.CachedIs key old)
    (hnew : ∀ r, old = some r → r.value ≠ p.value) (hstorable : Storable n key p) :
    Holds n cfg key (some p) (d.handled store [] spawned) ∧
      CatchesUp cfg key (some p) d (d.handled store [] spawned) := by
  obtain ⟨rfl, htype, hdata⟩ := hstorable
  obtain ⟨recordType, htype⟩ := Option.isSome_iff_exists.mp htype
  simp only [handleLocalCmd, htype] at hhandle
  obtain ⟨⟨res, store, spawned⟩, hput, heq⟩ := Option.map_eq_some_iff.mp hhandle
  cases heq
  have hfresh : ∀ e, d.store.recordsCache.get p.key = some e → e.1.value ≠ p.value :=
    fun e he => hnew e.1 (hcache e he).symm
  obtain ⟨rfl, hrecords, hcached⟩ := NodeRecordStore.putVerified_room hput hroom hfresh
  have hkept :
      (d.handled store [] [.write p recordType]).onDisk cfg p.key = d.onDisk cfg p.key := by
    show (if (store.records.lookup p.key).isSome then _ else _) = _
    rw [hrecords]
    rfl
  have hnow : (d.handled store [] [.write p recordType]).CachedIs p.key (some p) :=
    fun e he => congrArg some (hcached e he)
  refine ⟨.writing p recordType rfl ?_ rfl ?_ hnow ⟨rfl, ?_, hdata⟩, ?_⟩
  · show d.tasks ++ _ = _
    rw [htasks]
    rfl
  · intro hindexed
    refine hsynced ?_
    rw [← hrecords]
    exact hindexed
  · rw [htype]
    rfl
  · cases hget : store.recordsCache.get p.key with
    | some e =>
      refine .inr ?_
      rw [visible_of_cached hget, hcached e hget]
    | none =>
      refine .inl ?_
      rw [visible_of_not_cached hget, hkept, visible_eq hdisk hcache, hdisk]

theorem holds_run_write {p : Record} {recordType : ValidationType}
    (hbytes : (prepareRecordBytes cfg p).isSome) (hcommands : d.commands = [])
    (hcache : d.CachedIs key (some p)) (hstorable : Storable n key p)
    (hd' : d' = d.ran (StoreTask.run cfg d.disk .succeeded (.write p recordType)).1 []
      (StoreTask.run cfg d.disk .succeeded (.write p recordType)).2) :
    Holds n cfg key (some p) d' ∧ CatchesUp cfg key (some p) d d' := by
  obtain ⟨rfl, -, hdata⟩ := hstorable
  obtain ⟨bytes, dataType, hbytes, hrun⟩ := run_write_succeeded hdata hbytes d.disk recordType
  rw [hrun] at hd'
  have hstore : d'.store = d.store := by rw [hd']; rfl
  have hfile : readFromDisk cfg d'.disk p.key = some p := by
    rw [hd']
    exact readFromDisk_written hbytes d.disk
  refine ⟨.written p recordType dataType rfl ?_ ?_ hfile ?_, ?_⟩
  · rw [hd']
    rfl
  · rw [hd']
    show d.commands ++ _ = _
    rw [hcommands]
    rfl
  · intro e he
    rw [hstore] at he
    exact hcache e he
  cases hget : d.store.recordsCache.get p.key with
  | some e =>
    refine .inl ?_
    rw [visible_of_cached hget, visible_of_cached (by rw [hstore, hget])]
  | none =>
    rw [CatchesUp, visible_of_not_cached hget, visible_of_not_cached (by rw [hstore, hget])]
    -- Only an indexed key is read from its file.
    cases hlookup : d.store.records.lookup p.key with
    | none =>
      refine .inl ?_
      rw [onDisk_not_indexed hlookup, onDisk_not_indexed (by rw [hstore, hlookup])]
    | some entry =>
      refine .inr ?_
      rw [onDisk_indexed (by rw [hstore, hlookup]; rfl), hfile]

theorem holds_handle_add {p : Record} {recordType : ValidationType} {dataType : DataTypes}
    (htasks : d.tasks = []) (hfile : readFromDisk cfg d.disk key = some p)
    (hcache : d.CachedIs key (some p))
    (hd' : d' = d.handled (d.store.markAsStored n key recordType dataType) [] []) :
    Holds n cfg key (some p) d' ∧ CatchesUp cfg key (some p) d d' := by
  subst hd'
  have hindexed : ((d.store.markAsStored n key recordType dataType).records.lookup key).isSome := by
    rw [NodeRecordStore.lookup_markAsStored, if_pos rfl]
    rfl
  have hdrained : (d.handled (d.store.markAsStored n key recordType dataType) [] []).Drained :=
    ⟨(List.append_nil _).trans htasks, rfl⟩
  have hholds : Holds n cfg key (some p)
      (d.handled (d.store.markAsStored n key recordType dataType) [] []) := by
    refine .quiet hdrained ((onDisk_indexed hindexed).trans hfile) ?_ hcache
    intro _
    show (readFromDisk cfg d.disk key).isSome
    rw [hfile]
    rfl
  exact ⟨hholds, .inr (hholds.visible_of_drained hdrained)⟩

/-- **A smooth step of the driver keeps the register's value, and what is read stays or catches
up with it.** -/
theorem holds_driverStep {label : DriverLabel} (hwithin : label.Within key)
    (hsmooth : Smooth cfg d label) (hstep : driverStep n cfg d label = some d')
    (h : Holds n cfg key value d) :
    Holds n cfg key value d' ∧ CatchesUp cfg key value d d' := by
  cases label with
  | handle i clock =>
    obtain ⟨cmd, rest, store, spawned, htake, hhandle, rfl⟩ := driverStep_handle hstep
    cases h with
    | quiet hdrained _ _ _ =>
      rw [hdrained.2] at htake
      exact absurd htake Pool.take_nil
    | sent old p isClientPut hvalue htasks hcommands hdisk hsynced hcache hnew hstorable =>
      rw [hcommands] at htake
      obtain ⟨rfl, rfl⟩ := Pool.take_singleton htake
      subst hvalue
      exact holds_handle_put hhandle hsmooth htasks hdisk hsynced hcache hnew hstorable
    | writing p recordType hvalue htasks hcommands _ _ _ =>
      rw [hcommands] at htake
      exact absurd htake Pool.take_nil
    | written p recordType dataType hvalue htasks hcommands hfile hcache =>
      rw [hcommands] at htake
      obtain ⟨rfl, rfl⟩ := Pool.take_singleton htake
      subst hvalue
      cases hhandle
      exact holds_handle_add htasks hfile hcache rfl
  | runTask i outcome =>
    obtain ⟨task, rest, htake, hd'⟩ := driverStep_runTask hstep
    obtain ⟨rfl, hbytes⟩ := hsmooth
    cases h with
    | quiet hdrained _ _ _ =>
      rw [hdrained.1] at htake
      exact absurd htake Pool.take_nil
    | sent _ _ _ _ htasks _ _ _ _ _ _ =>
      rw [htasks] at htake
      exact absurd htake Pool.take_nil
    | writing p recordType hvalue htasks hcommands hsynced hcache hstorable =>
      have hat := Pool.getElem?_of_take htake
      rw [htasks] at htake
      obtain ⟨rfl, rfl⟩ := Pool.take_singleton htake
      have hwrite : (prepareRecordBytes cfg p).isSome := by
        refine hbytes p ?_
        unfold DriverState.writeAt
        rw [hat]
        rfl
      subst hvalue
      exact holds_run_write hwrite hcommands hcache hstorable hd'
    | written _ _ _ _ htasks _ _ _ =>
      rw [htasks] at htake
      exact absurd htake Pool.take_nil
  | get k =>
    obtain rfl : k = key := hwithin
    have hsame : d.read cfg k = d' := Option.some.inj hstep
    rw [read_synced h.synced] at hsame
    subst hsame
    exact ⟨h, .inl rfl⟩
  | put record isClientPut | remove k => exact absurd hwithin id

end Autonomi
