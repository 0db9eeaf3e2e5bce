/-
The index and the files, once everything has drained.

A put changes the file first and the index later, a removal the index first and the file
later, and nothing orders the tasks and reports of one key among each other.

With at most one of them in flight for a key, it is in one of a few phases, and every
step moves it from one to the next.
-/
import Autonomi.Proofs.PaidPuts
import Autonomi.Proofs.RecordStore

namespace Autonomi

open Lib List Pool NodeRecordStore

/-- The key a report to the driver is about; a put is not a report. -/
def LocalSwarmCmd.reportOf : LocalSwarmCmd → Option RecordKey
  | .putLocalRecord _ _ => none
  | .addLocalRecordAsStored key _ _ => some key
  | .removeFailedLocalRecord key => some key
  | .removeOutOfSyncEntry key => some key

section Phases

variable (n : Node) (cfg : NodeRecordStoreConfig)

variable (d : DriverState)

def DriverState.tasksFor (key : RecordKey) : List StoreTask :=
  ofKind StoreTask.key key d.tasks

def DriverState.reportsFor (key : RecordKey) : List LocalSwarmCmd :=
  ofKind LocalSwarmCmd.reportOf (some key) d.commands

def DriverState.Free (key : RecordKey) : Prop :=
  d.tasksFor key = [] ∧ d.reportsFor key = []

def IndexEntry.TellsOf (entry : IndexEntry) (record : Record) : Prop :=
  localRecordType n record = some entry.validationType ∧
    record.value.getDataType = some entry.dataType

/-- No entry and no file, or an entry that tells of the record in the file. -/
def Agree (key : RecordKey) : Prop :=
  (d.store.records.lookup key = none ∧ d.disk key = none) ∨
    ∃ entry record, d.store.records.lookup key = some entry ∧
      readFromDisk cfg d.disk key = some record ∧ entry.TellsOf n record

/-- The phases of a key with at most one task or report in flight, apart from requests to
prune an index entry that is gone anyway. -/
inductive Phase (d : DriverState) (key : RecordKey) : Prop
  | settled (hfree : d.Free key) (hagree : Agree n cfg d key)
  | writing (record : Record) (recordType : ValidationType)
      (htasks : d.tasksFor key = [.write record recordType]) (hreports : d.reportsFor key = [])
      (htype : localRecordType n record = some recordType) (hagree : Agree n cfg d key)
  | written (record : Record) (entry : IndexEntry) (htasks : d.tasksFor key = [])
      (hreports : d.reportsFor key
        = [.addLocalRecordAsStored key entry.validationType entry.dataType])
      (hfile : readFromDisk cfg d.disk key = some record) (htells : entry.TellsOf n record)
  | failed (others : List LocalSwarmCmd) (htasks : d.tasksFor key = [])
      (hreports : (d.reportsFor key).Perm (.removeFailedLocalRecord key :: others))
      (hothers : ∀ cmd ∈ others, cmd = .removeOutOfSyncEntry key)
  | removing (htasks : d.tasksFor key = [.removeFile key])
      (hindex : d.store.records.lookup key = none)
      (hothers : ∀ cmd ∈ d.reportsFor key, cmd = .removeOutOfSyncEntry key)
  | removed (htasks : d.tasksFor key = []) (hindex : d.store.records.lookup key = none)
      (hfile : d.disk key = none)
      (hothers : ∀ cmd ∈ d.reportsFor key, cmd = .removeOutOfSyncEntry key)

end Phases

variable {n : Node} {cfg : NodeRecordStoreConfig} {d d' : DriverState} {key : RecordKey}

theorem readFromDisk_congr {disk disk' : Disk} (h : disk' key = disk key) :
    readFromDisk cfg disk' key = readFromDisk cfg disk key := by
  unfold readFromDisk
  rw [h]

theorem Agree.congr (h : Agree n cfg d key)
    (hindex : d'.store.records.lookup key = d.store.records.lookup key)
    (hfile : d'.disk key = d.disk key) : Agree n cfg d' key := by
  unfold Agree at h ⊢
  rw [hindex, hfile, readFromDisk_congr hfile]
  exact h

/-- A phase depends only on the key's own entry, file, tasks and reports. -/
theorem Phase.congr (h : Phase n cfg d key)
    (hindex : d'.store.records.lookup key = d.store.records.lookup key)
    (hfile : d'.disk key = d.disk key) (htasks : d'.tasksFor key = d.tasksFor key)
    (hreports : d'.reportsFor key = d.reportsFor key) : Phase n cfg d' key := by
  cases h with
  | settled hfree hagree =>
    exact .settled ⟨htasks ▸ hfree.1, hreports ▸ hfree.2⟩ (hagree.congr hindex hfile)
  | writing record recordType ht hr htype hagree =>
    exact .writing record recordType (htasks ▸ ht) (hreports ▸ hr) htype (hagree.congr hindex hfile)
  | written record entry ht hr hread htells =>
    exact .written record entry (htasks ▸ ht) (hreports ▸ hr)
      (readFromDisk_congr hfile ▸ hread) htells
  | failed others ht hr hothers =>
    exact .failed others (htasks ▸ ht) (hreports ▸ hr) hothers
  | removing ht hi hothers =>
    exact .removing (htasks ▸ ht) (hindex ▸ hi) (hreports ▸ hothers)
  | removed ht hi hf hothers =>
    exact .removed (htasks ▸ ht) (hindex ▸ hi) (hfile ▸ hf) (hreports ▸ hothers)

theorem Phase.agree_of_free (h : Phase n cfg d key) (hfree : d.Free key) : Agree n cfg d key := by
  obtain ⟨hnotask, hnoreport⟩ := hfree
  cases h with
  | settled _ hagree | writing record recordType ht hr htype hagree => exact hagree
  | written record entry ht hr hread htells => rw [hnoreport] at hr; cases hr
  | failed others ht hr hothers => rw [hnoreport] at hr; simp at hr
  | removing ht hi hothers => rw [hnotask] at ht; cases ht
  | removed ht hi hf hothers => exact .inl ⟨hi, hf⟩

variable {record : Record} {k : RecordKey}

/-! ### Handling a command -/

section Handle

variable {cmd : LocalSwarmCmd} {rest : List LocalSwarmCmd} {i : Nat} {clock : List Time}
  {store : NodeRecordStore} {spawned : List StoreTask}

theorem tasksFor_handled :
    (d.handled store rest spawned).tasksFor key
      = d.tasksFor key ++ ofKind StoreTask.key key spawned := ofKind_append

theorem reportsFor_taken (htake : Pool.take d.commands i = some (cmd, rest))
    (hcmd : cmd.reportOf = some key) :
    (d.reportsFor key).Perm (cmd :: ofKind LocalSwarmCmd.reportOf (some key) rest) :=
  ofKind_take_self htake hcmd

/-- A key that neither the command nor what it spawned is about is left alone. -/
theorem phase_handled_other (htake : Pool.take d.commands i = some (cmd, rest))
    (hphase : Phase n cfg d key) (hcmd : cmd.reportOf ≠ some key)
    (hindex : store.records.lookup key = d.store.records.lookup key)
    (hspawned : ∀ task ∈ spawned, task.key ≠ key) :
    Phase n cfg (d.handled store rest spawned) key := by
  refine hphase.congr hindex rfl ?_ (ofKind_take_other htake hcmd)
  have hnone : ofKind StoreTask.key key spawned = [] := by
    simpa [ofKind] using hspawned
  rw [tasksFor_handled, hnone, append_nil]

theorem phase_handle_put {isClientPut : Bool}
    (htake : Pool.take d.commands i = some (.putLocalRecord record isClientPut, rest))
    (hhandle : handleLocalCmd n cfg d.store clock (.putLocalRecord record isClientPut)
      = some (store, spawned))
    (hfree : d.Free record.key)
    (hroom : d.store.records.entries.length < cfg.maxRecords ∨
      ∀ far ∈ d.store.farthestRecord, far.1 ≠ record.key ∧ d.Free far.1)
    (hphase : ∀ k, Phase n cfg d k) :
    Phase n cfg (d.handled store rest spawned) key := by
  have hcmd : ∀ k, (LocalSwarmCmd.putLocalRecord record isClientPut).reportOf ≠ some k :=
    fun k => nofun
  have hreports : (d.handled store rest spawned).reportsFor key = d.reportsFor key :=
    ofKind_take_other htake (hcmd key)
  unfold handleLocalCmd at hhandle
  cases htype : localRecordType n record with
  | none =>
    simp only [htype] at hhandle
    cases hhandle
    exact phase_handled_other htake (hphase key) (hcmd key) rfl (by simp)
  | some recordType =>
    simp only [htype] at hhandle
    obtain ⟨⟨res, _, _⟩, hput, heq⟩ := Option.map_eq_some_iff.mp hhandle
    cases heq
    rcases putVerified_cases hput with
      ⟨rfl, hindex⟩ | ⟨rfl, hindex, -⟩ | ⟨far, dist, hfar, hlen, -, rfl, hindex⟩
    · exact phase_handled_other htake (hphase key) (hcmd key) (by rw [hindex]) (by simp)
    · by_cases hkey : record.key = key
      · -- The write is the only thing in flight for the key.
        subst hkey
        refine .writing record recordType ?_ (hreports.trans hfree.2) htype
          (((hphase record.key).agree_of_free hfree).congr (by rw [← hindex]; rfl) rfl)
        rw [tasksFor_handled, hfree.1]
        exact ofKind_cons_self rfl
      · exact phase_handled_other htake (hphase key) (hcmd key) (by rw [hindex])
          (by simpa [StoreTask.key] using hkey)
    · obtain ⟨hne, hfarfree⟩ := hroom.resolve_left (not_lt.mpr hlen) (far, dist) hfar
      by_cases hkey : record.key = key
      · subst hkey
        have hlookup : store.records.lookup record.key = d.store.records.lookup record.key := by
          rw [hindex, if_neg (Ne.symm hne)]
        refine .writing record recordType ?_ (hreports.trans hfree.2) htype
          (((hphase record.key).agree_of_free hfree).congr hlookup rfl)
        rw [tasksFor_handled, hfree.1, ofKind_cons_other (by exact hne)]
        exact ofKind_cons_self rfl
      by_cases hfarkey : far = key
      · -- The farthest record goes, and its file is all that is left to remove.
        subst hfarkey
        have hgone : store.records.lookup far = none := by
          rw [hindex, if_pos rfl]
        refine .removing ?_ hgone ?_
        · rw [tasksFor_handled, hfarfree.1, ofKind_cons_self (by rfl),
            ofKind_cons_other (by exact hkey)]
          rfl
        · rw [hreports, hfarfree.2]
          simp
      · refine phase_handled_other htake (hphase key) (hcmd key) ?_ ?_
        · rw [hindex, if_neg (Ne.symm hfarkey)]
        · intro task htask
          rcases mem_cons.mp htask with rfl | htask
          · exact hfarkey
          · rw [mem_singleton.mp htask]
            exact hkey

theorem phase_handle_add {recordType : ValidationType} {dataType : DataTypes}
    (htake : Pool.take d.commands i = some (.addLocalRecordAsStored k recordType dataType, rest))
    (hphase : Phase n cfg d key) :
    Phase n cfg (d.handled (d.store.markAsStored n k recordType dataType) rest []) key := by
  by_cases hkey : k = key
  · subst hkey
    have hperm := reportsFor_taken htake rfl
    have hmem := hperm.symm.subset mem_cons_self
    cases hphase with
    | written record entry ht hr hread htells =>
      obtain ⟨hcmd, hnone⟩ := ofKind_take_singleton htake rfl hr
      cases hcmd
      refine .settled ⟨?_, hnone⟩ (.inr
        ⟨⟨.recordKey k, entry.validationType, entry.dataType⟩, record, ?_, hread, htells⟩)
      · rw [tasksFor_handled, ht]
        rfl
      · exact lookup_markAsStored.trans (if_pos rfl)
    | settled hfree hagree => rw [hfree.2] at hmem; cases hmem
    | writing record recordType ht hr htype hagree => rw [hr] at hmem; cases hmem
    | failed others ht hr hothers =>
      rcases mem_cons.mp (hr.subset hmem) with hmem | hmem
      · cases hmem
      · cases hothers _ hmem
    | removing ht hi hothers | removed ht hi hf hothers => cases hothers _ hmem
  · exact phase_handled_other htake hphase (mt Option.some.inj hkey)
      (lookup_markAsStored.trans (if_neg (Ne.symm hkey))) (by simp)

theorem phase_handle_failed
    (htake : Pool.take d.commands i = some (.removeFailedLocalRecord k, rest))
    (hphase : Phase n cfg d key) :
    Phase n cfg (d.handled (d.store.remove n k).1 rest (d.store.remove n k).2) key := by
  by_cases hkey : k = key
  · subst hkey
    have hperm := reportsFor_taken htake rfl
    have hmem := hperm.symm.subset mem_cons_self
    cases hphase with
    | failed others ht hr hothers =>
      -- The one such report is gone, and the others only ask for a prune.
      have hleft := (hperm.symm.trans hr).cons_inv
      refine .removing ?_ (lookup_remove.trans (if_pos rfl)) ?_
      · rw [tasksFor_handled, ht]
        exact ofKind_cons_self rfl
      · intro cmd hcmd
        exact hothers cmd (hleft.subset hcmd)
    | settled hfree hagree => rw [hfree.2] at hmem; cases hmem
    | writing record recordType ht hr htype hagree => rw [hr] at hmem; cases hmem
    | written record entry ht hr hread htells => rw [hr] at hmem; cases mem_singleton.mp hmem
    | removing ht hi hothers | removed ht hi hf hothers => cases hothers _ hmem
  · refine phase_handled_other htake hphase (mt Option.some.inj hkey)
      (lookup_remove.trans (if_neg (Ne.symm hkey))) fun task htask => ?_
    rw [show task = .removeFile k from mem_singleton.mp htask]
    exact hkey

/-- A request to prune comes only when the entry is gone, or about to go. -/
theorem phase_handle_outOfSync
    (htake : Pool.take d.commands i = some (.removeOutOfSyncEntry k, rest))
    (hphase : Phase n cfg d key) :
    Phase n cfg (d.handled (d.store.pruningIndexingCache n k) rest []) key := by
  by_cases hkey : k = key
  · subst hkey
    have hperm := reportsFor_taken htake rfl
    have hmem := hperm.symm.subset mem_cons_self
    have hgone : (d.store.pruningIndexingCache n k).records.lookup k = none :=
      lookup_pruningIndexingCache.trans (if_pos rfl)
    have htasks : (d.handled (d.store.pruningIndexingCache n k) rest []).tasksFor k
        = d.tasksFor k := by
      rw [tasksFor_handled, ofKind_nil, append_nil]
    cases hphase with
    | failed others ht hr hothers =>
      -- What is left is the failure, and the requests without this one.
      have hin : LocalSwarmCmd.removeOutOfSyncEntry k ∈ others := by
        rcases mem_cons.mp (hr.subset hmem) with hcmd | hcmd
        · cases hcmd
        · exact hcmd
      refine .failed (others.erase (.removeOutOfSyncEntry k)) (htasks.trans ht) ?_ ?_
      · have hsplit := (perm_cons_erase hin).cons (.removeFailedLocalRecord k)
        exact (hperm.symm.trans (hr.trans (hsplit.trans (List.Perm.swap _ _ _)))).cons_inv
      · intro cmd hcmd
        exact hothers cmd (mem_of_mem_erase hcmd)
    | removing ht hi hothers =>
      refine .removing (htasks.trans ht) hgone ?_
      intro cmd hcmd
      exact hothers cmd (hperm.symm.subset (mem_cons_of_mem _ hcmd))
    | removed ht hi hf hothers =>
      refine .removed (htasks.trans ht) hgone hf ?_
      intro cmd hcmd
      exact hothers cmd (hperm.symm.subset (mem_cons_of_mem _ hcmd))
    | settled hfree hagree => rw [hfree.2] at hmem; cases hmem
    | writing record recordType ht hr htype hagree => rw [hr] at hmem; cases hmem
    | written record entry ht hr hread htells => rw [hr] at hmem; cases mem_singleton.mp hmem
  · exact phase_handled_other htake hphase (mt Option.some.inj hkey)
      (lookup_pruningIndexingCache.trans (if_neg (Ne.symm hkey))) (by simp)

end Handle

/-! ### Running a task -/

section RunTask

variable {task : StoreTask} {rest : List StoreTask} {i : Nat} {outcome : FileOutcome}

theorem reportsFor_ran {disk : Disk} {sent : List LocalSwarmCmd} :
    (d.ran disk rest sent).reportsFor key
      = d.reportsFor key ++ ofKind LocalSwarmCmd.reportOf (some key) sent := ofKind_append

theorem run_other (cfg : NodeRecordStoreConfig) (disk : Disk) (outcome : FileOutcome)
    (hkey : task.key ≠ key) :
    (task.run cfg disk outcome).1 key = disk key ∧
      ofKind LocalSwarmCmd.reportOf (some key) (task.run cfg disk outcome).2 = [] := by
  cases task with
  | removeFile k =>
    cases outcome with
    | succeeded => exact ⟨Function.update_of_ne (Ne.symm hkey) _ _, rfl⟩
    | failed left => exact ⟨rfl, rfl⟩
  | write record recordType =>
    have hne : some record.key ≠ some key := mt Option.some.inj hkey
    rcases run_write_cases cfg disk outcome record recordType with
      hrun | ⟨bytes, dataType, -, -, -, hrun⟩ | ⟨left, -, hrun⟩
    · rw [hrun]
      exact ⟨rfl, rfl⟩
    · rw [hrun]
      exact ⟨Function.update_of_ne (Ne.symm hkey) _ _, ofKind_cons_other hne⟩
    · rw [hrun]
      exact ⟨Function.update_of_ne (Ne.symm hkey) _ _, ofKind_cons_other hne⟩

theorem phase_run_write {recordType : ValidationType}
    (htake : Pool.take d.tasks i = some (.write record recordType, rest))
    (hphase : Phase n cfg d record.key) :
    Phase n cfg (d.ran (StoreTask.run cfg d.disk outcome (.write record recordType)).1 rest
      (StoreTask.run cfg d.disk outcome (.write record recordType)).2) record.key := by
  cases hphase with
  | writing record' recordType' ht hr htype hagree =>
    obtain ⟨htask, hnone⟩ := ofKind_take_singleton htake rfl ht
    cases htask
    rcases run_write_cases cfg d.disk outcome record recordType with
      hrun | ⟨bytes, dataType, hbytes, hdata, -, hrun⟩ | ⟨left, -, hrun⟩
    · rw [hrun]
      refine .settled ⟨hnone, ?_⟩ (hagree.congr rfl rfl)
      rw [reportsFor_ran, hr]
      rfl
    · rw [hrun]
      refine .written record ⟨.recordKey record.key, recordType, dataType⟩ hnone ?_
        (readFromDisk_written hbytes d.disk) ⟨htype, hdata⟩
      rw [reportsFor_ran, hr]
      exact ofKind_cons_self rfl
    · rw [hrun]
      refine .failed [] hnone ?_ (by simp)
      rw [reportsFor_ran, hr, ofKind_cons_self (by rfl)]
      exact List.Perm.refl _
  | settled hfree hagree => exact absurd hfree.1 (not_ofKind_nil_of_take htake rfl)
  | removing ht hi hothers => cases (ofKind_take_singleton htake rfl ht).1
  | written record entry ht hr hread htells | failed others ht hr hothers
  | removed ht hi hf hothers => exact absurd ht (not_ofKind_nil_of_take htake rfl)

theorem phase_run_removeFile
    (htake : Pool.take d.tasks i = some (.removeFile k, rest)) (hphase : Phase n cfg d k) :
    Phase n cfg (d.ran (StoreTask.run cfg d.disk .succeeded (.removeFile k)).1 rest
      (StoreTask.run cfg d.disk .succeeded (.removeFile k)).2) k := by
  cases hphase with
  | removing ht hi hothers =>
    obtain ⟨-, hnone⟩ := ofKind_take_singleton htake rfl ht
    refine .removed hnone hi (Function.update_self k _ _) ?_
    rw [reportsFor_ran]
    simpa [StoreTask.run] using hothers
  | writing record recordType ht hr htype hagree =>
    cases (ofKind_take_singleton htake rfl ht).1
  | settled hfree hagree => exact absurd hfree.1 (not_ofKind_nil_of_take htake rfl)
  | written record entry ht hr hread htells | failed others ht hr hothers
  | removed ht hi hf hothers => exact absurd ht (not_ofKind_nil_of_take htake rfl)

end RunTask

/-! ### Every step -/

theorem Agree.not_outOfSync (h : Agree n cfg d key) : d.store.outOfSync cfg d.disk key = false := by
  unfold outOfSync
  rcases h with ⟨hindex, -⟩ | ⟨entry, record, -, hread, -⟩
  · simp [hindex]
  · simp [hread]

theorem phase_get (hphase : Phase n cfg d key) :
    Phase n cfg (d.read cfg k) key := by
  unfold DriverState.read
  by_cases hsync : d.store.outOfSync cfg d.disk k = true
  · rw [if_pos hsync]
    have hreports : (d.send (.removeOutOfSyncEntry k)).reportsFor key
        = d.reportsFor key ++ ofKind LocalSwarmCmd.reportOf (some key)
          [.removeOutOfSyncEntry k] := ofKind_append
    by_cases hkey : k = key
    · subst hkey
      rw [ofKind_cons_self (by rfl)] at hreports
      have hindexed : d.store.records.lookup k ≠ none := by
        intro hnone
        simp [outOfSync, hnone] at hsync
      have hunread : readFromDisk cfg d.disk k = none := by
        unfold outOfSync at hsync
        simp only [Bool.and_eq_true, Option.isNone_iff_eq_none] at hsync
        exact hsync.2
      -- Only after a failed write is an indexed file not readable.
      cases hphase with
      | failed others ht hr hothers =>
        refine .failed (others ++ [.removeOutOfSyncEntry k]) ht ?_ ?_
        · exact hreports ▸ hr.append_right _
        · intro cmd hcmd
          rcases mem_append.mp hcmd with hcmd | hcmd
          · exact hothers cmd hcmd
          · exact mem_singleton.mp hcmd
      | settled hfree hagree => rw [hagree.not_outOfSync] at hsync; cases hsync
      | writing record recordType ht hr htype hagree =>
        rw [hagree.not_outOfSync] at hsync
        cases hsync
      | written record entry ht hr hread htells => rw [hunread] at hread; cases hread
      | removing ht hi hothers | removed ht hi hf hothers => exact absurd hi hindexed
    · rw [ofKind_cons_other (by exact mt Option.some.inj hkey), ofKind_nil,
        append_nil] at hreports
      exact hphase.congr rfl rfl rfl hreports
  · rw [if_neg hsync]
    exact hphase

theorem phase_put {isClientPut : Bool} (hphase : Phase n cfg d key) :
    Phase n cfg (d.send (.putLocalRecord record isClientPut)) key := by
  refine hphase.congr rfl rfl rfl ?_
  have hreports : (d.send (.putLocalRecord record isClientPut)).reportsFor key
      = d.reportsFor key ++ ofKind LocalSwarmCmd.reportOf (some key)
        [.putLocalRecord record isClientPut] := ofKind_append
  rw [hreports, ofKind_cons_other (by nofun), ofKind_nil, append_nil]

theorem phase_remove (hfree : d.Free k) (hphase : Phase n cfg d key) :
    Phase n cfg { d with
      store := (d.store.remove n k).1, tasks := d.tasks ++ (d.store.remove n k).2 } key := by
  have htasks : ofKind StoreTask.key key (d.tasks ++ (d.store.remove n k).2)
      = d.tasksFor key ++ ofKind StoreTask.key key [.removeFile k] := ofKind_append
  by_cases hkey : k = key
  · subst hkey
    rw [hfree.1, ofKind_cons_self (by rfl)] at htasks
    refine .removing htasks (lookup_remove.trans (if_pos rfl)) ?_
    intro cmd hcmd
    have hcmd : cmd ∈ d.reportsFor k := hcmd
    rw [hfree.2] at hcmd
    cases hcmd
  · rw [ofKind_cons_other hkey, ofKind_nil, append_nil] at htasks
    exact hphase.congr (lookup_remove.trans (if_neg (Ne.symm hkey))) rfl htasks rfl

def DriverState.putAt (d : DriverState) (i : Nat) : Option Record :=
  match d.commands[i]? with
  | some (.putLocalRecord record _) => some record
  | _ => none

def DriverState.removalAt (d : DriverState) (i : Nat) : Option RecordKey :=
  match d.tasks[i]? with
  | some (.removeFile key) => some key
  | _ => none

/--
The rule that keeps one thing in flight for each key: a key is put or removed only
when no task and no report of it is outstanding; if room has to be made for a put,
the same goes for the farthest key, which is another one; and files can be removed.
-/
def OneInFlight (cfg : NodeRecordStoreConfig) (d : DriverState) : DriverLabel → Prop
  | .handle i _ => ∀ record ∈ d.putAt i, d.Free record.key ∧
      (d.store.records.entries.length < cfg.maxRecords ∨
        ∀ far ∈ d.store.farthestRecord, far.1 ≠ record.key ∧ d.Free far.1)
  | .runTask i outcome => ∀ _ ∈ d.removalAt i, outcome = .succeeded
  | .remove key => d.Free key
  | .get _ => True
  | .put _ _ => True

instance (d : DriverState) (key : RecordKey) : Decidable (d.Free key) :=
  inferInstanceAs (Decidable (_ ∧ _))

instance (cfg : NodeRecordStoreConfig) (d : DriverState) :
    (label : DriverLabel) → Decidable (OneInFlight cfg d label)
  | .handle i _ => inferInstanceAs (Decidable (∀ record ∈ d.putAt i, d.Free record.key ∧
      (d.store.records.entries.length < cfg.maxRecords ∨
        ∀ far ∈ d.store.farthestRecord, far.1 ≠ record.key ∧ d.Free far.1)))
  | .runTask i outcome =>
    inferInstanceAs (Decidable (∀ _ ∈ d.removalAt i, outcome = .succeeded))
  | .remove key => inferInstanceAs (Decidable (d.Free key))
  | .get _ | .put _ _ => isTrue trivial

theorem putAt_of_take {i : Nat} {isClientPut : Bool} {rest : List LocalSwarmCmd}
    (h : Pool.take d.commands i = some (.putLocalRecord record isClientPut, rest)) :
    d.putAt i = some record := by
  unfold DriverState.putAt
  rw [getElem?_of_take h]

theorem removalAt_of_take {i : Nat} {rest : List StoreTask}
    (h : Pool.take d.tasks i = some (.removeFile k, rest)) : d.removalAt i = some k := by
  unfold DriverState.removalAt
  rw [getElem?_of_take h]

/-- **A guarded step keeps every key in a phase.** -/
theorem phase_step {label : DriverLabel} (hguard : OneInFlight cfg d label)
    (hstep : driverStep n cfg d label = some d') (hphase : ∀ k, Phase n cfg d k) :
    ∀ k, Phase n cfg d' k := by
  intro key
  cases label with
  | handle i clock =>
    obtain ⟨cmd, rest, store, spawned, htake, hhandle, rfl⟩ := driverStep_handle hstep
    cases cmd with
    | putLocalRecord record isClientPut =>
      obtain ⟨hfree, hroom⟩ := hguard record (putAt_of_take htake)
      exact phase_handle_put htake hhandle hfree hroom hphase
    | addLocalRecordAsStored k recordType dataType =>
      cases hhandle
      exact phase_handle_add htake (hphase key)
    | removeFailedLocalRecord k =>
      cases hhandle
      exact phase_handle_failed htake (hphase key)
    | removeOutOfSyncEntry k =>
      cases hhandle
      exact phase_handle_outOfSync htake (hphase key)
  | runTask i outcome =>
    obtain ⟨task, rest, htake, rfl⟩ := driverStep_runTask hstep
    by_cases hkey : task.key = key
    · subst hkey
      cases task with
      | write record recordType => exact phase_run_write htake (hphase record.key)
      | removeFile k =>
        obtain rfl := hguard k (removalAt_of_take htake)
        exact phase_run_removeFile htake (hphase k)
    · obtain ⟨hfile, hsent⟩ := run_other cfg d.disk outcome hkey
      refine (hphase key).congr rfl hfile (ofKind_take_other htake hkey) ?_
      rw [reportsFor_ran, hsent, append_nil]
  | get k =>
    cases hstep
    exact phase_get (hphase key)
  | put record isClientPut =>
    cases hstep
    exact phase_put (hphase key)
  | remove k =>
    cases hstep
    exact phase_remove hguard (hphase key)

/-! ### Drained -/

/-- A key is in the index if and only if it has a file, and what is not a chunk is indexed by
the hash of the decrypted file. -/
def Consistent (n : Node) (cfg : NodeRecordStoreConfig) (d : DriverState) : Prop :=
  ∀ key, ((d.store.records.lookup key).isSome ↔ (d.disk key).isSome) ∧
    ∀ entry, d.store.records.lookup key = some entry → entry.dataType ≠ .chunk →
      ∃ record, readFromDisk cfg d.disk key = some record ∧
        entry.validationType = .nonChunk (record.value.contentHash n.crypto n.serialize)

theorem IndexEntry.TellsOf.nonChunk {entry : IndexEntry}
    (h : entry.TellsOf n record) (hnot : entry.dataType ≠ .chunk) :
    entry.validationType = .nonChunk (record.value.contentHash n.crypto n.serialize) := by
  obtain ⟨htype, hdata⟩ := h
  unfold localRecordType at htype
  unfold RecordValue.getDataType at hdata
  cases hkind : record.value.kind with
  | none => rw [hkind] at htype; cases htype
  | some kind =>
    rw [hkind] at htype hdata
    cases kind with
    | dataWithPayment t | dataWithMerklePayment t => cases htype
    | dataOnly t =>
      obtain rfl : t = entry.dataType := Option.some.inj hdata
      cases hentry : entry.dataType with
      | chunk => exact absurd hentry hnot
      | graphEntry | pointer
      | scratchpad => rw [hentry] at htype; exact (Option.some.inj htype).symm

theorem consistent_of_agree (h : ∀ key, Agree n cfg d key) : Consistent n cfg d := by
  intro key
  rcases h key with ⟨hindex, hfile⟩ | ⟨entry, record, hindex, hread, htells⟩
  · refine ⟨by simp [hindex, hfile], ?_⟩
    intro entry hentry
    rw [hindex] at hentry
    cases hentry
  · have hfile : (d.disk key).isSome := by
      obtain ⟨bytes, hbytes, -⟩ := Option.bind_eq_some_iff.mp hread
      rw [hbytes]
      rfl
    refine ⟨by rw [hindex]; exact ⟨fun _ => hfile, fun _ => rfl⟩, ?_⟩
    intro entry' hentry hnot
    rw [hindex] at hentry
    cases hentry
    exact ⟨record, hread, htells.nonChunk hnot⟩

theorem free_of_drained (h : d.Drained) (key : RecordKey) : d.Free key := by
  rw [DriverState.Free, DriverState.tasksFor, DriverState.reportsFor, h.1, h.2]
  exact ⟨ofKind_nil, ofKind_nil⟩

/-- Index and files agree after a run that keeps one thing in flight for each key. -/
theorem agree_of_run {labels : List DriverLabel} (hdrained : d.Drained)
    (hagree : ∀ key, Agree n cfg d key)
    (hrun : GuardedRun (driverStep n cfg) (OneInFlight cfg) d labels d')
    (hdrained' : d'.Drained) (key : RecordKey) : Agree n cfg d' key := by
  have hstart : ∀ k, Phase n cfg d k := fun k => .settled (free_of_drained hdrained k) (hagree k)
  have hend := hrun.invariant
    (fun _ _ _ hphase hguard hstep => phase_step hguard hstep hphase) hstart
  exact (hend key).agree_of_free (free_of_drained hdrained' key)

namespace Sample

/-- A cipher that knows a list of values, and writes down their positions. -/
def cipher (values : List RecordValue) : Cipher where
  encrypt _ value :=
    (values.idxOf? value).bind fun i => if i < 256 then some [UInt8.ofNat i] else none
  decrypt _ bytes := match bytes with
    | [b] => values[b.toNat]?
    | _ => none
  decrypt_encrypt := by
    intro nonce value bytes h
    obtain ⟨i, hi, h⟩ := Option.bind_eq_some_iff.mp h
    by_cases hlt : i < 256
    · rw [if_pos hlt] at h
      cases h
      obtain ⟨hbound, hvalue, -⟩ := List.idxOf?_eq_some_iff.mp hi
      show values[(UInt8.ofNat i).toNat]? = some value
      rw [UInt8.toNat_ofNat_of_lt' hlt, List.getElem?_eq_getElem hbound]
      exact congrArg some (by simpa using hvalue)
    · rw [if_neg hlt] at h
      cases h

def emptyStore : NodeRecordStore where
  records := ∅
  recordsByDistance := ∅
  recordsCache := { recordsCache := ∅, cacheSize := 25, cacheTimeout := 360 }
  farthestRecord := none

def storeConfig (values : List RecordValue) : NodeRecordStoreConfig where
  maxRecords := 10
  cipher := cipher values
  nonceStarter := Vector.replicate 4 0

def emptyDriver : DriverState where
  store := emptyStore
  disk := fun _ => none
  tasks := []
  commands := []

def version (counter : UInt64) : Record := ⟨ownerKey, .ofScratchpad { scratchpad with counter }⟩

def twoVersions : NodeRecordStoreConfig := storeConfig [(version 1).value, (version 2).value]

/-- Both versions are put, the second is written first, and reported last. -/
def crossing : List DriverLabel :=
  [.put (version 1) true, .put (version 2) true, .handle 0 [1, 1], .handle 0 [2, 2],
    .runTask 1 .succeeded, .runTask 0 .succeeded, .handle 1 [], .handle 0 []]

def inTurn : List DriverLabel :=
  [.put (version 1) true, .handle 0 [1, 1], .runTask 0 .succeeded, .handle 0 [],
    .put (version 2) true, .handle 0 [2, 2], .runTask 0 .succeeded, .handle 0 []]

theorem emptyDriver_drained : emptyDriver.Drained := ⟨rfl, rfl⟩

theorem emptyDriver_agree (key : RecordKey) : Agree node twoVersions emptyDriver key :=
  .inl ⟨rfl, rfl⟩

end Sample

open Sample

end Autonomi
