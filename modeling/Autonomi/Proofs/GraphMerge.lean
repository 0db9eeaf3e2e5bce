/-
Graph entries: no accepted entry is lost, if records are read one at a time.

A validation that reads between another's read and its put merges with a set that is
about to be replaced, and then one of the two is lost, though both return `Ok`.
-/
import Autonomi.Proofs.Counters

namespace Autonomi

open Lib

variable {n : Node} {cfg : NodeRecordStoreConfig} {key : RecordKey}

def storedEntries (stored : Option Record) : List GraphEntry :=
  (localEntries (.ok stored)).getD []

/-- What is stored, if anything, is a set of entries. -/
def EntrySet (stored : Option Record) : Prop :=
  ∃ entries, localEntries (.ok stored) = some entries ∧ entries.Nodup

def MayMerge (n : Node) (key : RecordKey) (job : Job) (found : Found) (record : Record) : Prop :=
  ∃ merged, record = ⟨key, .ofGraphEntries merged⟩ ∧
    EntriesReplace n job.record.value.entries key found merged

def Job.validEntries (n : Node) (key : RecordKey) (job : Job) : List GraphEntry :=
  Autonomi.validEntries n job.record.value.entries key

/-- All valid entries were in the set already. -/
def AllKnown (n : Node) (key : RecordKey) (job : Job) (found : Found) : Prop :=
  ∃ old, localEntries found = some old ∧
    old.length = (mergedEntries n job.record.value.entries key old).length

/-- What the result of a validation tells about its valid entries. -/
def MergeResult (n : Node) (key : RecordKey) (job : Job) :
    StoreState → Except PutValidationError Unit → Prop
  | .fresh, .ok _ => job.validEntries n key = []
  | .read found, .ok _ => AllKnown n key job found
  | .seen found, .ok _ => AllKnown n key job found
  | .wrote record, .ok _ => ∀ e ∈ job.validEntries n key, e ∈ storedEntries (some record)
  | .wrote _, .error _ => False
  | _, .error _ => True

/-! ### One put -/

variable {entries : List GraphEntry} {e : GraphEntry}

theorem mem_mergedEntries {old : List GraphEntry} :
    e ∈ mergedEntries n entries key old ↔ e ∈ validEntries n entries key ∨ e ∈ old :=
  BTreeSet.mem_extend _

theorem nodup_mergedEntries {old : List GraphEntry} : (mergedEntries n entries key old).Nodup :=
  BTreeSet.nodup_extend _ nodup_validEntries

theorem storedEntries_ofGraphEntries {k : RecordKey} :
    storedEntries (some ⟨k, .ofGraphEntries entries⟩) = entries := rfl

variable {job : Job} {p : Record}

theorem MayMerge.storable {found : Found} (h : MayMerge n key job found p) : Storable n key p := by
  obtain ⟨merged, rfl, -⟩ := h
  exact ⟨rfl, rfl, rfl⟩

variable {v : Option Record}

theorem MayMerge.new (h : MayMerge n key job (.ok v) p) : ∀ r, v = some r → r.value ≠ p.value := by
  rintro r rfl hvalue
  obtain ⟨merged, rfl, -, old, hold, -, hlen⟩ := h
  have hsame : localEntries (.ok (some r)) = some merged := by
    show r.value.asGraphEntries = some merged
    rw [hvalue]
    rfl
  rw [hsame] at hold
  cases hold
  exact hlen rfl

theorem MayMerge.mem (h : MayMerge n key job (.ok v) p) (e : GraphEntry) :
    e ∈ storedEntries (some p) ↔ e ∈ storedEntries v ∨ e ∈ job.validEntries n key := by
  obtain ⟨merged, rfl, -, old, hold, rfl, -⟩ := h
  have hv : storedEntries v = old := by
    unfold storedEntries
    rw [hold]
    rfl
  rw [storedEntries_ofGraphEntries, mem_mergedEntries, hv, or_comm]
  rfl

theorem MayMerge.entrySet {found : Found} (h : MayMerge n key job found p) : EntrySet (some p) := by
  obtain ⟨merged, rfl, -, old, -, rfl, -⟩ := h
  exact ⟨_, rfl, nodup_mergedEntries⟩

theorem mem_of_allKnown (hset : EntrySet v) (h : AllKnown n key job (.ok v))
    (he : e ∈ job.validEntries n key) : e ∈ storedEntries v := by
  obtain ⟨old, hold, hlen⟩ := h
  obtain ⟨entries, hentries, hnodup⟩ := hset
  cases hold.symm.trans hentries
  have hsub : old ⊆ mergedEntries n job.record.value.entries key old :=
    fun x hx => mem_mergedEntries.mpr (.inr hx)
  have hperm := (List.subperm_of_subset hnodup hsub).perm_of_length_le (le_of_eq hlen.symm)
  unfold storedEntries
  rw [hold]
  exact hperm.mem_iff.mpr (mem_mergedEntries.mpr (.inl he))

/-! ### Histories of puts -/

variable {value : Option Record}

theorem mem_storedEntries_of_history {initial : Option Record} {writers : List Job}
    (h : History (Puts (MayMerge n key)) initial writers value) (e : GraphEntry) :
    e ∈ storedEntries value ↔
      e ∈ storedEntries initial ∨ ∃ job ∈ writers, e ∈ job.validEntries n key := by
  induction h with
  | nil => simp
  | @snoc js j v v' hpast hupdate ih =>
    obtain ⟨p, hput, rfl⟩ := hupdate
    rw [hput.mem, ih]
    simp only [List.mem_append, List.mem_singleton, or_and_right, exists_or, exists_eq_left,
      or_assoc]

theorem storedEntries_subset (h : Leads (Puts (MayMerge n key)) v value)
    (he : e ∈ storedEntries v) :
    e ∈ storedEntries value := by
  obtain ⟨writers, hhistory⟩ := h
  exact (mem_storedEntries_of_history hhistory e).mpr (.inl he)

theorem EntrySet.leads (hset : EntrySet v) (h : Leads (Puts (MayMerge n key)) v value) :
    EntrySet value := by
  obtain ⟨writers, hhistory⟩ := h
  cases hhistory with
  | nil => exact hset
  | snoc _ hupdate =>
    obtain ⟨p, hput, rfl⟩ := hupdate
    exact hput.entrySet

/-! ### Runs -/

theorem MergeResult.past (st : StoreState) (x : Except PutValidationError Unit)
    (h : MergeResult n key job st x) : MergeResult n key job st.past x := by
  cases st with
  | fresh | seen found | wrote record => exact h
  | read found => cases x <;> exact h

theorem keepsTo_mayMerge (job : Job) (hjob : OfType .graphEntry key job) :
    KeepsTo key (MayMerge n key) (MergeResult n key) job .fresh (job.start n).run := by
  obtain ⟨source, record⟩ := job
  obtain ⟨rfl, hdata⟩ := hjob
  have hstores : StoresObey n (MayMerge n record.key ⟨source, record⟩)
      (MergeResult n record.key ⟨source, record⟩) record .graphEntry := by
    refine ⟨fun h => absurd h (by decide), fun h => absurd h (by decide), fun _ isClientPut => ?_⟩
    refine obeys_graphEntries (fun _ => trivial) rfl (fun _ _ => trivial) (fun hempty => hempty)
      (fun found old hold hlen => ⟨old, hold, hlen⟩) fun found merged hreplace => ?_
    refine Fallible.obeys_request ⟨merged, rfl, hreplace⟩ fun _ e he => ?_
    obtain ⟨-, old, -, rfl, -⟩ := hreplace
    exact mem_mergedEntries.mpr (.inl he)
  exact obeys_start MergeResult.past (fun _ => trivial) hstores (by decide) source hdata

theorem mem_of_ok {initial : Option Record} {v : Running} (hset : EntrySet initial)
    (hstands : Stands key (MayMerge n key) (MergeResult n key) initial value v)
    (hok : v.program = .done (.ok ())) (he : e ∈ v.job.validEntries n key) :
    e ∈ storedEntries value := by
  obtain ⟨st, hkeeps, hpart, -⟩ := hstands
  rw [hok] at hkeeps
  have hresult : MergeResult n key v.job st (.ok ()) := hkeeps
  -- Either it found its entries in what it read, or it put them.
  have hread : ∀ found, (∃ u, found = .ok u ∧ Leads (Puts (MayMerge n key)) initial u ∧
      Leads (Puts (MayMerge n key)) u value) → AllKnown n key v.job found →
      e ∈ storedEntries value := by
    rintro _ ⟨u, rfl, hbefore, hafter⟩ hknown
    exact storedEntries_subset hafter (mem_of_allKnown (hset.leads hbefore) hknown he)
  cases st with
  | fresh =>
    have hempty : v.job.validEntries n key = [] := hresult
    rw [hempty] at he
    cases he
  | read found | seen found => exact hread found hpart hresult
  | wrote record => exact storedEntries_subset hpart (hresult e he)

theorem ok_of_wrote {record : Record} {result : Except PutValidationError Unit}
    (h : KeepsTo key (MayMerge n key) (MergeResult n key) job (.wrote record) (.done result)) :
    result = .ok () := by
  cases result with
  | ok _ => rfl
  | error e => exact False.elim h

/--
**No accepted entry is lost**: once a run of validations of graph entries at one address
has drained, the stored entries are those stored at first and all valid entries of the
validations that returned `Ok`, if the records are read one at a time.
-/
theorem entries_never_lost (n : Node) (cfg : NodeRecordStoreConfig) (key : RecordKey)
    (s s' : NodeState) (labels : List NodeLabel) (hidle : s.Idle cfg key)
    (hset : EntrySet (s.driver.visible cfg key))
    (hrun : GuardedRun (nodeStep n cfg)
      (fun s label => label.Within (OfType .graphEntry key) key ∧ Steady cfg s label ∧
        ReadsAlone s label) s labels s') (hdrained : s'.Drained) (e : GraphEntry) :
    e ∈ storedEntries (s'.driver.visible cfg key) ↔
      e ∈ storedEntries (s.driver.visible cfg key) ∨
      ∃ v ∈ s'.validations, v.program = .done (.ok ()) ∧ e ∈ v.job.validEntries n key := by
  obtain ⟨⟨writers, value, hserial⟩, -⟩ := serial_run keepsTo_mayMerge
    (fun _ _ _ h => MayMerge.storable h) (fun _ _ _ h => MayMerge.new h) hrun hidle.serial
  rw [hserial.holds.visible_of_drained hdrained.1]
  constructor
  · intro he
    rcases (mem_storedEntries_of_history hserial.history e).mp he with he | ⟨job, hjob, he⟩
    · exact .inl he
    · obtain ⟨i, v, record, hv, rfl, hkeeps⟩ := hserial.wrote job hjob
      have hmem := List.mem_of_getElem? hv
      obtain ⟨result, hdone⟩ := hdrained.2 v hmem
      rw [hdone] at hkeeps
      obtain rfl := ok_of_wrote hkeeps
      exact .inr ⟨v, hmem, hdone, he⟩
  · rintro (he | ⟨v, hmem, hdone, he⟩)
    · exact (mem_storedEntries_of_history hserial.history e).mpr (.inl he)
    · obtain ⟨i, hv⟩ := List.getElem?_of_mem hmem
      exact mem_of_ok hset (hserial.stands i v hv) hdone he

/-! ### Two validations side by side -/

namespace Sample

def graphEntry (content : UInt8) : GraphEntry where
  owner := owner
  parents := []
  content := Vector.replicate 32 content
  descendants := []
  signature := Vector.replicate 96 1

def entryRecord (contents : List UInt8) : Record :=
  ⟨cutKey, .ofGraphEntries (contents.map graphEntry)⟩

def entryConfig : NodeRecordStoreConfig :=
  storeConfig [(entryRecord [1]).value, (entryRecord [2]).value, (entryRecord [1, 2]).value]

/-- What a run leaves behind: the stored record, whether it has drained, and the results. -/
def outcome (s : NodeState) : Option Record × Bool × List (Job × Option Bool) :=
  (s.driver.visible entryConfig cutKey, decide s.Drained,
    s.validations.map fun v => (v.job, v.accepted))

def entriesInTurn : List NodeLabel :=
  arrives (entryRecord [1]) :: readAndPut 0 ++ settle
    ++ arrives (entryRecord [2]) :: readAndPut 1 ++ settle

def entriesRacing : List NodeLabel :=
  [arrives (entryRecord [1]), arrives (entryRecord [2]), .answer 0 silence, .answer 1 silence,
    .answer 0 silence, .answer 1 silence, .driver (.handle 0 []), .driver (.runTask 0 .succeeded),
    .driver (.handle 1 [])] ++ settle

theorem idleNode_entrySet : EntrySet (idleNode.driver.visible entryConfig cutKey) :=
  ⟨[], rfl, List.nodup_nil⟩

end Sample

open Sample

theorem entries_never_lost_sample :
    ∃ s : NodeState, s.driver.visible Sample.entryConfig Sample.cutKey
        = some (Sample.entryRecord [1, 2]) ∧
      ∀ e, e ∈ storedEntries (s.driver.visible Sample.entryConfig Sample.cutKey) ↔
        e ∈ storedEntries (Sample.idleNode.driver.visible Sample.entryConfig Sample.cutKey) ∨
        ∃ v ∈ s.validations, v.program = .done (.ok ()) ∧
          e ∈ v.job.validEntries Sample.cuttingNode Sample.cutKey := by
  have hend : (runGuarded (nodeStep cuttingNode entryConfig)
      (fun s label => label.Within (OfType .graphEntry cutKey) cutKey ∧
        Steady entryConfig s label ∧ ReadsAlone s label)
      idleNode entriesInTurn).map outcome
      = some (some (entryRecord [1, 2]), true,
          [(⟨.replicated, entryRecord [1]⟩, some true),
            (⟨.replicated, entryRecord [2]⟩, some true)]) := by
    decide
  obtain ⟨s, hrun, houtcome⟩ := Option.map_eq_some_iff.mp hend
  obtain ⟨hstored, houtcome⟩ := Prod.mk.inj houtcome
  have hdrained : s.Drained := of_decide_eq_true (Prod.mk.inj houtcome).1
  exact ⟨s, hstored, entries_never_lost cuttingNode entryConfig
    cutKey idleNode s _ (idleNode_idle _ _) idleNode_entrySet
    (guardedRun_of_runGuarded hrun) hdrained⟩

/-- Two validations that both read before either puts: both return `Ok`, one entry is lost. -/
theorem entry_lost :
    ¬ ∀ (n : Node) (cfg : NodeRecordStoreConfig) (key : RecordKey) (s s' : NodeState)
        (labels : List NodeLabel), s.Idle cfg key → EntrySet (s.driver.visible cfg key) →
      GuardedRun (nodeStep n cfg)
        (fun s label => label.Within (OfType .graphEntry key) key ∧ Steady cfg s label)
        s labels s' → s'.Drained → ∀ e,
      (e ∈ storedEntries (s'.driver.visible cfg key) ↔
        e ∈ storedEntries (s.driver.visible cfg key) ∨
        ∃ v ∈ s'.validations, v.program = .done (.ok ()) ∧ e ∈ v.job.validEntries n key) := by
  intro h
  have hend : (runGuarded (nodeStep cuttingNode entryConfig)
      (fun s label => label.Within (OfType .graphEntry cutKey) cutKey ∧
        Steady entryConfig s label) idleNode entriesRacing).map outcome
      = some (some (entryRecord [2]), true,
          [(⟨.replicated, entryRecord [1]⟩, some true),
            (⟨.replicated, entryRecord [2]⟩, some true)]) := by
    decide
  obtain ⟨s, hrun, houtcome⟩ := Option.map_eq_some_iff.mp hend
  obtain ⟨hstored, houtcome⟩ := Prod.mk.inj houtcome
  have hdrained : s.Drained := of_decide_eq_true (Prod.mk.inj houtcome).1
  have hfirst : ((⟨.replicated, entryRecord [1]⟩, some true) : Job × Option Bool)
      ∈ s.validations.map fun v => (v.job, v.accepted) := by
    rw [(Prod.mk.inj houtcome).2]
    exact List.mem_cons_self
  obtain ⟨v, hmem, hv⟩ := List.mem_map.mp hfirst
  obtain ⟨hjob, haccepted⟩ := Prod.mk.inj hv
  have hkept := (h _ _ _ _ s _ (idleNode_idle _ _) idleNode_entrySet
    (guardedRun_of_runGuarded hrun) hdrained (graphEntry 1)).mpr
    (.inr ⟨v, hmem, v.accepted_eq_true haccepted, by rw [hjob]; decide⟩)
  rw [hstored] at hkept
  exact absurd hkept (by decide)

end Autonomi
