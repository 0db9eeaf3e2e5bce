/-
Counters of pointers and scratchpads.

A validation lets a pointer or a scratchpad through if its counter is higher than
that of the local record it has read.  Between that read and the put taking effect
other validations may have put as well, and then an older version can replace a
newer one.  If reads keep to `ReadsAlone`, every put is of a higher counter than the
value it replaces, and what is stored never goes back.
-/
import Autonomi.Proofs.Dispatch
import Autonomi.Proofs.Serial
import Autonomi.Proofs.StoreConsistency

namespace Autonomi

open Lib

/-- A version of a pointer or a scratchpad, and its counter. -/
inductive VersionOf : DataTypes → RecordValue → UInt64 → Prop
  | pointer (p : Pointer) : VersionOf .pointer (.ofPointer p) p.counter
  | scratchpad (pad : Scratchpad) : VersionOf .scratchpad (.ofScratchpad pad) pad.counter

/-- What is found is a version, if anything is found. -/
def Versioned (dataType : DataTypes) (stored : Option Record) : Prop :=
  ∀ record, stored = some record → ∃ counter, VersionOf dataType record.value counter

/-- A stored version is kept, or replaced by one with a higher counter. -/
def NeverBack (dataType : DataTypes) (before after : Option Record) : Prop :=
  ∀ old counter, before = some old → VersionOf dataType old.value counter →
    ∃ new counter', after = some new ∧ VersionOf dataType new.value counter' ∧
      (new = old ∨ counter < counter')

def MayPut (n : Node) (dataType : DataTypes) (key : RecordKey) (found : Found)
    (record : Record) : Prop :=
  match dataType with
  | .pointer => ∃ p, record = ⟨key, .ofPointer p⟩ ∧ p.Replaces n key found
  | .scratchpad => ∃ pad, record = ⟨key, .ofScratchpad pad⟩ ∧ pad.Replaces n key found
  | _ => False

variable {n : Node} {key : RecordKey} {dataType : DataTypes}

/-! ### One put -/

theorem MayPut.storable {found : Found} {p : Record} (h : MayPut n dataType key found p) :
    Storable n key p := by
  cases dataType with
  | pointer =>
    obtain ⟨p, rfl, -⟩ := h
    exact ⟨rfl, rfl, rfl⟩
  | scratchpad =>
    obtain ⟨pad, rfl, -⟩ := h
    exact ⟨rfl, rfl, rfl⟩
  | chunk | graphEntry => exact False.elim h

theorem localPointer_ofPointer {r : Record} {p : Pointer} (h : r.value = .ofPointer p) :
    localPointer (.ok (some r)) = some p := by
  show (if r.value.kind = some (.dataOnly .pointer) then r.value.asPointer else none) = some p
  rw [h]
  rfl

theorem MayPut.counter_lt {old p : Record} {counter : UInt64}
    (h : MayPut n dataType key (.ok (some old)) p) (hold : VersionOf dataType old.value counter) :
    ∃ counter', VersionOf dataType p.value counter' ∧ counter < counter' := by
  obtain ⟨k, value⟩ := old
  cases hold with
  | pointer q =>
    obtain ⟨p, rfl, -, -, hcounter⟩ := h
    exact ⟨p.counter, .pointer p, hcounter q (localPointer_ofPointer rfl)⟩
  | scratchpad q =>
    obtain ⟨pad, rfl, -, -, -, localRecord, hfound, holder⟩ := h
    obtain ⟨q', hq', hlt⟩ := holder _ (Except.ok.inj hfound).symm
    cases hq'
    exact ⟨pad.counter, .scratchpad pad, hlt⟩

theorem MayPut.version {found : Found} {p : Record} (h : MayPut n dataType key found p) :
    ∃ counter, VersionOf dataType p.value counter := by
  cases dataType with
  | pointer =>
    obtain ⟨p, rfl, -⟩ := h
    exact ⟨p.counter, .pointer p⟩
  | scratchpad =>
    obtain ⟨pad, rfl, -⟩ := h
    exact ⟨pad.counter, .scratchpad pad⟩
  | chunk | graphEntry => exact False.elim h

/-! ### Histories of puts -/

theorem VersionOf.unique {value : RecordValue} {counter counter' : UInt64}
    (h : VersionOf dataType value counter) (h' : VersionOf dataType value counter') :
    counter = counter' := by
  cases h with
  | pointer p =>
    generalize hvalue : RecordValue.ofPointer p = value at h'
    cases h' with
    | pointer q =>
      cases hvalue
      rfl
  | scratchpad pad =>
    generalize hvalue : RecordValue.ofScratchpad pad = value at h'
    cases h' with
    | scratchpad q =>
      cases hvalue
      rfl

theorem MayPut.new {v : Option Record} {p : Record} (h : MayPut n dataType key (.ok v) p) :
    ∀ r, v = some r → r.value ≠ p.value := by
  rintro r rfl hvalue
  obtain ⟨counter, hversion⟩ := h.version
  obtain ⟨counter', hversion', hlt⟩ := h.counter_lt (hvalue ▸ hversion)
  rw [hversion.unique hversion'] at hlt
  exact UInt64.lt_irrefl _ hlt

theorem NeverBack.refl {stored : Option Record} : NeverBack dataType stored stored :=
  fun old counter hold hversion => ⟨old, counter, hold, hversion, .inl rfl⟩

theorem NeverBack.trans {a b c : Option Record} (hab : NeverBack dataType a b)
    (hbc : NeverBack dataType b c) : NeverBack dataType a c := by
  intro old counter hold hversion
  obtain ⟨mid, counter', hmid, hversion', hstep⟩ := hab old counter hold hversion
  obtain ⟨new, counter'', hnew, hversion'', hstep'⟩ := hbc mid counter' hmid hversion'
  refine ⟨new, counter'', hnew, hversion'', ?_⟩
  rcases hstep with rfl | hlt <;> rcases hstep' with rfl | hlt'
  · exact .inl rfl
  · rw [hversion.unique hversion']
    exact .inr hlt'
  · rw [hversion''.unique hversion']
    exact .inr hlt
  · exact .inr (UInt64.lt_trans hlt hlt')

theorem neverBack_of_leads {a b : Option Record}
    (h : Leads (Puts fun _ => MayPut n dataType key) a b) (ha : Versioned dataType a) :
    Versioned dataType b ∧ NeverBack dataType a b := by
  refine h.relation (R := fun a b => Versioned dataType a →
    Versioned dataType b ∧ NeverBack dataType a b) ?_ ?_ ?_ ha
  · exact fun v hv => ⟨hv, .refl⟩
  · intro u v w huv hvw hu
    obtain ⟨hv, hback⟩ := huv hu
    obtain ⟨hw, hback'⟩ := hvw hv
    exact ⟨hw, hback.trans hback'⟩
  · rintro _ v _ ⟨p, hput, rfl⟩ hv
    refine ⟨?_, ?_⟩
    · intro record hrecord
      cases hrecord
      exact hput.version
    · rintro old counter rfl hversion
      obtain ⟨counter', hversion', hlt⟩ := hput.counter_lt hversion
      exact ⟨p, counter', rfl, hversion', .inr hlt⟩

/-! ### Runs -/

theorem keepsTo_mayPut (htype : dataType = .pointer ∨ dataType = .scratchpad) (job : Job)
    (hjob : OfType dataType key job) :
    KeepsTo key (fun _ => MayPut n dataType key) (fun _ _ _ => True) job .fresh
      (job.start n).run := by
  obtain ⟨source, record⟩ := job
  obtain ⟨rfl, hdata⟩ := hjob
  refine obeys_start (fun _ _ _ => trivial) (fun _ => trivial) ⟨?_, ?_, ?_⟩ ?_ source hdata
  · rintro rfl pad isClientPut
    exact follows_scratchpad fun found hreplaces => ⟨pad, rfl, hreplaces⟩
  · rintro rfl p isClientPut
    exact follows_pointer fun found hreplaces => ⟨p, rfl, hreplaces⟩
  · rintro rfl
    exact absurd htype (by decide)
  · rintro rfl
    exact absurd htype (by decide)

/--
**What is stored never goes back**, in any run of validations of pointers or scratchpads
at one address, from any stored version, if the records are read one at a time.
-/
theorem counters_never_back (n : Node) (cfg : NodeRecordStoreConfig) (dataType : DataTypes)
    (key : RecordKey) (s s₁ s₂ : NodeState) (labels₁ labels₂ : List NodeLabel)
    (htype : dataType = .pointer ∨ dataType = .scratchpad) (hidle : s.Idle cfg key)
    (hversion : Versioned dataType (s.driver.visible cfg key))
    (hrun₁ : GuardedRun (nodeStep n cfg)
      (fun s label => label.Within (OfType dataType key) key ∧ Steady cfg s label ∧
        ReadsAlone s label) s labels₁ s₁)
    (hrun₂ : GuardedRun (nodeStep n cfg)
      (fun s label => label.Within (OfType dataType key) key ∧ Steady cfg s label ∧
        ReadsAlone s label) s₁ labels₂ s₂) :
    NeverBack dataType (s₁.driver.visible cfg key) (s₂.driver.visible cfg key) := by
  obtain ⟨⟨writers, value, hserial⟩, hleads₁⟩ := serial_run (keepsTo_mayPut htype)
    (fun _ _ _ h => MayPut.storable h) (fun _ _ _ h => MayPut.new h) hrun₁ hidle.serial
  obtain ⟨-, hleads₂⟩ := serial_run (keepsTo_mayPut htype)
    (fun _ _ _ h => MayPut.storable h) (fun _ _ _ h => MayPut.new h) hrun₂ hserial
  exact (neverBack_of_leads hleads₂ (neverBack_of_leads hleads₁ hversion).1).2

/-! ### Two validations side by side -/

namespace Sample

/-- A hash that keeps the first bytes, which is quick to run on short strings. -/
def cut (bytes : Bytes) : Bytes32 := Vector.ofFn fun i => bytes.getD i.val 0

def cuttingNode : Node :=
  { node with crypto := { Crypto.simple with sha3_256 := cut, sha256 := cut } }

def cutKey : RecordKey := List.replicate 32 1

def padVersion (counter : UInt64) : Record := ⟨cutKey, .ofScratchpad { scratchpad with counter }⟩

def padConfig : NodeRecordStoreConfig := storeConfig [(padVersion 1).value, (padVersion 2).value]

def idleNode : NodeState := ⟨emptyDriver, []⟩

variable (cfg : NodeRecordStoreConfig) (key : RecordKey)

theorem idleNode_visible : idleNode.driver.visible cfg key = none := rfl

theorem idleNode_idle : idleNode.Idle cfg key where
  driver := by
    refine ⟨emptyDriver_drained, ?_, ?_⟩
    · intro h
      exact absurd h Bool.false_ne_true
    · intro e he
      have hnone : emptyDriver.store.recordsCache.get key = none := rfl
      exact absurd (hnone.symm.trans he) (Option.some_ne_none e).symm
  validations := rfl

theorem idleNode_versioned : Versioned .scratchpad (idleNode.driver.visible cfg key) := by
  intro record hrecord
  exact absurd ((idleNode_visible cfg key).symm.trans hrecord) (Option.some_ne_none record).symm

def silence : (q : NodeRequest) → q.Response
  | .isRecordKeyPresentLocally _ => .ok none
  | .getLocalRecord _ => .ok none
  | .putLocalRecord _ _ => ()
  | .notifyFetchCompleted _ _ => ()
  | .notifyPaymentReceived => ()
  | .getKClosestLocalPeers _ => .ok []
  | .getNetworkDensity => .ok none
  | .verifyPayment _ => .error .paymentInvalid
  | .getMerklePaymentInfo _ => .error ""
  | .getMerklePaymentPackedCommitments _ _ => .ok []
  | .getClosestPeersWithRetries _ _ => .ok []
  | .systemTimeNow => .ok 0

def arrives (record : Record) : NodeLabel := .start ⟨.replicated, record⟩

def readAndPut (i : Nat) : List NodeLabel := [.answer i silence, .answer i silence]

def settle : List NodeLabel :=
  [.driver (.handle 0 []), .driver (.runTask 0 .succeeded), .driver (.handle 0 [])]

/-- Versions 2 and 1 are both let through before either is stored; version 2 is stored. -/
def racing : List NodeLabel :=
  [arrives (padVersion 2), arrives (padVersion 1), .answer 0 silence, .answer 1 silence,
    .answer 0 silence, .answer 1 silence, .driver (.handle 0 []), .driver (.runTask 0 .succeeded),
    .driver (.handle 1 [])]

end Sample

open Sample

theorem counters_never_back_sample :
    ∃ s₁ s₂ : NodeState,
      s₁.driver.visible Sample.padConfig Sample.cutKey = some (Sample.padVersion 1) ∧
      s₂.driver.visible Sample.padConfig Sample.cutKey = some (Sample.padVersion 2) ∧
      NeverBack .scratchpad (s₁.driver.visible Sample.padConfig Sample.cutKey)
        (s₂.driver.visible Sample.padConfig Sample.cutKey) := by
  have hviews : runViews (nodeStep cuttingNode padConfig)
      (fun s label => label.Within (OfType .scratchpad cutKey) cutKey ∧
        Steady padConfig s label ∧ ReadsAlone s label)
      (fun s => s.driver.visible padConfig cutKey) idleNode
      (arrives (padVersion 1) :: readAndPut 0 ++ settle)
      (arrives (padVersion 2) :: readAndPut 1 ++ settle)
      = some (some (padVersion 1), some (padVersion 2)) := by
    decide
  obtain ⟨s₁, s₂, hrun₁, hrun₂, hvisible₁, hvisible₂⟩ := guardedRuns_of_views hviews
  exact ⟨s₁, s₂, hvisible₁, hvisible₂, counters_never_back cuttingNode padConfig
    .scratchpad cutKey idleNode s₁ s₂ _ _ (.inr rfl)
    (idleNode_idle _ _) (idleNode_versioned _ _) hrun₁ hrun₂⟩

/-- Two validations that both read before either puts can store the older version last. -/
theorem counters_go_back :
    ¬ ∀ (n : Node) (cfg : NodeRecordStoreConfig) (dataType : DataTypes) (key : RecordKey)
        (s s₁ s₂ : NodeState) (labels₁ labels₂ : List NodeLabel),
      (dataType = .pointer ∨ dataType = .scratchpad) → s.Idle cfg key →
      Versioned dataType (s.driver.visible cfg key) →
      GuardedRun (nodeStep n cfg)
        (fun s label => label.Within (OfType dataType key) key ∧ Steady cfg s label) s labels₁ s₁ →
      GuardedRun (nodeStep n cfg)
        (fun s label => label.Within (OfType dataType key) key ∧ Steady cfg s label)
        s₁ labels₂ s₂ →
      NeverBack dataType (s₁.driver.visible cfg key) (s₂.driver.visible cfg key) := by
  intro h
  have hviews : runViews (nodeStep cuttingNode padConfig)
      (fun s label => label.Within (OfType .scratchpad cutKey) cutKey ∧ Steady padConfig s label)
      (fun s => s.driver.visible padConfig cutKey) idleNode racing settle
      = some (some (padVersion 2), some (padVersion 1)) := by
    decide
  obtain ⟨s₁, s₂, hrun₁, hrun₂, hvisible₁, hvisible₂⟩ := guardedRuns_of_views hviews
  have hback := h _ _ .scratchpad _ _ _ _ _ _ (.inr rfl) (idleNode_idle _ _)
    (idleNode_versioned _ _) hrun₁ hrun₂
  obtain ⟨new, counter, hnew, hversion, hstep⟩ := hback (padVersion 2) 2 hvisible₁
    (.scratchpad { scratchpad with counter := 2 })
  cases hvisible₂.symm.trans hnew
  rw [hversion.unique (.scratchpad { scratchpad with counter := 1 })] at hstep
  exact absurd hstep (by decide)

end Autonomi
