/-
The data type of what is stored under a key.

Chunks, scratchpads, graph entries and pointers of one owner share a record key.  Chunks
give way to whatever is stored, scratchpads and graph entries refuse to replace anything
else than their own, but a pointer takes a record of another type for no pointer at all
and replaces it.
-/
import Autonomi.Proofs.Chunks
import Autonomi.Proofs.GraphMerge

namespace Autonomi

open Lib

inductive Written : RecordValue → Prop
  | chunk (chunk : Chunk) : Written (.ofChunk chunk)
  | scratchpad (pad : Scratchpad) : Written (.ofScratchpad pad)
  | graphEntries (entries : List GraphEntry) : Written (.ofGraphEntries entries)
  | pointer (p : Pointer) : Written (.ofPointer p)

def StoredWritten (stored : Option Record) : Prop := ∀ r, stored = some r → Written r.value

/-- A stored record stays, or is replaced by one of the same type. -/
def SameType (before after : Option Record) : Prop :=
  ∀ r, before = some r → ∃ r', after = some r' ∧ r'.value.getDataType = r.value.getDataType

theorem SameType.refl (stored : Option Record) : SameType stored stored :=
  fun r hr => ⟨r, hr, rfl⟩

theorem SameType.trans {a b c : Option Record} (hab : SameType a b) (hbc : SameType b c) :
    SameType a c := by
  intro r hr
  obtain ⟨r', hr', htype⟩ := hab r hr
  obtain ⟨r'', hr'', htype'⟩ := hbc r' hr'
  exact ⟨r'', hr'', htype'.trans htype⟩

/-! ### What a validation does, given what is stored -/

def QuietRest : Remaining → Prop
  | .done _ => True
  | .ask q next => q.Quiet ∧ ∀ x, QuietRest (next x)

/-- At most one put, of a record in `keeps`, if the driver answers with this record and this
index entry. -/
def Behaves (key : RecordKey) (value : Option Record) (entry : Option IndexEntry)
    (keeps : Record → Prop) : Remaining → Prop
  | .done _ => True
  | .ask (.putLocalRecord p _) next => keeps p ∧ QuietRest (next ())
  | .ask (.getLocalRecord k) next => k = key ∧ Behaves key value entry keeps (next (.ok value))
  | .ask (.isRecordKeyPresentLocally k) next =>
    ∀ x, (k = key → x = .ok entry) → Behaves key value entry keeps (next x)
  | .ask _ next => ∀ x, Behaves key value entry keeps (next x)

variable {n : Node} {cfg : NodeRecordStoreConfig} {key : RecordKey} {value : Option Record}
  {entry : Option IndexEntry} {keeps : Record → Prop} {program : Remaining}

variable {allowed : Found → Record → Prop}
  {post : StoreState → Except PutValidationError Unit → Prop}

theorem quietRest_of_wrote {record : Record}
    (h : Program.Obeys (storeMonitor key allowed) post (.wrote record) program) :
    QuietRest program := by
  induction program with
  | done result => trivial
  | ask q next ih =>
    have hquiet := quiet_of_wrote h.1
    refine ⟨hquiet, fun x => ih x ?_⟩
    have hnext := h.2 x
    rw [(monitor_quiet key allowed _ hquiet).2 x] at hnext
    exact hnext

theorem behaves_of_obeys {st : StoreState} (hkeeps : ∀ p, allowed (.ok value) p → keeps p)
    (h : Program.Obeys (storeMonitor key allowed) post st program)
    (hst : ∀ found, st = .read found → found = .ok value) :
    Behaves key value entry keeps program := by
  induction program generalizing st with
  | done result => trivial
  | ask q next ih =>
    have hpast : ∀ found, st.past = .read found → found = .ok value :=
      fun found hread => absurd hread StoreState.past_ne_read
    cases q with
    | putLocalRecord p isClientPut =>
      obtain ⟨found, rfl, hallowed⟩ := read_of_allowed h.1
      rw [hst found rfl] at hallowed
      exact ⟨hkeeps p hallowed, quietRest_of_wrote (h.2 ())⟩
    | getLocalRecord k =>
      obtain ⟨rfl, rfl⟩ := key_of_allowed h.1
      refine ⟨rfl, ih (.ok value) (h.2 (.ok value)) ?_⟩
      exact fun found hread => (StoreState.read.inj hread).symm
    | isRecordKeyPresentLocally k => exact fun x _ => ih x (h.2 x) hpast
    | _ => exact fun x => ih x (h.2 x) hpast

variable {post : ChunkState → Except PutValidationError Unit → Prop}

theorem quietRest_of_wrote_chunk
    (h : Program.Obeys (chunkMonitor key) post .wrote program) : QuietRest program := by
  induction program with
  | done result => trivial
  | ask q next ih =>
    cases q with
    | getLocalRecord k | putLocalRecord p isClientPut => exact False.elim h.1
    | isRecordKeyPresentLocally k =>
      refine ⟨trivial, fun x => ih x ?_⟩
      have hnext := h.2 x
      rcases x with e | _ | entry <;> exact hnext
    | _ => exact ⟨trivial, fun x => ih x (h.2 x)⟩

theorem behaves_of_chunk {st : ChunkState}
    (hkeeps : entry = none → ∀ p : Record, p.IsChunk key → keeps p)
    (h : Program.Obeys (chunkMonitor key) post st program)
    (hst : st = .unknown ∨ st = .absent ∧ entry = none) :
    Behaves key value entry keeps program := by
  induction program generalizing st with
  | done result => trivial
  | ask q next ih =>
    cases q with
    | putLocalRecord p isClientPut =>
      rcases hst with rfl | ⟨rfl, hentry⟩
      · exact False.elim h.1
      · exact ⟨hkeeps hentry p h.1, quietRest_of_wrote_chunk (h.2 ())⟩
    | getLocalRecord k => rcases hst with rfl | ⟨rfl, -⟩ <;> exact False.elim h.1
    | isRecordKeyPresentLocally k =>
      intro x hx
      refine ih x (h.2 x) ?_
      rcases hst with rfl | ⟨rfl, hentry⟩
      · rcases x with e | _ | found
        · exact .inl rfl
        · by_cases hk : k = key
          · have hnone : Except.ok none = Except.ok entry := hx hk
            exact .inr ⟨if_pos hk, (Except.ok.inj hnone).symm⟩
          · exact .inl (if_neg hk)
        · exact .inl rfl
      · refine .inr ⟨?_, hentry⟩
        rcases x with e | _ | found <;> rfl
    | _ =>
      intro x
      refine ih x (h.2 x) ?_
      rcases hst with rfl | ⟨rfl, hentry⟩
      · exact .inl rfl
      · exact .inr ⟨rfl, hentry⟩

/-! ### What each type may replace -/

structure KeepsType (n : Node) (key : RecordKey) (value : Option Record) (p : Record) : Prop where
  storable : Storable n key p
  written : Written p.value
  sameType : SameType value (some p)
  new : ∀ r, value = some r → r.value ≠ p.value

theorem Written.of_scratchpad {v : RecordValue} {pad : Scratchpad} (h : Written v)
    (hpad : v.asScratchpad = some pad) : v.getDataType = some .scratchpad := by
  cases h with
  | scratchpad _ => rfl
  | _ => cases hpad

theorem Written.of_graphEntries {v : RecordValue} {entries : List GraphEntry} (h : Written v)
    (hentries : v.asGraphEntries = some entries) : v.getDataType = some .graphEntry := by
  cases h with
  | graphEntries _ => rfl
  | _ => cases hentries

variable {p : Record}

theorem keepsType_pointer (h : MayPut n .pointer key (.ok value) p)
    (honly : ∀ r, value = some r → r.value.getDataType = some .pointer) :
    KeepsType n key value p := by
  refine ⟨h.storable, ?_, fun r hr => ⟨p, rfl, ?_⟩, h.new⟩
  · obtain ⟨q, rfl, -⟩ := h
    exact .pointer q
  · rw [honly r hr]
    obtain ⟨q, rfl, -⟩ := h
    rfl

theorem keepsType_scratchpad (h : MayPut n .scratchpad key (.ok value) p)
    (hwritten : StoredWritten value) : KeepsType n key value p := by
  refine ⟨h.storable, ?_, fun r hr => ⟨p, rfl, ?_⟩, h.new⟩
  · obtain ⟨pad, rfl, -⟩ := h
    exact .scratchpad pad
  · obtain ⟨pad, rfl, -, -, -, localRecord, hfound, holder⟩ := h
    cases hfound
    obtain ⟨old, hold, -⟩ := holder r hr
    rw [(hwritten r hr).of_scratchpad hold]
    rfl

variable {job : Job}

theorem keepsType_graphEntries (h : MayMerge n key job (.ok value) p)
    (hwritten : StoredWritten value) : KeepsType n key value p := by
  refine ⟨h.storable, ?_, fun r hr => ⟨p, rfl, ?_⟩, h.new⟩
  · obtain ⟨merged, rfl, -⟩ := h
    exact .graphEntries merged
  · obtain ⟨merged, rfl, -, old, hold, -⟩ := h
    subst hr
    rw [(hwritten r rfl).of_graphEntries hold]
    rfl

theorem keepsType_chunk (h : p.IsChunk key) (hnone : value = none) :
    KeepsType n key value p := by
  obtain ⟨k, v⟩ := p
  obtain ⟨rfl, chunk, rfl⟩ := h
  subst hnone
  refine ⟨⟨rfl, rfl, rfl⟩, .chunk chunk, ?_, ?_⟩
  · intro r hr
    cases hr
  · intro r hr
    cases hr

/-- A pointer is validated only where a pointer is stored or nothing. -/
def PointerOnly (value : Option Record) (job : Job) : Prop :=
  job.record.value.getDataType = some .pointer →
    ∀ r ∈ value, r.value.getDataType = some .pointer

/-- **A validation keeps the type of what is stored**, if it is not one of a pointer over
something else. -/
theorem behaves_start (hkey : job.record.key = key) (hpointer : PointerOnly value job)
    (hwritten : StoredWritten value) (hentry : entry = none → value = none) :
    Behaves key value entry (KeepsType n key value) (job.start n).run := by
  have hfresh : ∀ found, StoreState.fresh = .read found → found = .ok value :=
    fun found hread => StoreState.noConfusion hread
  cases htype : job.record.value.getDataType with
  | none =>
    have hkind : job.record.value.kind = none := Option.map_eq_none_iff.mp htype
    obtain ⟨source, record⟩ := job
    cases source with
    | client =>
      show Behaves _ _ _ _ (validateAndStoreRecord n record).run
      unfold validateAndStoreRecord
      rw [hkind]
      trivial
    | replicated =>
      show Behaves _ _ _ _ (storeReplicatedInRecord n record).run
      unfold storeReplicatedInRecord
      rw [hkind]
      trivial
  | some dataType =>
    cases dataType with
    | chunk =>
      subst hkey
      exact behaves_of_chunk (fun hnone p hp => keepsType_chunk hp (hentry hnone))
        (putsIfAbsent_start job.source htype) (.inl rfl)
    | scratchpad =>
      exact behaves_of_obeys (fun p hp => keepsType_scratchpad hp hwritten)
        (keepsTo_mayPut (.inr rfl) job ⟨hkey, htype⟩) hfresh
    | pointer =>
      exact behaves_of_obeys (fun p hp => keepsType_pointer hp (hpointer htype))
        (keepsTo_mayPut (.inl rfl) job ⟨hkey, htype⟩) hfresh
    | graphEntry =>
      exact behaves_of_obeys (fun p hp => keepsType_graphEntries hp hwritten)
        (keepsTo_mayMerge job ⟨hkey, htype⟩) hfresh

/-! ### One after the other -/

/-- Validations at the key, each begun when everything before has drained. -/
def InSequence (key : RecordKey) (s : NodeState) : NodeLabel → Prop
  | .start job => job.record.key = key ∧ s.Drained
  | .answer _ _ => True
  | .driver label => label.Within key

/-- No pointer is validated while a record of another type is stored. -/
def PointersFit (cfg : NodeRecordStoreConfig) (key : RecordKey) (s : NodeState) :
    NodeLabel → Prop
  | .start job => PointerOnly (s.driver.visible cfg key) job
  | _ => True

instance (key : RecordKey) (s : NodeState) :
    (label : NodeLabel) → Decidable (InSequence key s label)
  | .start job => inferInstanceAs (Decidable (job.record.key = key ∧ s.Drained))
  | .answer _ _ => isTrue trivial
  | .driver label => inferInstanceAs (Decidable (label.Within key))

instance (cfg : NodeRecordStoreConfig) (key : RecordKey) (s : NodeState) :
    (label : NodeLabel) → Decidable (PointersFit cfg key s label)
  | .start job => inferInstanceAs (Decidable (job.record.value.getDataType = some .pointer →
      ∀ r ∈ s.driver.visible cfg key, r.value.getDataType = some .pointer))
  | .answer _ _ | .driver _ => isTrue trivial

/-- One validation at most may still read or put, and it finds the store at rest. -/
structure InTurn (n : Node) (cfg : NodeRecordStoreConfig) (key : RecordKey)
    (value : Option Record) (s : NodeState) : Prop where
  holds : Holds n cfg key value s.driver
  written : StoredWritten value
  behind : SameType (s.driver.visible cfg key) value
  pending : ∀ (i : Nat) v, s.validations[i]? = some v → QuietRest v.program ∨
    s.driver.Drained ∧
      Behaves key value (s.driver.store.records.lookup key) (KeepsType n key value) v.program
  single : ∀ (i j : Nat) v w, s.validations[i]? = some v → s.validations[j]? = some w →
    ¬ QuietRest v.program → ¬ QuietRest w.program → i = j

variable {s s' : NodeState}

theorem Holds.none_of_lookup {d : DriverState} (h : Holds n cfg key value d)
    (hdrained : d.Drained) (hlookup : d.store.records.lookup key = none) : value = none := by
  obtain ⟨hdisk, -, -⟩ := h.settled hdrained
  rw [← hdisk, onDisk_not_indexed hlookup]

theorem NodeState.Idle.inTurn (h : s.Idle cfg key)
    (hwritten : StoredWritten (s.driver.visible cfg key)) :
    InTurn n cfg key (s.driver.visible cfg key) s := by
  exact ⟨h.holds, hwritten, .refl _, fun i v hv => absurd hv (h.none_running i v),
    fun i _ v _ hv => absurd hv (h.none_running i v)⟩

theorem inTurn_start (h : InTurn n cfg key value s) (hkey : job.record.key = key)
    (hdrained : s.Drained) (hpointer : PointerOnly (s.driver.visible cfg key) job) :
    InTurn n cfg key value
      { s with validations := s.validations ++ [⟨job, (job.start n).run⟩] } := by
  have hdone : ∀ (i : Nat) v, s.validations[i]? = some v → QuietRest v.program := by
    intro i v hv
    obtain ⟨result, hprogram⟩ := hdrained.2 v (List.mem_of_getElem? hv)
    rw [hprogram]
    trivial
  rw [h.holds.visible_of_drained hdrained.1] at hpointer
  refine ⟨h.holds, h.written, h.behind, ?_, ?_⟩
  · intro i v hv
    rcases Pool.getElem?_append_single hv with hv | ⟨-, rfl⟩
    · exact .inl (hdone i v hv)
    · exact .inr ⟨hdrained.1, behaves_start hkey hpointer h.written
        (h.holds.none_of_lookup hdrained.1)⟩
  · have hlast : ∀ {i : Nat} {v : Running}, ¬ QuietRest v.program →
        (s.validations ++ [⟨job, (job.start n).run⟩])[i]? = some v → i = s.validations.length := by
      intro i v hbusy hv
      rcases Pool.getElem?_append_single hv with hv | ⟨hi, -⟩
      · exact absurd (hdone i v hv) hbusy
      · exact hi
    intro i j v w hv hw hbusy hbusy'
    rw [hlast hbusy hv, hlast hbusy' hw]

theorem inTurn_driver {d' : DriverState} {label : DriverLabel} (h : InTurn n cfg key value s)
    (hwithin : label.Within key) (hsmooth : Smooth cfg s.driver label)
    (hstep : driverStep n cfg s.driver label = some d') :
    InTurn n cfg key value { s with driver := d' } ∧
      SameType (s.driver.visible cfg key) (d'.visible cfg key) := by
  obtain ⟨hholds, hcatches⟩ := holds_driverStep hwithin hsmooth hstep h.holds
  have hpending : ∀ (i : Nat) v, s.validations[i]? = some v → QuietRest v.program ∨
      d'.Drained ∧
        Behaves key value (d'.store.records.lookup key) (KeepsType n key value) v.program := by
    intro i v hv
    rcases h.pending i v hv with hquiet | ⟨hdrained, hbehaves⟩
    · exact .inl hquiet
    · rw [driverStep_drained hwithin hdrained h.holds.synced hstep]
      exact .inr ⟨hdrained, hbehaves⟩
  obtain ⟨hbehind, htype⟩ := hcatches.relate SameType.refl h.behind
  exact ⟨⟨hholds, h.written, hbehind, hpending, h.single⟩, htype⟩

section Answer

variable {i : Nat} {job : Job} {q : NodeRequest} {next : q.Response → Remaining}

theorem inTurn_set {rest : Remaining} (h : InTurn n cfg key value s)
    (hv : s.validations[i]? = some ⟨job, .ask q next⟩)
    (hquiet : QuietRest (.ask q next) → QuietRest rest)
    (hrest : QuietRest rest ∨ s.driver.Drained ∧
      Behaves key value (s.driver.store.records.lookup key) (KeepsType n key value) rest) :
    InTurn n cfg key value { s with validations := s.validations.set i ⟨job, rest⟩ } := by
  refine ⟨h.holds, h.written, h.behind, ?_, ?_⟩
  · intro j w hw
    rcases Pool.getElem?_set_cases hw with ⟨-, rfl⟩ | ⟨-, hw⟩
    · exact hrest
    · exact h.pending j w hw
  · -- Whoever is busy now was busy before, at the same position.
    have hbefore : ∀ {j : Nat} {w : Running}, ¬ QuietRest w.program →
        (s.validations.set i ⟨job, rest⟩)[j]? = some w →
        ∃ w', s.validations[j]? = some w' ∧ ¬ QuietRest w'.program := by
      intro j w hbusy hw
      rcases Pool.getElem?_set_cases hw with ⟨rfl, rfl⟩ | ⟨-, hw⟩
      · exact ⟨_, hv, fun hq => hbusy (hquiet hq)⟩
      · exact ⟨w, hw, hbusy⟩
    intro j k v w hv' hw hbusy hbusy'
    obtain ⟨v', hv', hbusy⟩ := hbefore hbusy hv'
    obtain ⟨w', hw, hbusy'⟩ := hbefore hbusy' hw
    exact h.single j k v' w' hv' hw hbusy hbusy'

theorem inTurn_put {isClientPut : Bool}
    {next : (NodeRequest.putLocalRecord p isClientPut).Response → Remaining}
    (h : InTurn n cfg key value s)
    (hv : s.validations[i]? = some ⟨job, .ask (.putLocalRecord p isClientPut) next⟩) :
    InTurn n cfg key (some p)
      { driver := s.driver.send (.putLocalRecord p isClientPut)
        validations := s.validations.set i ⟨job, next ()⟩ } := by
  rcases h.pending i _ hv with hquiet | ⟨hdrained, hkeeps, hrest⟩
  · exact False.elim hquiet.1
  have hall : ∀ (j : Nat) w, (s.validations.set i ⟨job, next ()⟩)[j]? = some w →
      QuietRest w.program := by
    intro j w hw
    rcases Pool.getElem?_set_cases hw with ⟨-, rfl⟩ | ⟨hj, hw⟩
    · exact hrest
    · by_contra hbusy
      exact hj (h.single j i w _ hw hv hbusy fun hquiet => hquiet.1)
  refine ⟨holds_send h.holds hdrained hkeeps.storable hkeeps.new, ?_,
    h.behind.trans hkeeps.sameType, fun j w hw => .inl (hall j w hw), ?_⟩
  · intro r hr
    cases hr
    exact hkeeps.written
  · exact fun j k w w' hw _ hbusy => absurd (hall j w hw) hbusy

end Answer

theorem inTurn_answer {i : Nat} {environment : (q : NodeRequest) → q.Response} {q : NodeRequest}
    {next : q.Response → Remaining} (h : InTurn n cfg key value s)
    (hv : s.validations[i]? = some ⟨job, .ask q next⟩) :
    (∃ value', InTurn n cfg key value'
      { driver := effectOf cfg s.driver q
        validations := s.validations.set i ⟨job, next (answerTo cfg s.driver environment q)⟩ }) ∧
      SameType (s.driver.visible cfg key) ((effectOf cfg s.driver q).visible cfg key) := by
  cases q with
  | putLocalRecord p isClientPut => exact ⟨⟨some p, inTurn_put h hv⟩, .refl _⟩
  | getLocalRecord k =>
    rcases h.pending i _ hv with hquiet | ⟨hdrained, rfl, hbehaves⟩
    · exact False.elim hquiet.1
    · have hread : effectOf cfg s.driver (.getLocalRecord k) = s.driver :=
        read_synced h.holds.synced
      have hanswer : answerTo cfg s.driver environment (.getLocalRecord k) = .ok value :=
        congrArg Except.ok (h.holds.visible_of_drained hdrained)
      rw [hread, hanswer]
      exact ⟨⟨value, inTurn_set h hv (fun hquiet => False.elim hquiet.1)
        (.inr ⟨hdrained, hbehaves⟩)⟩, .refl _⟩
  | isRecordKeyPresentLocally k =>
    refine ⟨⟨value, inTurn_set h hv (fun hquiet => hquiet.2 _) ?_⟩, .refl _⟩
    rcases h.pending i _ hv with hquiet | ⟨hdrained, hbehaves⟩
    · exact .inl (hquiet.2 _)
    · refine .inr ⟨hdrained, hbehaves _ ?_⟩
      rintro rfl
      rfl
  | _ =>
    refine ⟨⟨value, inTurn_set h hv (fun hquiet => hquiet.2 _) ?_⟩, .refl _⟩
    rcases h.pending i _ hv with hquiet | ⟨hdrained, hbehaves⟩
    · exact .inl (hquiet.2 _)
    · exact .inr ⟨hdrained, hbehaves _⟩

theorem inTurn_step {label : NodeLabel} (hsequence : InSequence key s label)
    (hsteady : Steady cfg s label) (hfit : PointersFit cfg key s label)
    (hstep : nodeStep n cfg s label = some s') (h : InTurn n cfg key value s) :
    (∃ value', InTurn n cfg key value' s') ∧
      SameType (s.driver.visible cfg key) (s'.driver.visible cfg key) := by
  cases label with
  | start job =>
    cases hstep
    exact ⟨⟨value, inTurn_start h hsequence.1 hsequence.2 hfit⟩, .refl _⟩
  | driver label =>
    obtain ⟨d', hd', rfl⟩ := Option.map_eq_some_iff.mp hstep
    obtain ⟨hinTurn, htype⟩ := inTurn_driver h hsequence hsteady hd'
    exact ⟨⟨value, hinTurn⟩, htype⟩
  | answer i environment =>
    obtain ⟨job, q, next, hv, rfl⟩ := nodeStep_answer hstep
    exact inTurn_answer h hv

/--
**The data type under a key never changes**, in any sequence of validations at the key, if
a pointer is validated only where a pointer is stored or nothing.
-/
theorem types_never_change (n : Node) (cfg : NodeRecordStoreConfig) (key : RecordKey)
    (s s₁ s₂ : NodeState) (labels₁ labels₂ : List NodeLabel) (hidle : s.Idle cfg key)
    (hwritten : StoredWritten (s.driver.visible cfg key))
    (hrun₁ : GuardedRun (nodeStep n cfg) (fun s label => InSequence key s label ∧
      Steady cfg s label ∧ PointersFit cfg key s label) s labels₁ s₁)
    (hrun₂ : GuardedRun (nodeStep n cfg) (fun s label => InSequence key s label ∧
      Steady cfg s label ∧ PointersFit cfg key s label) s₁ labels₂ s₂) :
    SameType (s₁.driver.visible cfg key) (s₂.driver.visible cfg key) := by
  have hrun : ∀ {s s' : NodeState} {labels : List NodeLabel},
      GuardedRun (nodeStep n cfg) (fun s label => InSequence key s label ∧
        Steady cfg s label ∧ PointersFit cfg key s label) s labels s' →
      (∃ value, InTurn n cfg key value s) → (∃ value, InTurn n cfg key value s') ∧
        SameType (s.driver.visible cfg key) (s'.driver.visible cfg key) := by
    intro s s' labels hrun hs
    refine hrun.induct (I := fun s => ∃ value, InTurn n cfg key value s)
      (R := fun s s' => SameType (s.driver.visible cfg key) (s'.driver.visible cfg key))
      (fun _ => .refl _) (fun _ _ _ => .trans) ?_ hs
    rintro s label s' ⟨value, h⟩ ⟨hsequence, hsteady, hfit⟩ hstep
    exact inTurn_step hsequence hsteady hfit hstep h
  exact (hrun hrun₂ (hrun hrun₁ ⟨_, hidle.inTurn hwritten⟩).1).2

/-! ### A pointer over a scratchpad -/

namespace Sample

def pointerRecord : Record := ⟨cutKey, .ofPointer pointer⟩

def mixedConfig : NodeRecordStoreConfig :=
  storeConfig [(padVersion 1).value, (padVersion 2).value, pointerRecord.value]

def inFull (i : Nat) (record : Record) : List NodeLabel :=
  arrives record :: readAndPut i ++ settle

def shown (s : NodeState) : Option Record × Bool :=
  (s.driver.visible mixedConfig cutKey, s.validations.all fun v => v.accepted = some true)

theorem idleNode_written : StoredWritten (idleNode.driver.visible mixedConfig cutKey) := by
  intro r hr
  exact absurd ((idleNode_visible mixedConfig cutKey).symm.trans hr) (Option.some_ne_none r).symm

end Sample

open Sample

theorem types_never_change_sample :
    ∃ s₁ s₂ : NodeState,
      s₁.driver.visible Sample.mixedConfig Sample.cutKey = some (Sample.padVersion 1) ∧
      s₂.driver.visible Sample.mixedConfig Sample.cutKey = some (Sample.padVersion 2) ∧
      SameType (s₁.driver.visible Sample.mixedConfig Sample.cutKey)
        (s₂.driver.visible Sample.mixedConfig Sample.cutKey) := by
  have hviews : runViews (nodeStep cuttingNode mixedConfig)
      (fun s label => InSequence cutKey s label ∧ Steady mixedConfig s label ∧
        PointersFit mixedConfig cutKey s label)
      shown idleNode (inFull 0 (padVersion 1)) (inFull 1 (padVersion 2))
      = some ((some (padVersion 1), true), (some (padVersion 2), true)) := by
    decide
  obtain ⟨s₁, s₂, hrun₁, hrun₂, hshown₁, hshown₂⟩ := guardedRuns_of_views hviews
  exact ⟨s₁, s₂, (Prod.mk.inj hshown₁).1, (Prod.mk.inj hshown₂).1,
    types_never_change cuttingNode mixedConfig cutKey idleNode s₁ s₂
      _ _ (idleNode_idle _ _) idleNode_written hrun₁ hrun₂⟩

/-- A stored scratchpad is replaced by a pointer of the same owner. -/
theorem type_changes :
    ¬ ∀ (n : Node) (cfg : NodeRecordStoreConfig) (key : RecordKey) (s s₁ s₂ : NodeState)
        (labels₁ labels₂ : List NodeLabel), s.Idle cfg key →
      StoredWritten (s.driver.visible cfg key) →
      GuardedRun (nodeStep n cfg) (fun s label => InSequence key s label ∧ Steady cfg s label)
        s labels₁ s₁ →
      GuardedRun (nodeStep n cfg) (fun s label => InSequence key s label ∧ Steady cfg s label)
        s₁ labels₂ s₂ →
      (∀ v ∈ s₂.validations, v.program = .done (.ok ())) →
      SameType (s₁.driver.visible cfg key) (s₂.driver.visible cfg key) := by
  intro h
  have hviews : runViews (nodeStep cuttingNode mixedConfig)
      (fun s label => InSequence cutKey s label ∧ Steady mixedConfig s label)
      shown idleNode (inFull 0 (padVersion 1)) (inFull 1 pointerRecord)
      = some ((some (padVersion 1), true), (some pointerRecord, true)) := by
    decide
  obtain ⟨s₁, s₂, hrun₁, hrun₂, hshown₁, hshown₂⟩ := guardedRuns_of_views hviews
  obtain ⟨hstored₁, -⟩ := Prod.mk.inj hshown₁
  obtain ⟨hstored₂, haccepted⟩ := Prod.mk.inj hshown₂
  have hok : ∀ v ∈ s₂.validations, v.program = .done (.ok ()) := by
    intro v hv
    exact v.accepted_eq_true (of_decide_eq_true (List.all_eq_true.mp haccepted v hv))
  obtain ⟨r, hr, htype⟩ := h _ _ _ _ s₁ s₂ _ _ (idleNode_idle _ _) idleNode_written
    hrun₁ hrun₂ hok (padVersion 1) hstored₁
  cases hstored₂.symm.trans hr
  exact absurd htype (by decide)

end Autonomi
