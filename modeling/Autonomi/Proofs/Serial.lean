/-
Validations that read one at a time.

A validation reads the local record, decides, and sends a put; the put reaches the files
later.  If a record is read only while the store is at rest and nobody else is between
read and put, then every validation decides on the latest value, and the puts form a
history: each is one the value before permits.

`Serial` keeps the history and, for every validation, what it has read or put as part of
it; `serial_step` is one step, and `serial_run` a whole run.
-/
import Autonomi.Lib.History
import Autonomi.Node.Validations
import Autonomi.Proofs.Register
import Autonomi.Proofs.StoreFunctions

namespace Autonomi

open Lib

/-! ### The condition -/

def NodeRequest.isRead : NodeRequest → Bool
  | .getLocalRecord _ => true
  | _ => false

def NodeRequest.isPut : NodeRequest → Bool
  | .putLocalRecord _ _ => true
  | _ => false

def Running.request (v : Running) : Option NodeRequest :=
  match v.program with
  | .ask q _ => some q
  | .done _ => none

def Running.AboutToRead (v : Running) : Prop := v.request.any NodeRequest.isRead = true

def Running.AboutToPut (v : Running) : Prop := v.request.any NodeRequest.isPut = true

/-- The jobs about one address: its key, and its type in the header. -/
def OfType (dataType : DataTypes) (key : RecordKey) (job : Job) : Prop :=
  job.record.key = key ∧ job.record.value.getDataType = some dataType

/-- Only the jobs in question, and only what the driver does of itself. -/
def NodeLabel.Within (domain : Job → Prop) (key : RecordKey) : NodeLabel → Prop
  | .start job => domain job
  | .answer _ _ => True
  | .driver label => label.Within key

/-- The driver has room, and its writes succeed. -/
def Steady (cfg : NodeRecordStoreConfig) (s : NodeState) : NodeLabel → Prop
  | .driver label => Smooth cfg s.driver label
  | _ => True

/-- A record is read only while the driver is at rest and no validation has read and is about
to put. -/
def ReadsAlone (s : NodeState) : NodeLabel → Prop
  | .answer i _ => ∀ v ∈ s.validations[i]?, v.AboutToRead →
      s.driver.Drained ∧ ∀ w ∈ s.validations, ¬ w.AboutToPut
  | _ => True

instance (v : Running) : Decidable v.AboutToRead := inferInstanceAs (Decidable (_ = true))

instance (v : Running) : Decidable v.AboutToPut := inferInstanceAs (Decidable (_ = true))

instance (d : DriverState) : Decidable d.Drained := inferInstanceAs (Decidable (_ ∧ _))

instance (dataType : DataTypes) (key : RecordKey) : DecidablePred (OfType dataType key) :=
  fun job => inferInstanceAs (Decidable (job.record.key = key ∧
    job.record.value.getDataType = some dataType))

instance (domain : Job → Prop) [DecidablePred domain] (key : RecordKey) :
    (label : NodeLabel) → Decidable (label.Within domain key)
  | .start job => inferInstanceAs (Decidable (domain job))
  | .answer _ _ => isTrue trivial
  | .driver label => inferInstanceAs (Decidable (label.Within key))

instance (cfg : NodeRecordStoreConfig) (s : NodeState) :
    (label : NodeLabel) → Decidable (Steady cfg s label)
  | .start _ | .answer _ _ => isTrue trivial
  | .driver label => inferInstanceAs (Decidable (Smooth cfg s.driver label))

instance (s : NodeState) : (label : NodeLabel) → Decidable (ReadsAlone s label)
  | .start _ => isTrue trivial
  | .answer i _ => inferInstanceAs (Decidable (∀ v ∈ s.validations[i]?, v.AboutToRead →
      s.driver.Drained ∧ ∀ w ∈ s.validations, ¬ w.AboutToPut))
  | .driver _ => isTrue trivial

/-! ### Finished validations -/

def Running.accepted (v : Running) : Option Bool :=
  match v.program with
  | .done (.ok _) => some true
  | .done (.error _) => some false
  | .ask _ _ => none

variable {v : Running}

theorem Running.accepted_eq_true (h : v.accepted = some true) : v.program = .done (.ok ()) := by
  unfold Running.accepted at h
  rcases hprogram : v.program with (e | _) | ⟨q, next⟩
  · simp [hprogram] at h
  · rfl
  · simp [hprogram] at h

theorem Running.accepted_isSome : v.accepted.isSome ↔ ∃ result, v.program = .done result := by
  unfold Running.accepted
  rcases v.program with (e | _) | ⟨q, next⟩ <;> simp

instance (s : NodeState) : Decidable s.Drained :=
  decidable_of_iff (s.driver.Drained ∧ ∀ v ∈ s.validations, v.accepted.isSome)
    (and_congr_right fun _ => forall₂_congr fun _ _ => Running.accepted_isSome)

/-! ### The invariant -/

section Invariant

variable (n : Node) (cfg : NodeRecordStoreConfig) (key : RecordKey)
  (allowed : Job → Found → Record → Prop)
  (post : Job → StoreState → Except PutValidationError Unit → Prop)

def Puts (job : Job) (v v' : Option Record) : Prop := ∃ p, allowed job (.ok v) p ∧ v' = some p

/-- What a validation has read or put lies between the initial value and the present one. -/
def StoreState.PartOf (initial value : Option Record) : StoreState → Prop
  | .fresh => True
  | .read found =>
    ∃ v, found = .ok v ∧ Leads (Puts allowed) initial v ∧ Leads (Puts allowed) v value
  | .seen found =>
    ∃ v, found = .ok v ∧ Leads (Puts allowed) initial v ∧ Leads (Puts allowed) v value
  | .wrote record => Leads (Puts allowed) (some record) value

/-- A validation of the job in this state keeps to its monitor. -/
def KeepsTo (job : Job) (st : StoreState) (program : Remaining) : Prop :=
  Program.Obeys (storeMonitor key (allowed job)) (post job) st program

/-- Where a validation stands, and that it is up to date if it is about to put. -/
def Stands (initial value : Option Record) (v : Running) : Prop :=
  ∃ st, KeepsTo key allowed post v.job st v.program ∧ st.PartOf allowed initial value ∧
    (v.AboutToPut → st = .read (.ok value))

structure Serial (initial : Option Record) (writers : List Job) (value : Option Record)
    (s : NodeState) : Prop where
  holds : Holds n cfg key value s.driver
  history : History (Puts allowed) initial writers value
  /-- What is read lies in the past of the value. -/
  behind : Leads (Puts allowed) (s.driver.visible cfg key) value
  stands : ∀ (i : Nat) v, s.validations[i]? = some v → Stands key allowed post initial value v
  /-- The updates of the history were made by validations that have put. -/
  wrote : ∀ job ∈ writers, ∃ (i : Nat) (v : Running) (record : Record),
    s.validations[i]? = some v ∧ v.job = job ∧
      KeepsTo key allowed post job (.wrote record) v.program
  /-- At most one validation is about to put, and then the driver is at rest. -/
  single : ∀ (i j : Nat) v w, s.validations[i]? = some v → s.validations[j]? = some w →
    v.AboutToPut → w.AboutToPut → i = j
  rest : ∀ (i : Nat) v, s.validations[i]? = some v → v.AboutToPut → s.driver.Drained

end Invariant

variable {n : Node} {cfg : NodeRecordStoreConfig} {key : RecordKey}
  {allowed : Job → Found → Record → Prop}
  {post : Job → StoreState → Except PutValidationError Unit → Prop}
  {initial value : Option Record} {writers : List Job} {s s' : NodeState} {st : StoreState}

theorem StoreState.PartOf.past (h : st.PartOf allowed initial value) :
    st.past.PartOf allowed initial value := by
  cases st with
  | fresh => trivial
  | read found | seen found | wrote record => exact h

theorem StoreState.PartOf.leads {value' : Option Record} (h : st.PartOf allowed initial value)
    (hleads : Leads (Puts allowed) value value') : st.PartOf allowed initial value' := by
  cases st with
  | fresh => trivial
  | read found | seen found =>
    obtain ⟨v, hfound, hbefore, hafter⟩ := h
    exact ⟨v, hfound, hbefore, hafter.trans hleads⟩
  | wrote record => exact Leads.trans h hleads

theorem KeepsTo.read_of_aboutToPut (h : KeepsTo key allowed post v.job st v.program)
    (hput : v.AboutToPut) : ∃ found, st = .read found := by
  obtain ⟨job, program⟩ := v
  cases program with
  | done result => cases hput
  | ask q next =>
    cases q with
    | putLocalRecord record isClientPut =>
      obtain ⟨found, hst, -⟩ := read_of_allowed h.1
      exact ⟨found, hst⟩
    | _ => cases hput

/-! ### The driver's part -/

theorem holds_send {d : DriverState} {p : Record} {isClientPut : Bool}
    (h : Holds n cfg key value d) (hdrained : d.Drained) (hstorable : Storable n key p)
    (hnew : ∀ r, value = some r → r.value ≠ p.value) :
    Holds n cfg key (some p) (d.send (.putLocalRecord p isClientPut)) := by
  have hcommands : (d.send (.putLocalRecord p isClientPut)).commands
      = [.putLocalRecord p isClientPut] := by
    show d.commands ++ _ = _
    rw [hdrained.2]
    rfl
  obtain ⟨hdisk, hsynced, hcache⟩ := h.settled hdrained
  exact .sent value p isClientPut rfl hdrained.1 hcommands hdisk hsynced hcache hnew hstorable

theorem driverStep_drained {d d' : DriverState} {label : DriverLabel} (hwithin : label.Within key)
    (hdrained : d.Drained) (hsynced : d.Synced cfg key)
    (hstep : driverStep n cfg d label = some d') : d' = d := by
  cases label with
  | handle i clock =>
    obtain ⟨cmd, rest, store, spawned, htake, -⟩ := driverStep_handle hstep
    rw [hdrained.2] at htake
    exact absurd htake Pool.take_nil
  | runTask i outcome =>
    obtain ⟨task, rest, htake, -⟩ := driverStep_runTask hstep
    rw [hdrained.1] at htake
    exact absurd htake Pool.take_nil
  | get k =>
    obtain rfl : k = key := hwithin
    exact (Option.some.inj hstep).symm.trans (read_synced hsynced)
  | put record isClientPut | remove k => exact absurd hwithin id

section Steps

variable (h : Serial n cfg key allowed post initial writers value s)

include h

theorem serial_driver {d' : DriverState} {label : DriverLabel} (hwithin : label.Within key)
    (hsmooth : Smooth cfg s.driver label) (hstep : driverStep n cfg s.driver label = some d') :
    Serial n cfg key allowed post initial writers value { s with driver := d' } ∧
      Leads (Puts allowed) (s.driver.visible cfg key) (d'.visible cfg key) := by
  obtain ⟨hholds, hcatches⟩ := holds_driverStep hwithin hsmooth hstep h.holds
  have hrest : ∀ (i : Nat) v, s.validations[i]? = some v → v.AboutToPut → d'.Drained := by
    intro i v hv hput
    have hdrained := h.rest i v hv hput
    rw [driverStep_drained hwithin hdrained h.holds.synced hstep]
    exact hdrained
  obtain ⟨hbehind, hleads⟩ := hcatches.relate Leads.refl h.behind
  exact ⟨⟨hholds, h.history, hbehind, h.stands, h.wrote, h.single, hrest⟩, hleads⟩

/-! ### A validation starts -/

theorem serial_start {job : Job}
    (hstart : KeepsTo key allowed post job .fresh (job.start n).run) :
    Serial n cfg key allowed post initial writers value
      { s with validations := s.validations ++ [⟨job, (job.start n).run⟩] } := by
  have hnot : ¬ (Running.mk job (job.start n).run).AboutToPut := by
    intro hput
    obtain ⟨found, hfresh⟩ := KeepsTo.read_of_aboutToPut hstart hput
    cases hfresh
  have hold : ∀ {i : Nat} {v : Running}, v.AboutToPut →
      (s.validations ++ [⟨job, (job.start n).run⟩])[i]? = some v → s.validations[i]? = some v := by
    intro i v hput hv
    rcases Pool.getElem?_append_single hv with hv | ⟨-, rfl⟩
    · exact hv
    · exact absurd hput hnot
  refine ⟨h.holds, h.history, h.behind, ?_, ?_, ?_, ?_⟩
  · intro i v hv
    rcases Pool.getElem?_append_single hv with hv | ⟨-, rfl⟩
    · exact h.stands i v hv
    · exact ⟨.fresh, hstart, trivial, fun hput => absurd hput hnot⟩
  · intro job' hjob'
    obtain ⟨i, v, record, hv, hjob, hkeeps⟩ := h.wrote job' hjob'
    have hlt : i < s.validations.length := (List.getElem?_eq_some_iff.mp hv).1
    exact ⟨i, v, record, (List.getElem?_append_left hlt).trans hv, hjob, hkeeps⟩
  · intro i j v w hv hw hput hput'
    exact h.single i j v w (hold hput hv) (hold hput' hw) hput hput'
  · intro i v hv hput
    exact h.rest i v (hold hput hv) hput

/-! ### A validation is answered -/

section Answer

variable {i : Nat} {job : Job} {q : NodeRequest} {next : q.Response → Remaining}
  (hv : s.validations[i]? = some ⟨job, .ask q next⟩)

include hv

theorem wrote_answer (x : q.Response) :
    ∀ job' ∈ writers, ∃ (j : Nat) (w : Running) (record : Record),
      (s.validations.set i ⟨job, next x⟩)[j]? = some w ∧ w.job = job' ∧
      KeepsTo key allowed post job' (.wrote record) w.program := by
  intro job' hjob'
  obtain ⟨j, w, record, hw, hjob, hkeeps⟩ := h.wrote job' hjob'
  by_cases hj : j = i
  · subst hj
    cases hw.symm.trans hv
    obtain rfl : job = job' := hjob
    have hquiet := quiet_of_wrote hkeeps.1
    have hnext : KeepsTo key allowed post job _ (next x) := hkeeps.2 x
    rw [(monitor_quiet key (allowed job) _ hquiet).2 x] at hnext
    have hlt : j < s.validations.length := (List.getElem?_eq_some_iff.mp hv).1
    exact ⟨j, ⟨job, next x⟩, record, List.getElem?_set_self hlt, rfl, hnext⟩
  · exact ⟨j, w, record, (List.getElem?_set_ne (Ne.symm hj)).trans hw, hjob, hkeeps⟩

theorem serial_quiet (hquiet : q.Quiet) (x : q.Response) :
    Serial n cfg key allowed post initial writers value
      { s with validations := s.validations.set i ⟨job, next x⟩ } := by
  obtain ⟨st, hkeeps, hpart, -⟩ := h.stands i _ hv
  have hnext : KeepsTo key allowed post job st.past (next x) := by
    have hx : KeepsTo key allowed post job _ (next x) := hkeeps.2 x
    rw [(monitor_quiet key (allowed job) _ hquiet).2 x] at hx
    exact hx
  have hnot : ¬ (Running.mk job (next x)).AboutToPut := by
    intro hput
    obtain ⟨found, hread⟩ := KeepsTo.read_of_aboutToPut hnext hput
    exact StoreState.past_ne_read hread
  have hold : ∀ {j : Nat} {w : Running}, w.AboutToPut →
      (s.validations.set i ⟨job, next x⟩)[j]? = some w → s.validations[j]? = some w := by
    intro j w hput hw
    rcases Pool.getElem?_set_cases hw with ⟨-, rfl⟩ | ⟨-, hw⟩
    · exact absurd hput hnot
    · exact hw
  refine ⟨h.holds, h.history, h.behind, ?_, wrote_answer h hv x, ?_, ?_⟩
  · intro j w hw
    rcases Pool.getElem?_set_cases hw with ⟨-, rfl⟩ | ⟨-, hw⟩
    · exact ⟨st.past, hnext, hpart.past, fun hput => absurd hput hnot⟩
    · exact h.stands j w hw
  · intro j k w w' hw hw' hput hput'
    exact h.single j k w w' (hold hput hw) (hold hput' hw') hput hput'
  · intro j w hw hput
    exact h.rest j w (hold hput hw) hput

end Answer

/-- A read, with the driver at rest and nobody about to put, returns the value. -/
theorem serial_read {i : Nat} {job : Job} {k : RecordKey}
    {next : (NodeRequest.getLocalRecord k).Response → Remaining}
    (hv : s.validations[i]? = some ⟨job, .ask (.getLocalRecord k) next⟩)
    (hdrained : s.driver.Drained) (halone : ∀ w ∈ s.validations, ¬ w.AboutToPut) :
    Serial n cfg key allowed post initial writers value
      { driver := s.driver.read cfg k
        validations := s.validations.set i ⟨job, next (.ok (s.driver.visible cfg k))⟩ } := by
  obtain ⟨st, hkeeps, -, -⟩ := h.stands i _ hv
  obtain ⟨rfl, rfl⟩ := key_of_allowed hkeeps.1
  have hnext : KeepsTo k allowed post job (.read (.ok value))
      (next (.ok (s.driver.visible cfg k))) := by
    rw [h.holds.visible_of_drained hdrained]
    exact hkeeps.2 (.ok value)
  have hothers : ∀ {j : Nat} {w : Running}, w.AboutToPut →
      (s.validations.set i ⟨job, next (.ok (s.driver.visible cfg k))⟩)[j]? = some w → j = i := by
    intro j w hput hw
    rcases Pool.getElem?_set_cases hw with ⟨hj, -⟩ | ⟨-, hw⟩
    · exact hj
    · exact absurd hput (halone w (List.mem_of_getElem? hw))
  rw [read_synced h.holds.synced]
  refine ⟨h.holds, h.history, h.behind, ?_, wrote_answer h hv _, ?_, fun _ _ _ _ => hdrained⟩
  · intro j w hw
    rcases Pool.getElem?_set_cases hw with ⟨-, rfl⟩ | ⟨-, hw⟩
    · have hpart : (StoreState.read (.ok value)).PartOf allowed initial value :=
        ⟨value, rfl, ⟨writers, h.history⟩, .refl value⟩
      exact ⟨.read (.ok value), hnext, hpart, fun _ => rfl⟩
    · exact h.stands j w hw
  · intro j k w w' hw hw' hput hput'
    rw [hothers hput hw, hothers hput' hw']

theorem serial_put {i : Nat} {job : Job} {p : Record} {isClientPut : Bool}
    {next : (NodeRequest.putLocalRecord p isClientPut).Response → Remaining}
    (hv : s.validations[i]? = some ⟨job, .ask (.putLocalRecord p isClientPut) next⟩)
    (hstorable : allowed job (.ok value) p → Storable n key p)
    (hnew : allowed job (.ok value) p → ∀ r, value = some r → r.value ≠ p.value) :
    Serial n cfg key allowed post initial (writers ++ [job]) (some p)
      { driver := s.driver.send (.putLocalRecord p isClientPut)
        validations := s.validations.set i ⟨job, next ()⟩ } := by
  obtain ⟨st, hkeeps, hpart, hread⟩ := h.stands i _ hv
  obtain rfl := hread rfl
  have hallowed : allowed job (.ok value) p := hkeeps.1
  have hupdate : Puts allowed job value (some p) := ⟨p, hallowed, rfl⟩
  have hnext : KeepsTo key allowed post job (.wrote p) (next ()) := hkeeps.2 ()
  have hleads : Leads (Puts allowed) value (some p) := .of_update hupdate
  -- The one validation that was about to put has done so.
  have hnone : ∀ {j : Nat} {w : Running}, w.AboutToPut →
      (s.validations.set i ⟨job, next ()⟩)[j]? ≠ some w := by
    intro j w hput hw
    rcases Pool.getElem?_set_cases hw with ⟨-, rfl⟩ | ⟨hj, hw⟩
    · obtain ⟨found, hread⟩ := KeepsTo.read_of_aboutToPut hnext hput
      cases hread
    · exact hj (h.single j i w _ hw hv hput rfl)
  refine ⟨holds_send h.holds (h.rest i _ hv rfl) (hstorable hallowed) (hnew hallowed),
    .snoc h.history hupdate, h.behind.trans hleads, ?_, ?_, ?_, ?_⟩
  · intro j w hw
    rcases Pool.getElem?_set_cases hw with ⟨-, rfl⟩ | ⟨hj, hold⟩
    · exact ⟨.wrote p, hnext, .refl _, fun hput => absurd hw (hnone hput)⟩
    · obtain ⟨st, hst, hpart, -⟩ := h.stands j w hold
      exact ⟨st, hst, hpart.leads hleads, fun hput => absurd hw (hnone hput)⟩
  · intro job' hjob'
    rcases List.mem_append.mp hjob' with hjob' | hjob'
    · exact wrote_answer h hv () job' hjob'
    · obtain rfl := List.mem_singleton.mp hjob'
      have hlt : i < s.validations.length := (List.getElem?_eq_some_iff.mp hv).1
      exact ⟨i, ⟨job', next ()⟩, p, List.getElem?_set_self hlt, rfl, hnext⟩
  · intro j k w w' hw _ hput _
    exact absurd hw (hnone hput)
  · intro j w hw hput
    exact absurd hw (hnone hput)

end Steps

/-! ### Steps and runs -/

/-- The driver is at rest, and the cache and the file of the key agree. -/
structure DriverState.AtRest (cfg : NodeRecordStoreConfig) (key : RecordKey) (d : DriverState) :
    Prop where
  drained : d.Drained
  synced : d.Synced cfg key
  cached : d.CachedIs key (d.onDisk cfg key)

structure NodeState.Idle (cfg : NodeRecordStoreConfig) (key : RecordKey) (s : NodeState) :
    Prop where
  driver : s.driver.AtRest cfg key
  validations : s.validations = []

theorem NodeState.Idle.none_running (h : s.Idle cfg key) (i : Nat) (v : Running) :
    s.validations[i]? ≠ some v := by
  rw [h.validations]
  exact (Option.some_ne_none v).symm

theorem NodeState.Idle.holds (h : s.Idle cfg key) :
    Holds n cfg key (s.driver.visible cfg key) s.driver := by
  obtain ⟨hdrained, hsynced, hcached⟩ := h.driver
  rw [visible_eq rfl hcached]
  exact .quiet hdrained rfl hsynced hcached

theorem NodeState.Idle.serial (h : s.Idle cfg key) :
    Serial n cfg key allowed post (s.driver.visible cfg key) [] (s.driver.visible cfg key) s := by
  refine ⟨h.holds, .nil, .refl _, ?_, ?_, ?_, ?_⟩
  · exact fun i v hv => absurd hv (h.none_running i v)
  · exact fun job hjob => absurd hjob List.not_mem_nil
  · exact fun i _ v _ hv => absurd hv (h.none_running i v)
  · exact fun i v hv => absurd hv (h.none_running i v)

theorem nodeStep_answer {i : Nat} {environment : (q : NodeRequest) → q.Response}
    (h : nodeStep n cfg s (.answer i environment) = some s') :
    ∃ job q next, s.validations[i]? = some ⟨job, .ask q next⟩ ∧
      s' = { driver := effectOf cfg s.driver q
             validations := s.validations.set i
               ⟨job, next (answerTo cfg s.driver environment q)⟩ } := by
  unfold nodeStep at h
  rcases hv : s.validations[i]? with _ | ⟨job, result | ⟨q, next⟩⟩
  · simp only [hv] at h
    cases h
  · simp only [hv] at h
    cases h
  · simp only [hv] at h
    exact ⟨job, q, next, rfl, (Option.some.inj h).symm⟩

section Run

variable {domain : Job → Prop}
  (hstart : ∀ job, domain job → KeepsTo key allowed post job .fresh (job.start n).run)
  (hstorable : ∀ job v p, allowed job (.ok v) p → Storable n key p)
  (hnew : ∀ job v p, allowed job (.ok v) p → ∀ r, v = some r → r.value ≠ p.value)

include hstart hstorable hnew in
theorem serial_step {label : NodeLabel} (hwithin : label.Within domain key)
    (hsteady : Steady cfg s label) (halone : ReadsAlone s label)
    (hstep : nodeStep n cfg s label = some s')
    (h : Serial n cfg key allowed post initial writers value s) :
    (∃ writers' value', Serial n cfg key allowed post initial writers' value' s') ∧
      Leads (Puts allowed) (s.driver.visible cfg key) (s'.driver.visible cfg key) := by
  cases label with
  | start job =>
    cases hstep
    exact ⟨⟨writers, value, serial_start h (hstart job hwithin)⟩, .refl _⟩
  | driver label =>
    obtain ⟨d', hd', rfl⟩ := Option.map_eq_some_iff.mp hstep
    obtain ⟨hserial, hleads⟩ := serial_driver h hwithin hsteady hd'
    exact ⟨⟨writers, value, hserial⟩, hleads⟩
  | answer i environment =>
    obtain ⟨job, q, next, hv, rfl⟩ := nodeStep_answer hstep
    cases q with
    | getLocalRecord k =>
      obtain ⟨hdrained, hnone⟩ := halone _ hv rfl
      refine ⟨⟨writers, value, serial_read h hv hdrained hnone⟩, ?_⟩
      obtain ⟨st, hkeeps, -, -⟩ := h.stands i _ hv
      obtain ⟨-, rfl⟩ := key_of_allowed hkeeps.1
      show Leads _ _ ((s.driver.read cfg k).visible cfg k)
      rw [read_synced h.holds.synced]
      exact .refl _
    | putLocalRecord p isClientPut =>
      exact ⟨⟨_, _, serial_put h hv (hstorable job value p) (hnew job value p)⟩, .refl _⟩
    | _ => exact ⟨⟨writers, value, serial_quiet h hv trivial _⟩, .refl _⟩

include hstart hstorable hnew in
/-- **A whole run keeps to one history**, and what is read moves along it. -/
theorem serial_run {labels : List NodeLabel}
    (hrun : GuardedRun (nodeStep n cfg)
      (fun s label => label.Within domain key ∧ Steady cfg s label ∧ ReadsAlone s label)
      s labels s')
    (h : Serial n cfg key allowed post initial writers value s) :
    (∃ writers' value', Serial n cfg key allowed post initial writers' value' s') ∧
      Leads (Puts allowed) (s.driver.visible cfg key) (s'.driver.visible cfg key) := by
  refine hrun.induct
    (I := fun s => ∃ writers value, Serial n cfg key allowed post initial writers value s)
    (R := fun s s' => Leads (Puts allowed) (s.driver.visible cfg key) (s'.driver.visible cfg key))
    (fun _ => .refl _) (fun _ _ _ => .trans) ?_ ⟨writers, value, h⟩
  rintro s label s' ⟨writers, value, h⟩ ⟨hwithin, hsteady, halone⟩ hstep
  exact serial_step hstart hstorable hnew hwithin hsteady halone hstep h

end Run

end Autonomi
