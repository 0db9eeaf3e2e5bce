/-
What the store functions make of the local record they read.

Scratchpads, pointers and graph entries are stored by read, compare, put, and
nothing is asked in between.  `Replaces` says for each of the three when the put is
made, given what the read came back with.  A monitor watches the reads and puts of
a validation: it allows one read, and a put only right after it and if the read
permits.  That every validation follows it is what the results about interleavings
rest on.
-/
import Autonomi.Proofs.Puts

namespace Autonomi

open Lib Lib.Fallible List

abbrev Found := Except NetworkError (Option Record)

/-! ### When a put is made -/

/-- The local pointer: a failed read and a record of another kind count as none. -/
def localPointer : Found → Option Pointer
  | .error _ => none
  | .ok none => none
  | .ok (some record) =>
    if record.value.kind = some (.dataOnly .pointer) then record.value.asPointer else none

def Pointer.Replaces (n : Node) (p : Pointer) (key : RecordKey) (found : Found) : Prop :=
  p.verifySignature n.crypto n.rmpTarget = true ∧ key = p.address.toRecordKey n.crypto ∧
    ∀ old, localPointer found = some old → old.counter < p.counter

def Scratchpad.Replaces (n : Node) (s : Scratchpad) (key : RecordKey) (found : Found) : Prop :=
  s.networkAddress.toRecordKey n.crypto = key ∧ s.verifySignature n.crypto = true ∧
    s.isTooBig n.scratchpadStructSize = false ∧
    ∃ localRecord, found = .ok localRecord ∧ ∀ record, localRecord = some record →
      ∃ old, record.value.asScratchpad = some old ∧ old.counter < s.counter

/-- The local entries: nothing stored is no entries, and anything else has to be entries. -/
def localEntries : Found → Option (List GraphEntry)
  | .error _ => none
  | .ok none => some []
  | .ok (some record) => record.value.asGraphEntries

def mergedEntries (n : Node) (entries : List GraphEntry) (key : RecordKey)
    (old : List GraphEntry) : List GraphEntry :=
  BTreeSet.extend GraphEntry.le (validEntries n entries key) old

def EntriesReplace (n : Node) (entries : List GraphEntry) (key : RecordKey) (found : Found)
    (merged : List GraphEntry) : Prop :=
  validEntries n entries key ≠ [] ∧ ∃ old, localEntries found = some old ∧
    merged = mergedEntries n entries key old ∧ old.length ≠ merged.length

/-! ### Reads and puts of a validation -/

/-- Where a validation stands with its local record. -/
inductive StoreState
  | fresh
  /-- The last exchange was a read. -/
  | read (found : Found)
  /-- There was a read, and something else since. -/
  | seen (found : Found)
  | wrote (record : Record)

/-- After an exchange that is neither a read nor a put. -/
def StoreState.past : StoreState → StoreState
  | .read found => .seen found
  | s => s

@[simp] theorem StoreState.past_past (s : StoreState) : s.past.past = s.past := by
  cases s with
  | fresh | read found | seen found | wrote record => rfl

/-- One read of the key is allowed, and a put right after it, as far as `allowed` says. -/
def storeMonitor (key : RecordKey) (allowed : Found → Record → Prop) :
    Program.Monitor NodeRequest NodeRequest.Response StoreState where
  allows
    | .read found, .putLocalRecord record _ => allowed found record
    | _, .putLocalRecord _ _ => False
    | .fresh, .getLocalRecord k => k = key
    | _, .getLocalRecord _ => False
    | _, _ => True
  next
    | _, .getLocalRecord _, found => .read found
    | _, .putLocalRecord record _, _ => .wrote record
    | s, _, _ => s.past

/-- The validation reads at most once, and puts only what that read permits. -/
def Follows {α : Type} (key : RecordKey) (allowed : Found → Record → Prop) (p : Validation α) :
    Prop :=
  Obeys (storeMonitor key allowed) (fun _ _ => True) .fresh p

variable {record : Record}

variable {n : Node} {key : RecordKey} {allowed : Found → Record → Prop}

section Rules

variable {α β : Type} {s : StoreState}

theorem monitor_quiet (key : RecordKey) (allowed : Found → Record → Prop) (s : StoreState)
    {q : NodeRequest} (h : q.Quiet) :
    (storeMonitor key allowed).allows s q ∧
      ∀ x, (storeMonitor key allowed).next s q x = s.past := by
  cases q with
  | getLocalRecord _ | putLocalRecord _ _ => exact False.elim h
  | _ => exact ⟨by cases s <;> trivial, fun _ => rfl⟩

variable {p : Validation α}

theorem obeys_quiet {post : StoreState → Except PutValidationError α → Prop}
    (h : Asks NodeRequest.Quiet p) (hpost : ∀ x, post s x) (hpast : ∀ x, post s.past x) :
    Obeys (storeMonitor key allowed) post s p := by
  unfold Asks at h
  unfold Obeys at h ⊢
  generalize p.run = tree at h ⊢
  induction tree generalizing s with
  | done a => exact hpost a
  | ask q next ih =>
    obtain ⟨hallows, hnext⟩ := monitor_quiet key allowed s h.1
    refine ⟨hallows, fun x => ?_⟩
    rw [hnext x]
    refine ih x hpast ?_ (h.2 x)
    rw [StoreState.past_past]
    exact hpast

theorem obeys_quiet_bind {f : α → Validation β}
    {post : StoreState → Except PutValidationError β → Prop} (hp : Asks NodeRequest.Quiet p)
    (herror : ∀ e, post .fresh (.error e))
    (hf : ∀ a, Obeys (storeMonitor key allowed) post .fresh (f a)) :
    Obeys (storeMonitor key allowed) post .fresh (p >>= f) := by
  refine obeys_bind (obeys_quiet hp ?_ ?_)
  all_goals
    intro x
    cases x with
    | ok a => exact hf a
    | error e => exact herror e

theorem StoreState.past_ne_read {found : Found} : s.past ≠ .read found := by
  cases s with
  | fresh | read _ | seen _ | wrote _ => exact StoreState.noConfusion

theorem read_mem_of_after {found : Found} {es : List NodeExchange}
    (h : (storeMonitor key allowed).after s es = .read found) :
    s = .read found ∨ ∃ k, (⟨.getLocalRecord k, found⟩ : NodeExchange) ∈ es := by
  induction es generalizing s with
  | nil => exact .inl h
  | cons e es ih =>
    right
    rcases ih h with hnext | ⟨k, hmem⟩
    · obtain ⟨q, x⟩ := e
      cases q with
      | getLocalRecord k =>
        cases hnext
        exact ⟨k, mem_cons_self⟩
      | putLocalRecord record _ => cases hnext
      | _ => exact absurd hnext StoreState.past_ne_read
    · exact ⟨k, mem_cons_of_mem _ hmem⟩

theorem key_of_allowed {k : RecordKey}
    (h : (storeMonitor key allowed).allows s (.getLocalRecord k)) :
    s = .fresh ∧ k = key := by
  cases s with
  | fresh => exact ⟨rfl, h⟩
  | read _ | seen _ | wrote _ => exact False.elim h

theorem read_of_allowed {isClientPut : Bool}
    (h : (storeMonitor key allowed).allows s (.putLocalRecord record isClientPut)) :
    ∃ found, s = .read found ∧ allowed found record := by
  cases s with
  | fresh => exact False.elim h
  | read found => exact ⟨found, rfl, h⟩
  | seen _ | wrote _ => exact False.elim h

theorem quiet_of_wrote {q : NodeRequest}
    (h : (storeMonitor key allowed).allows (.wrote record) q) : q.Quiet := by
  cases q with
  | getLocalRecord k => exact h
  | putLocalRecord p isClientPut => exact h
  | _ => trivial

/-- A put of a validation that follows the monitor was permitted by a read it made. -/
theorem read_of_put {es : List NodeExchange} {r : Except PutValidationError α}
    {isClientPut : Bool} (hp : Follows key allowed p) (h : Runs p es r)
    (hput : putExchange record isClientPut ∈ es) :
    ∃ found, (⟨.getLocalRecord key, found⟩ : NodeExchange) ∈ es ∧ allowed found record := by
  obtain ⟨before, rest, rfl⟩ := append_of_mem hput
  have hobeyed := (runs_obeys hp h).1
  obtain ⟨found, hstate, hallowed⟩ := read_of_allowed (hobeyed before _ rest rfl)
  obtain ⟨k, hread⟩ := (read_mem_of_after hstate).resolve_left StoreState.noConfusion
  refine ⟨found, mem_append_left _ ?_, hallowed⟩
  obtain ⟨first, between, rfl⟩ := append_of_mem hread
  obtain ⟨-, rfl⟩ := key_of_allowed (hobeyed first _ _ (append_assoc _ _ _))
  exact hread

end Rules

/-! ### Pointers -/

section StoreFunctions

variable {address : NetworkAddress} {es : List NodeExchange} {r : Except PutValidationError Unit}

variable {S : Type} {m : Program.Monitor NodeRequest NodeRequest.Response S} {s : S}

variable {post : S → Except PutValidationError Unit → Prop} (herror : ∀ e, post s (.error e))
  (hread : m.allows s (.getLocalRecord key))
  (herror' : ∀ found e, post (m.next s (.getLocalRecord key) found) (.error e))

section Pointers

variable {p : Pointer} {isClientPut : Bool} {found : Found}

theorem obeys_getLocalPointer
    {post : S → Except PutValidationError (Option Pointer) → Prop}
    (hkey : address.toRecordKey n.crypto = key) (hread : m.allows s (.getLocalRecord key))
    (h : ∀ found, post (m.next s (.getLocalRecord key) found) (.ok (localPointer found))) :
    Obeys m post s (getLocalPointer n address) := by
  subst hkey
  refine obeys_request_bind hread fun found => ?_
  have hfound := h found
  rcases found with e | _ | record
  · exact hfound
  · exact hfound
  · change post _ (.ok (if record.value.kind = some (.dataOnly .pointer) then _ else _)) at hfound
    refine obeys_ite (fun hkind => ?_) fun hkind => ?_
    · rw [if_pos hkind] at hfound
      exact hfound
    · rw [if_neg hkind] at hfound
      exact hfound

include herror hread herror' in
theorem obeys_pointer
    (hkept : ∀ found, localPointer found = some p →
      post (m.next s (.getLocalRecord key) found) (.ok ()))
    (hput : ∀ found, p.Replaces n key found →
      Obeys m post (m.next s (.getLocalRecord key) found)
        (putLocalRecord ⟨key, .ofPointer p⟩ isClientPut)) :
    Obeys m post s (validateAndStorePointerRecord n p key isClientPut) := by
  refine obeys_reject_bind (fun _ => herror _) fun hsigned => ?_
  refine obeys_reject_bind (fun _ => herror _) fun hkey => ?_
  have hkey := not_not.mp hkey
  refine obeys_bind (obeys_getLocalPointer hkey.symm hread fun found => ?_)
  have hreplaces : (∀ old, localPointer found = some old → old.counter < p.counter) →
      p.Replaces n key found := fun h => ⟨by simpa using hsigned, hkey, h⟩
  cases hlocal : localPointer found with
  | none =>
    refine hput found (hreplaces ?_)
    intro old hold
    rw [hlocal] at hold
    cases hold
  | some old =>
    refine obeys_ite (fun heq => obeys_pure (hkept found ?_)) fun _ => ?_
    · rw [hlocal, heq]
    refine obeys_reject_bind (fun _ => herror' _ _) fun hcounter => ?_
    refine hput found (hreplaces ?_)
    intro old' hold
    rw [hlocal] at hold
    cases hold
    exact UInt64.not_le.mp hcounter

theorem follows_pointer
    (hput : ∀ found, p.Replaces n key found → allowed found ⟨key, .ofPointer p⟩) :
    Follows key allowed (validateAndStorePointerRecord n p key isClientPut) :=
  obeys_pointer (fun _ => trivial) rfl (fun _ _ => trivial) (fun _ _ => trivial)
    fun found hreplaces => obeys_request (hput found hreplaces) fun _ => trivial

variable {asClient : Bool}

theorem put_of_pointer (h : Runs (validateAndStorePointerRecord n p key isClientPut) es r)
    (hput : putExchange record asClient ∈ es) :
    ∃ found, (⟨.getLocalRecord key, found⟩ : NodeExchange) ∈ es ∧ record = ⟨key, .ofPointer p⟩ ∧
      p.Replaces n key found := by
  have hfollows : Follows key
      (fun found record => record = ⟨key, .ofPointer p⟩ ∧ p.Replaces n key found)
      (validateAndStorePointerRecord n p key isClientPut) :=
    follows_pointer fun found hreplaces => ⟨rfl, hreplaces⟩
  exact read_of_put hfollows h hput

theorem runs_getLocalPointer :
    Runs (getLocalPointer n address) [⟨.getLocalRecord (address.toRecordKey n.crypto), found⟩]
      (.ok (localPointer found)) := by
  refine runs_request_bind ?_
  rcases found with e | _ | record
  · exact runs_return
  · exact runs_return
  · show Runs (if record.value.kind = some (.dataOnly .pointer) then _ else _) []
      (.ok (if record.value.kind = some (.dataOnly .pointer) then _ else _))
    by_cases hkind : record.value.kind = some (.dataOnly .pointer)
    · rw [if_pos hkind, if_pos hkind]
      exact runs_return
    · rw [if_neg hkind, if_neg hkind]
      exact runs_return

theorem runs_pointer (h : p.Replaces n key found) :
    Runs (validateAndStorePointerRecord n p key isClientPut)
      [⟨.getLocalRecord key, found⟩, putExchange ⟨key, .ofPointer p⟩ isClientPut] (.ok ()) := by
  obtain ⟨hsigned, rfl, hcounter⟩ := h
  have hput : Runs (putLocalRecord ⟨p.address.toRecordKey n.crypto, .ofPointer p⟩ isClientPut)
      [putExchange ⟨p.address.toRecordKey n.crypto, .ofPointer p⟩ isClientPut] (.ok ()) :=
    runs_request.mpr ⟨(), rfl, rfl⟩
  refine runs_reject_bind (by simp [hsigned]) (runs_reject_bind (by simp) ?_)
  refine runs_bind_ok runs_getLocalPointer ?_
  cases hlocal : localPointer found with
  | none => exact hput
  | some old =>
    have hlt := hcounter old hlocal
    have hne : p ≠ old := by
      intro heq
      rw [heq] at hlt
      exact UInt64.lt_irrefl _ hlt
    show Runs (if p = old then _ else _) _ _
    rw [if_neg hne]
    exact runs_reject_bind (UInt64.not_le.mpr hlt) hput

end Pointers

/-! ### Scratchpads -/

section Scratchpads

variable {pad : Scratchpad} {isClientPut : Bool} {found : Found}

include herror hread herror' in
/-- Storing a scratchpad: a read that has to come back with a scratchpad or nothing, and then it
is there already or is put. -/
theorem obeys_scratchpad
    (hkept : ∀ record : Record, record.value.asScratchpad = some pad →
      post (m.next s (.getLocalRecord key) (.ok (some record))) (.ok ()))
    (hput : ∀ found, pad.Replaces n key found →
      Obeys m post (m.next s (.getLocalRecord key) found)
        (putLocalRecord ⟨key, .ofScratchpad pad⟩ isClientPut)) :
    Obeys m post s (validateAndStoreScratchpadRecord n pad key isClientPut) := by
  refine obeys_reject_bind (fun _ => herror _) fun hkey => ?_
  have hkey := not_not.mp hkey
  subst hkey
  refine obeys_request_bind hread fun found => ?_
  refine obeys_fromExcept_bind (fun _ _ => herror' _ _) fun localRecord hfound => ?_
  obtain rfl : found = .ok localRecord := Checks.mapError_eq_ok.mp hfound
  -- The put itself, once the local record is found to be older.
  have hstore : (∀ record, localRecord = some record →
      ∃ old, record.value.asScratchpad = some old ∧ old.counter < pad.counter) →
      Obeys m post
        (m.next s (.getLocalRecord (pad.networkAddress.toRecordKey n.crypto)) (.ok localRecord))
        (storeNewScratchpad n pad isClientPut) := by
    intro holder
    refine obeys_reject_bind (fun _ => herror' _ _) fun hsigned => ?_
    refine obeys_reject_bind (fun _ => herror' _ _) fun hsize => ?_
    exact hput _ ⟨rfl, by simpa using hsigned, by simpa using hsize, localRecord, rfl, holder⟩
  cases localRecord with
  | none =>
    refine hstore ?_
    intro record hrecord
    cases hrecord
  | some record =>
    refine obeys_fromExcept_bind (fun _ _ => herror' _ _) fun old hold => ?_
    have hold := Checks.okOr_eq_ok.mp hold
    refine obeys_ite (fun heq => obeys_pure (hkept record ?_)) fun _ => ?_
    · rw [hold, heq]
    refine obeys_reject_bind (fun _ => herror' _ _) fun hcounter => hstore ?_
    intro record' hrecord
    cases hrecord
    exact ⟨old, hold, UInt64.not_le.mp hcounter⟩

theorem follows_scratchpad
    (hput : ∀ found, pad.Replaces n key found → allowed found ⟨key, .ofScratchpad pad⟩) :
    Follows key allowed (validateAndStoreScratchpadRecord n pad key isClientPut) :=
  obeys_scratchpad (fun _ => trivial) rfl (fun _ _ => trivial) (fun _ _ => trivial)
    fun found hreplaces => obeys_request (hput found hreplaces) fun _ => trivial

theorem put_of_scratchpad (h : Runs (validateAndStoreScratchpadRecord n pad key isClientPut) es r)
    (hput : putExchange record asClient ∈ es) :
    ∃ found, (⟨.getLocalRecord key, found⟩ : NodeExchange) ∈ es ∧
      record = ⟨key, .ofScratchpad pad⟩ ∧ pad.Replaces n key found := by
  have hfollows : Follows key
      (fun found record => record = ⟨key, .ofScratchpad pad⟩ ∧ pad.Replaces n key found)
      (validateAndStoreScratchpadRecord n pad key isClientPut) :=
    follows_scratchpad fun found hreplaces => ⟨rfl, hreplaces⟩
  exact read_of_put hfollows h hput

theorem runs_scratchpad (h : pad.Replaces n key found) :
    Runs (validateAndStoreScratchpadRecord n pad key isClientPut)
      [⟨.getLocalRecord key, found⟩, putExchange ⟨key, .ofScratchpad pad⟩ isClientPut]
      (.ok ()) := by
  obtain ⟨rfl, hsigned, hsize, localRecord, rfl, holder⟩ := h
  have hstore : Runs (storeNewScratchpad n pad isClientPut)
      [putExchange ⟨pad.networkAddress.toRecordKey n.crypto, .ofScratchpad pad⟩ isClientPut]
      (.ok ()) := by
    exact runs_reject_bind (by simp [hsigned]) (runs_reject_bind (by simp [hsize])
      (runs_request.mpr ⟨(), rfl, rfl⟩))
  refine runs_reject_bind (by simp) (runs_request_bind ?_)
  refine runs_fromExcept_bind ?_
  cases localRecord with
  | none => exact hstore
  | some record =>
    obtain ⟨old, hold, hlt⟩ := holder record rfl
    have hne : old ≠ pad := by
      intro heq
      rw [heq] at hlt
      exact UInt64.lt_irrefl _ hlt
    show Runs (orInvalidRecord record.value.asScratchpad _ >>= _) _ _
    rw [hold]
    refine runs_fromExcept_bind ?_
    rw [if_neg hne]
    exact runs_reject_bind (UInt64.not_le.mpr hlt) hstore

end Scratchpads

/-! ### Graph entries -/

section GraphEntries

variable {entries : List GraphEntry} {isClientPut : Bool} {found : Found}

theorem mem_validEntries {e : GraphEntry} :
    e ∈ validEntries n entries key ↔
      e ∈ entries ∧ e.address.toRecordKey n.crypto = key ∧ e.verifySignature n.crypto = true := by
  simp only [validEntries, BTreeSet.mem_extend, not_mem_nil, false_or, mem_filter,
    decide_eq_true_eq, and_assoc]

theorem nodup_validEntries : (validEntries n entries key).Nodup :=
  BTreeSet.nodup_extend _ nodup_nil

theorem forKey_of_valid (h : validEntries n entries key ≠ []) :
    (entries.filter fun e => e.address.toRecordKey n.crypto = key) ≠ [] := by
  obtain ⟨e, he⟩ := exists_mem_of_ne_nil _ h
  obtain ⟨hmem, hkey, -⟩ := mem_validEntries.mp he
  exact ne_nil_of_mem (mem_filter.mpr ⟨hmem, by simpa using hkey⟩)

theorem address_of_head {first : GraphEntry} (h : (validEntries n entries key).head? = some first) :
    first.address.toRecordKey n.crypto = key :=
  (mem_validEntries.mp (mem_of_head? h)).2.1

theorem obeys_getLocalGraphentries
    {post : S → Except PutValidationError (List GraphEntry) → Prop}
    (hkey : address.toRecordKey n.crypto = key) (hread : m.allows s (.getLocalRecord key))
    (herror : ∀ found e, post (m.next s (.getLocalRecord key) found) (.error e))
    (h : ∀ found old, localEntries found = some old →
      post (m.next s (.getLocalRecord key) found) (.ok old)) :
    Obeys m post s (getLocalGraphentries n address) := by
  subst hkey
  refine obeys_request_bind hread fun found => ?_
  refine obeys_fromExcept_bind (fun e _ => herror _ e) fun localRecord hfound => ?_
  obtain rfl : found = .ok localRecord := Checks.mapError_eq_ok.mp hfound
  cases localRecord with
  | none => exact obeys_pure (h _ [] rfl)
  | some record =>
    refine obeys_fromExcept ?_
    cases hold : record.value.asGraphEntries with
    | none => exact herror _ _
    | some old => exact h _ old hold

include herror hread herror' in
theorem obeys_graphEntries
    (hempty : validEntries n entries key = [] → post s (.ok ()))
    (hkept : ∀ found old, localEntries found = some old →
      old.length = (mergedEntries n entries key old).length →
      post (m.next s (.getLocalRecord key) found) (.ok ()))
    (hput : ∀ found merged, EntriesReplace n entries key found merged →
      Obeys m post (m.next s (.getLocalRecord key) found)
        (putLocalRecord ⟨key, .ofGraphEntries merged⟩ isClientPut)) :
    Obeys m post s (validateMergeAndStoreGraphentries n entries key isClientPut) := by
  refine obeys_reject_bind (fun _ => herror _) fun _ => ?_
  dsimp only
  cases hhead : (validEntries n entries key).head? with
  | none => exact obeys_pure (hempty (List.head?_eq_none_iff.mp hhead))
  | some first =>
    refine obeys_bind (obeys_getLocalGraphentries (address_of_head hhead) hread
      (fun found e => herror' found e) ?_)
    intro found old hold
    refine obeys_ite (fun hlen => obeys_pure (hkept found old hold hlen)) fun hlen => ?_
    have hvalid : validEntries n entries key ≠ [] := by
      intro hnil
      rw [hnil] at hhead
      cases hhead
    exact hput found (mergedEntries n entries key old) ⟨hvalid, old, hold, rfl, hlen⟩

theorem follows_graphEntries
    (hput : ∀ found merged, EntriesReplace n entries key found merged →
      allowed found ⟨key, .ofGraphEntries merged⟩) :
    Follows key allowed (validateMergeAndStoreGraphentries n entries key isClientPut) :=
  obeys_graphEntries (fun _ => trivial) rfl (fun _ _ => trivial) (fun _ => trivial)
    (fun _ _ _ _ => trivial)
    fun found merged h => obeys_request (hput found merged h) fun _ => trivial

theorem put_of_graphEntries
    (h : Runs (validateMergeAndStoreGraphentries n entries key isClientPut) es r)
    (hput : putExchange record asClient ∈ es) :
    ∃ found merged, (⟨.getLocalRecord key, found⟩ : NodeExchange) ∈ es ∧
      record = ⟨key, .ofGraphEntries merged⟩ ∧ EntriesReplace n entries key found merged := by
  have hfollows : Follows key
      (fun found record => ∃ merged, record = ⟨key, .ofGraphEntries merged⟩ ∧
        EntriesReplace n entries key found merged)
      (validateMergeAndStoreGraphentries n entries key isClientPut) :=
    follows_graphEntries fun found merged hreplace => ⟨merged, rfl, hreplace⟩
  obtain ⟨found, hread, merged, hrecord, hreplace⟩ := read_of_put hfollows h hput
  exact ⟨found, merged, hread, hrecord, hreplace⟩

theorem runs_graphEntries {merged : List GraphEntry}
    (h : EntriesReplace n entries key found merged) :
    Runs (validateMergeAndStoreGraphentries n entries key isClientPut)
      [⟨.getLocalRecord key, found⟩, putExchange ⟨key, .ofGraphEntries merged⟩ isClientPut]
      (.ok ()) := by
  obtain ⟨hvalid, old, hold, rfl, hlen⟩ := h
  refine runs_reject_bind (forKey_of_valid hvalid) ?_
  obtain ⟨first, hhead⟩ := Option.isSome_iff_exists.mp (isSome_head?.mpr hvalid)
  have hread : Runs (getLocalGraphentries n first.address) [⟨.getLocalRecord key, found⟩]
      (.ok old) := by
    unfold getLocalGraphentries
    rw [address_of_head hhead]
    refine runs_request_bind ?_
    rcases found with e | _ | record
    · cases hold
    · cases hold
      exact runs_fromExcept_bind runs_return
    · refine runs_fromExcept_bind (runs_fromExcept.mpr ⟨rfl, ?_⟩)
      have hsome : record.value.asGraphEntries = some old := hold
      rw [hsome]
      rfl
  dsimp only
  rw [hhead]
  refine runs_bind_ok hread ?_
  show Runs (if old.length = (mergedEntries n entries key old).length then _ else _) _ _
  rw [if_neg hlen]
  exact runs_request.mpr ⟨(), rfl, rfl⟩

end GraphEntries

end StoreFunctions

end Autonomi
