/-
Which client puts are stored without a payment.

Updates of scratchpads and pointers need none, and a failed payment for a graph entry or
a pointer is let pass, if something is stored under the key already.  The existence
check does not look at what that is.  A record of another type then stops scratchpads
and graph entries, whose store functions read it and give up; it does not stop a
pointer, which takes the place of whatever is there.
-/
import Autonomi.Proofs.PaymentForUs
import Autonomi.Proofs.StoreFunctions

namespace Autonomi

open Lib Lib.Fallible List

variable {n : Node} {address : NetworkAddress} {key : RecordKey} {dataType : DataTypes}
  {record stored : Record} {isClientPut : Bool} {es : List NodeExchange}
  {r : Except PutValidationError Unit} {found : Found}

/-- Among these exchanges is a payment for this key and data type that was accepted. -/
def PaidIn (n : Node) (es : List NodeExchange) (key : RecordKey) (dataType : DataTypes) : Prop :=
  ∃ address payment during, during <:+: es ∧ address.toRecordKey n.crypto = key ∧
    Runs (paymentForUsExistsAndIsStillValid n address dataType payment) during (.ok ())

/-- What the node answered about a key: whether it has an entry, and what record it holds. -/
structure Answered (es : List NodeExchange) (key : RecordKey)
    (present : Except NetworkError (Option IndexEntry)) (found : Found) : Prop where
  presence : ∀ x, (⟨.isRecordKeyPresentLocally key, x⟩ : NodeExchange) ∈ es → x = present
  localRead : ∀ x, (⟨.getLocalRecord key, x⟩ : NodeExchange) ∈ es → x = found

/-- A record that is put without a payment, given what the local read finds. -/
def UnpaidPut (n : Node) (record : Record) (found : Found) : DataTypes → Prop
  | .chunk => False
  | .scratchpad =>
    record.value.kind = some (.dataOnly .scratchpad) ∧
      ∃ pad, record.value.body = .scratchpad pad ∧ pad.Replaces n record.key found
  | .graphEntry =>
    record.value.kind = some (.dataWithPayment .graphEntry) ∧
      ∃ payment entry merged, record.value.body = .paid payment (.graphEntry entry) ∧
        EntriesReplace n [entry] record.key found merged
  | .pointer =>
    ∃ pointer : Pointer, pointer.Replaces n record.key found ∧
      (record.value.kind = some (.dataOnly .pointer) ∧ record.value.body = .pointer pointer ∨
        record.value.kind = some (.dataWithPayment .pointer) ∧
          ∃ payment, record.value.body = .paid payment (.pointer pointer))

/-! ### The parts of a handler -/

theorem runs_validateKeyAndExistence {alreadyExists : Bool} :
    Runs (validateKeyAndExistence n address key) es (.ok alreadyExists) ↔
      key = address.toRecordKey n.crypto ∧
        ∃ entry, es = [⟨.isRecordKeyPresentLocally key, .ok entry⟩] ∧
          alreadyExists = entry.isSome := by
  constructor
  · intro h
    rcases runs_reject_bind_iff.mp h with ⟨-, -, hbad⟩ | ⟨hkey, h⟩
    · cases hbad
    have hkey := not_not.mp hkey
    obtain ⟨answer, rest, rfl, hrest⟩ := runs_request_bind_iff.mp h
    rcases runs_fromExcept_bind_iff.mp hrest with ⟨_, -, -, hbad⟩ | ⟨entry, hentry, hdone⟩
    · cases hbad
    obtain rfl : answer = .ok entry := Checks.mapError_eq_ok.mp hentry
    obtain ⟨rfl, hexists⟩ := runs_pure.mp hdone
    exact ⟨hkey, entry, by rw [hkey], Except.ok.inj hexists⟩
  · intro h
    obtain ⟨hkey, entry, rfl, rfl⟩ := h
    rw [hkey]
    refine runs_reject_bind (by simp) (runs_request_bind ?_)
    exact runs_fromExcept_bind runs_return

theorem runs_orInvalidRecord {α : Type} {decoded : Option α} {a : α} :
    Runs (orInvalidRecord decoded key) es (.ok a) ↔ es = [] ∧ decoded = some a := by
  rw [orInvalidRecord, runs_fromExcept]
  constructor
  · intro h
    exact ⟨h.1, Checks.okOr_eq_ok.mp h.2.symm⟩
  · intro h
    exact ⟨h.1, (Checks.okOr_eq_ok.mpr h.2).symm⟩

theorem runs_unlessExists {alreadyExists : Bool} {paymentRes : Except PutValidationError Unit} :
    Runs (unlessExists alreadyExists paymentRes) es (.ok ()) ↔
      es = [] ∧ (paymentRes = .ok () ∨ alreadyExists = true) := by
  unfold unlessExists
  cases paymentRes with
  | ok _ => simp [runs_pure]
  | error e => cases alreadyExists <;> simp [runs_reject]

variable (hput : putExchange stored isClientPut ∈ es)

include hput

theorem runs_storeThenNotify_put {store : Validation Unit} {validationType : ValidationType}
    (h : Runs (storeThenNotify store key validationType) es r) :
    ∃ during x, during <+: es ∧ Runs store during x ∧ putExchange stored isClientPut ∈ during :=
  runs_bind_of_mem_left h (fun _ => quiet_notifyFetchCompleted) hput not_quiet_putExchange

theorem key_of_storeChunk {chunk : Chunk} {asClient : Bool}
    (h : Runs (storeChunk n chunk asClient) es r) :
    stored.key = (NetworkAddress.chunkAddress (chunk.name n.crypto)).toRecordKey n.crypto := by
  rcases runs_reject_bind_iff.mp h with ⟨-, rfl, -⟩ | ⟨-, h⟩
  · cases hput
  · obtain ⟨x, rfl, -⟩ := runs_request.mp h
    obtain ⟨hrequest, -⟩ := Exchange.mk.inj (mem_singleton.mp hput)
    cases hrequest
    rfl

/-! ### From the put back to what permitted it

Each step of a handler before the store function is passed over: the put is not
among its exchanges.
-/

theorem put_past_decode {α : Type} {decoded : Option α} {f : α → Validation Unit}
    (h : Runs (orInvalidRecord decoded key >>= f) es r) :
    ∃ a, decoded = some a ∧ Runs (f a) es r := by
  obtain ⟨first, rest, a, rfl, hdecode, hrest, -⟩ :=
    runs_bind_of_mem h quiet_orInvalidRecord hput not_quiet_putExchange
  obtain ⟨rfl, hsome⟩ := runs_orInvalidRecord.mp hdecode
  exact ⟨a, hsome, hrest⟩

theorem put_past_check {f : Bool → Validation Unit}
    (h : Runs (validateKeyAndExistence n address key >>= f) es r) :
    ∃ entry rest, es = ⟨.isRecordKeyPresentLocally key, .ok entry⟩ :: rest ∧
      key = address.toRecordKey n.crypto ∧ Runs (f entry.isSome) rest r ∧
      putExchange stored isClientPut ∈ rest := by
  obtain ⟨first, rest, alreadyExists, rfl, hcheck, hrest, hmem⟩ :=
    runs_bind_of_mem h quiet_validateKeyAndExistence hput not_quiet_putExchange
  obtain ⟨hkey, entry, rfl, rfl⟩ := runs_validateKeyAndExistence.mp hcheck
  exact ⟨entry, rest, rfl, hkey, hrest, hmem⟩

variable {payment : ProofOfPayment}

theorem put_past_payment
    {f : Except PutValidationError Unit → Validation Unit}
    (h : Runs (attempt (paymentForUsExistsAndIsStillValid n address dataType payment) >>= f) es r) :
    ∃ paid rest paymentRes, es = paid ++ rest ∧
      Runs (paymentForUsExistsAndIsStillValid n address dataType payment) paid paymentRes ∧
      Runs (f paymentRes) rest r ∧ putExchange stored isClientPut ∈ rest := by
  obtain ⟨paid, rest, _, rfl, hattempt, hrest, hmem⟩ :=
    runs_bind_of_mem h (asks_attempt quiet_paymentForUs) hput not_quiet_putExchange
  obtain ⟨_, hpayment, heq⟩ := runs_attempt.mp hattempt
  cases heq
  exact ⟨paid, rest, _, rfl, hpayment, hrest, hmem⟩

/-- A put was paid for, or let through by an entry and by what the local read found. -/
def Justified (n : Node) (record stored : Record) (es : List NodeExchange)
    (dataType : DataTypes) : Prop :=
  PaidIn n es stored.key dataType ∨
    ∃ entry found,
      (⟨.isRecordKeyPresentLocally stored.key, .ok (some entry)⟩ : NodeExchange) ∈ es ∧
      (⟨.getLocalRecord stored.key, found⟩ : NodeExchange) ∈ es ∧
      UnpaidPut n record found dataType

omit hput in
theorem paidIn_middle {e : NodeExchange} {paid rest : List NodeExchange}
    (hkey : key = address.toRecordKey n.crypto)
    (h : Runs (paymentForUsExistsAndIsStillValid n address dataType payment) paid (.ok ())) :
    PaidIn n (e :: (paid ++ rest)) key dataType :=
  ⟨address, payment, paid, ⟨[e], rest, rfl⟩, hkey.symm, h⟩

theorem justified_putPaidChunk
    (h : Runs (putPaidChunk n record) es r) : Justified n record stored es .chunk := by
  obtain ⟨⟨payment, chunk⟩, -, hdecoded⟩ := put_past_decode hput h
  obtain ⟨entry, rest, rfl, hkey, hchecked, hmem⟩ := put_past_check hput hdecoded
  obtain ⟨paid, rest, paymentRes, rfl, hpayment, hpaid, hmem'⟩ := put_past_payment hmem hchecked
  cases entry with
  | some entry =>
    exact absurd (asks_runs quiet_notifyFetchCompleted hpaid _ hmem') not_quiet_putExchange
  | none =>
    rcases runs_fromExcept_bind_iff.mp hpaid with ⟨_, -, rfl, -⟩ | ⟨_, rfl, hstored⟩
    · cases hmem'
    obtain ⟨_, _, -, hstore, hmade⟩ := runs_storeThenNotify_put hmem' hstored
    exact .inl (paidIn_middle (key_of_storeChunk hmade hstore) hpayment)

omit hput in
theorem quiet_afterScratchpad (n : Node) (record : Record)
    (stored : Except PutValidationError Unit) : Asks NodeRequest.Quiet (do
      match stored with
      | .ok _ => notifyFetchCompleted record.key (contentValidationType n record)
      | .error (.outdatedRecordCounter _ _) =>
        notifyFetchCompleted record.key (contentValidationType n record)
      | .error _ => pure ()
      fromExcept stored) := by
  rcases stored with e | _
  · cases e with
    | outdatedRecordCounter _ _ =>
      exact asks_bind quiet_notifyFetchCompleted fun _ => asks_fromExcept
    | _ => exact asks_fromExcept
  · exact asks_bind quiet_notifyFetchCompleted fun _ => asks_fromExcept

theorem justified_putPaidScratchpad
    (h : Runs (putPaidScratchpad n record) es r) : Justified n record stored es .scratchpad := by
  obtain ⟨⟨payment, pad⟩, -, hdecoded⟩ := put_past_decode hput h
  obtain ⟨entry, rest, rfl, hkey, hchecked, hmem⟩ := put_past_check hput hdecoded
  obtain ⟨paid, rest, _, rfl, hpayment, hpaid, hmem'⟩ :=
    runs_bind_of_mem hchecked quiet_paymentForUs hmem not_quiet_putExchange
  obtain ⟨during, _, -, hattempt, hmade⟩ :=
    runs_bind_of_mem_left hpaid (quiet_afterScratchpad n record) hmem' not_quiet_putExchange
  obtain ⟨_, hstore, -⟩ := runs_attempt.mp hattempt
  obtain ⟨_, -, rfl, -⟩ := put_of_scratchpad hstore hmade
  exact .inl (paidIn_middle hkey hpayment)

theorem justified_putScratchpad (hkind : record.value.kind = some (.dataOnly .scratchpad))
    (h : Runs (putScratchpad n record) es r) :
    Justified n record stored es .scratchpad := by
  obtain ⟨pad, hpad, hdecoded⟩ := put_past_decode hput h
  obtain ⟨entry, rest, rfl, hkey, hchecked, hmem⟩ := put_past_check hput hdecoded
  rcases runs_reject_bind_iff.mp hchecked with ⟨-, rfl, -⟩ | ⟨hexists, hstore⟩
  · cases hmem
  obtain ⟨found, hread, rfl, hreplaces⟩ := put_of_scratchpad hstore hmem
  cases entry with
  | none => exact absurd rfl hexists
  | some entry =>
    exact .inr ⟨entry, found, mem_cons_self, mem_cons_of_mem _ hread, hkind, pad,
      RecordValue.asScratchpad_eq_some.mp hpad, hreplaces⟩

theorem justified_putPointer (hkind : record.value.kind = some (.dataOnly .pointer))
    (h : Runs (putPointer n record) es r) :
    Justified n record stored es .pointer := by
  obtain ⟨pointer, hpointer, hdecoded⟩ := put_past_decode hput h
  obtain ⟨entry, rest, rfl, hkey, hchecked, hmem⟩ := put_past_check hput hdecoded
  rcases runs_reject_bind_iff.mp hchecked with ⟨-, rfl, -⟩ | ⟨hexists, hstored⟩
  · cases hmem
  obtain ⟨during, _, hduring, hstore, hmade⟩ := runs_storeThenNotify_put hmem hstored
  obtain ⟨found, hread, rfl, hreplaces⟩ := put_of_pointer hstore hmade
  cases entry with
  | none => exact absurd rfl hexists
  | some entry =>
    exact .inr ⟨entry, found, mem_cons_self,
      mem_cons_of_mem _ (hduring.subset hread), pointer, hreplaces,
      .inl ⟨hkind, RecordValue.asPointer_eq_some.mp hpointer⟩⟩

theorem justified_putPaidPointer (hkind : record.value.kind = some (.dataWithPayment .pointer))
    (h : Runs (putPaidPointer n record) es r) :
    Justified n record stored es .pointer := by
  obtain ⟨⟨payment, pointer⟩, hpointer, hdecoded⟩ := put_past_decode hput h
  obtain ⟨entry, rest, rfl, hkey, hchecked, hmem⟩ := put_past_check hput hdecoded
  obtain ⟨paid, rest, paymentRes, rfl, hpayment, hpaid, hmem'⟩ := put_past_payment hmem hchecked
  obtain ⟨_, rest, _, rfl, hunless, hstored, hmem⟩ :=
    runs_bind_of_mem hpaid quiet_unlessExists hmem' not_quiet_putExchange
  obtain ⟨during, _, hduring, hstore, hmade⟩ := runs_storeThenNotify_put hmem hstored
  obtain ⟨found, hread, rfl, hreplaces⟩ := put_of_pointer hstore hmade
  obtain ⟨rfl, hlet⟩ := runs_unlessExists.mp hunless
  rcases hlet with rfl | hexists
  · exact .inl (paidIn_middle hkey hpayment)
  cases entry with
  | none => exact absurd hexists (by simp)
  | some entry =>
    obtain ⟨item, hbody, hitem⟩ := RecordValue.paidAs_eq_some.mp hpointer
    obtain rfl := Item.asPointer_eq_some.mp hitem
    exact .inr ⟨entry, found, mem_cons_self, mem_cons_of_mem _
      (mem_append_right _ (hduring.subset hread)), pointer, hreplaces, .inr ⟨hkind, payment, hbody⟩⟩

theorem justified_putPaidGraphEntry
    (hkind : record.value.kind = some (.dataWithPayment .graphEntry))
    (h : Runs (putPaidGraphEntry n record) es r) :
    Justified n record stored es .graphEntry := by
  obtain ⟨⟨payment, entry⟩, hentry, hdecoded⟩ := put_past_decode hput h
  rcases runs_reject_bind_iff.mp hdecoded with ⟨-, rfl, -⟩ | ⟨hrecordKey, hdecoded⟩
  · cases hput
  obtain ⟨held, rest, rfl, hkey, hchecked, hmem⟩ := put_past_check hput hdecoded
  obtain ⟨paid, rest, paymentRes, rfl, hpayment, hpaid, hmem'⟩ := put_past_payment hmem hchecked
  obtain ⟨_, rest, _, rfl, hunless, hstored, hmem⟩ :=
    runs_bind_of_mem hpaid quiet_unlessExists hmem' not_quiet_putExchange
  obtain ⟨during, _, hduring, hstore, hmade⟩ := runs_storeThenNotify_put hmem hstored
  obtain ⟨found, merged, hread, rfl, hreplace⟩ := put_of_graphEntries hstore hmade
  obtain ⟨rfl, hlet⟩ := runs_unlessExists.mp hunless
  rcases hlet with rfl | hexists
  · exact .inl (paidIn_middle hkey hpayment)
  cases held with
  | none => exact absurd hexists (by simp)
  | some held =>
    obtain ⟨item, hbody, hitem⟩ := RecordValue.paidAs_eq_some.mp hentry
    obtain rfl := Item.asGraphEntry_eq_some.mp hitem
    rw [← not_not.mp hrecordKey] at hreplace
    exact .inr ⟨held, found, mem_cons_self, mem_cons_of_mem _
      (mem_append_right _ (hduring.subset hread)), hkind, payment, entry, merged, hbody, hreplace⟩

/-- The kinds of a client's put that carry at most a payment of their own. -/
def RecordKind.OfType (kind : RecordKind) (dataType : DataTypes) : Prop :=
  kind = .dataOnly dataType ∨ kind = .dataWithPayment dataType

/-- **Every put is justified**, by a payment or by what the node held. -/
theorem justified_of_put {kind : RecordKind} (hkind : record.value.kind = some kind)
    (htype : kind.OfType dataType) (h : Runs (validateAndStoreRecord n record) es r) :
    Justified n record stored es dataType := by
  unfold validateAndStoreRecord at h
  rw [hkind] at h
  rcases htype with rfl | rfl
  · cases dataType with
    | chunk | graphEntry =>
      obtain ⟨rfl, -⟩ := runs_throw.mp h
      cases hput
    | scratchpad => exact justified_putScratchpad hput hkind h
    | pointer => exact justified_putPointer hput hkind h
  · cases dataType with
    | chunk => exact justified_putPaidChunk hput h
    | graphEntry => exact justified_putPaidGraphEntry hput hkind h
    | scratchpad => exact justified_putPaidScratchpad hput h
    | pointer => exact justified_putPaidPointer hput hkind h

omit hput

/-! ### From what permits a put to the put -/

/-- Exchanges around an unpaid put: a payment check that fails at the first answer, and the
notification at the end. -/
def Idle : NodeExchange → Prop
  | ⟨.getKClosestLocalPeers _, .error _⟩ => True
  | ⟨.notifyFetchCompleted _ _, _⟩ => True
  | _ => False

def unpaidTrace (entry : IndexEntry) (found : Found) (stored : Record)
    (paying notified : List NodeExchange) : List NodeExchange :=
  ⟨.isRecordKeyPresentLocally stored.key, .ok (some entry)⟩ :: (paying ++
    ⟨.getLocalRecord stored.key, found⟩ :: putExchange stored true :: notified)

section UnpaidTrace

variable {entry : IndexEntry} {paying notified : List NodeExchange}

theorem mem_unpaidTrace {e : NodeExchange} (hpaying : ∀ e ∈ paying, Idle e)
    (hnotified : ∀ e ∈ notified, Idle e) (h : e ∈ unpaidTrace entry found stored paying notified) :
    e = ⟨.isRecordKeyPresentLocally stored.key, .ok (some entry)⟩ ∨
      e = ⟨.getLocalRecord stored.key, found⟩ ∨ e = putExchange stored true ∨ Idle e := by
  simp only [unpaidTrace, mem_cons, mem_append] at h
  rcases h with h | h | h | h | h
  · exact .inl h
  · exact .inr (.inr (.inr (hpaying e h)))
  · exact .inr (.inl h)
  · exact .inr (.inr (.inl h))
  · exact .inr (.inr (.inr (hnotified e h)))

theorem answered_unpaidTrace (hpaying : ∀ e ∈ paying, Idle e)
    (hnotified : ∀ e ∈ notified, Idle e) :
    Answered (unpaidTrace entry found stored paying notified) stored.key (.ok (some entry))
      found := by
  constructor
  · intro x hx
    rcases mem_unpaidTrace hpaying hnotified hx with h | h | h | h
    · cases h
      rfl
    · cases h
    · cases h
    · exact False.elim h
  · intro x hx
    rcases mem_unpaidTrace hpaying hnotified hx with h | h | h | h
    · cases h
    · cases h
      rfl
    · cases h
    · exact False.elim h

theorem closest_of_paid
    (h : Runs (paymentForUsExistsAndIsStillValid n address dataType payment) es (.ok ())) :
    ∃ peers, (⟨.getKClosestLocalPeers address, .ok peers⟩ : NodeExchange) ∈ es := by
  rcases runs_reject_bind_iff.mp h with ⟨-, -, hbad⟩ | ⟨-, h⟩
  · cases hbad
  rcases runs_reject_bind_iff.mp h with ⟨-, -, hbad⟩ | ⟨-, h⟩
  · cases hbad
  obtain ⟨answer, rest, rfl, hrest⟩ := runs_request_bind_iff.mp h
  rcases runs_fromExcept_bind_iff.mp hrest with ⟨_, -, -, hbad⟩ | ⟨peers, hpeers, -⟩
  · cases hbad
  obtain rfl : answer = .ok peers := Checks.mapError_eq_ok.mp hpeers
  exact ⟨peers, mem_cons_self⟩

theorem not_paidIn_unpaidTrace (hpaying : ∀ e ∈ paying, Idle e)
    (hnotified : ∀ e ∈ notified, Idle e) :
    ¬ PaidIn n (unpaidTrace entry found stored paying notified) key dataType := by
  intro h
  obtain ⟨address, payment, during, hduring, -, hruns⟩ := h
  obtain ⟨peers, hpeers⟩ := closest_of_paid hruns
  rcases mem_unpaidTrace hpaying hnotified (hduring.subset hpeers) with h | h | h | h
  · cases h
  · cases h
  · cases h
  · exact h

theorem exists_failed_payment (n : Node) (address : NetworkAddress) (dataType : DataTypes)
    (payment : ProofOfPayment) :
    ∃ paying e, Runs (paymentForUsExistsAndIsStillValid n address dataType payment) paying
      (.error e) ∧ ∀ e ∈ paying, Idle e := by
  by_cases hfor : payment.verifyFor n.crypto n.rmpMetrics n.peerId = false
  · exact ⟨[], _, runs_reject_bind_iff.mpr (.inl ⟨hfor, rfl, rfl⟩), by simp⟩
  by_cases htype : payment.verifyDataType dataType.getIndex = false
  · exact ⟨[], _, runs_reject_bind hfor (runs_reject_bind_iff.mpr (.inl ⟨htype, rfl, rfl⟩)),
      by simp⟩
  refine ⟨[⟨.getKClosestLocalPeers address, .error ""⟩], .localSwarmError,
    runs_reject_bind hfor (runs_reject_bind htype (runs_request_bind
      (runs_fromExcept_bind_iff.mpr (.inl ⟨_, rfl, rfl, rfl⟩)))), ?_⟩
  intro e he
  rw [mem_singleton.mp he]
  trivial

def notifyExchange (record : Record) (validationType : ValidationType) : NodeExchange :=
  ⟨.notifyFetchCompleted record.key validationType, ()⟩

variable {validationType : ValidationType}

theorem idle_notify : ∀ e ∈ [notifyExchange record validationType], Idle e := by
  intro e he
  rw [mem_singleton.mp he]
  trivial

theorem runs_storeThenNotify {store : Validation Unit} (h : Runs store es (.ok ())) :
    Runs (storeThenNotify store record.key validationType)
      (es ++ [notifyExchange record validationType])
      (.ok ()) :=
  runs_bind_ok h (runs_request.mpr ⟨(), rfl, rfl⟩)

theorem runs_check (hkey : key = address.toRecordKey n.crypto) (entry : IndexEntry) :
    Runs (validateKeyAndExistence n address key)
      [⟨.isRecordKeyPresentLocally key, .ok (some entry)⟩] (.ok true) :=
  runs_validateKeyAndExistence.mpr ⟨hkey, some entry, rfl, rfl⟩

theorem exists_unpaid_run (h : UnpaidPut n record found dataType) (entry : IndexEntry) :
    ∃ stored paying notified, stored.key = record.key ∧
      stored.value.getDataType = some dataType ∧
      (∀ e ∈ paying, Idle e) ∧ (∀ e ∈ notified, Idle e) ∧
      Runs (validateAndStoreRecord n record) (unpaidTrace entry found stored paying notified)
        (.ok ()) := by
  unfold validateAndStoreRecord
  cases dataType with
  | chunk => exact False.elim h
  | scratchpad =>
    obtain ⟨hkind, pad, hbody, hreplaces⟩ := h
    refine ⟨⟨record.key, .ofScratchpad pad⟩, [], [], rfl, rfl, by simp, by simp, ?_⟩
    rw [hkind]
    refine runs_bind_ok (runs_orInvalidRecord.mpr
      ⟨rfl, RecordValue.asScratchpad_eq_some.mpr hbody⟩) ?_
    refine runs_bind_ok (runs_check hreplaces.1.symm entry) ?_
    exact runs_reject_bind (by simp) (runs_scratchpad hreplaces)
  | graphEntry =>
    obtain ⟨hkind, payment, graphEntry, merged, hbody, hreplace⟩ := h
    obtain ⟨paying, _, hpayment, hidle⟩ :=
      exists_failed_payment n graphEntry.address .graphEntry payment
    refine ⟨⟨record.key, .ofGraphEntries merged⟩, paying,
      [notifyExchange record (contentValidationType n record)], rfl, rfl, hidle, idle_notify, ?_⟩
    have hkey : graphEntry.address.toRecordKey n.crypto = record.key := by
      obtain ⟨e, he⟩ := exists_mem_of_ne_nil _ hreplace.1
      obtain ⟨hmem, hkey, -⟩ := mem_validEntries.mp he
      rw [← mem_singleton.mp hmem, hkey]
    have hdecode : record.value.paidAs Item.asGraphEntry = some (payment, graphEntry) :=
      RecordValue.paidAs_eq_some.mpr ⟨_, hbody, rfl⟩
    rw [hkind]
    refine runs_bind_ok (runs_orInvalidRecord.mpr ⟨rfl, hdecode⟩) ?_
    refine runs_reject_bind (by simp [hkey]) ?_
    rw [hkey]
    refine runs_bind_ok (runs_check hkey.symm entry) ?_
    refine runs_bind_ok (runs_attempt.mpr ⟨_, hpayment, rfl⟩) ?_
    refine runs_bind_ok (runs_unlessExists.mpr ⟨rfl, .inr rfl⟩) ?_
    exact runs_storeThenNotify (runs_graphEntries hreplace)
  | pointer =>
    obtain ⟨pointer, hreplaces, hkind⟩ := h
    rcases hkind with ⟨hkind, hbody⟩ | ⟨hkind, payment, hbody⟩
    · refine ⟨⟨record.key, .ofPointer pointer⟩, [],
        [notifyExchange record (contentValidationType n record)], rfl, rfl, by simp, idle_notify,
        ?_⟩
      rw [hkind]
      refine runs_bind_ok (runs_orInvalidRecord.mpr
        ⟨rfl, RecordValue.asPointer_eq_some.mpr hbody⟩) ?_
      refine runs_bind_ok (runs_check hreplaces.2.1 entry) ?_
      exact runs_reject_bind (by simp) (runs_storeThenNotify (runs_pointer hreplaces))
    · obtain ⟨paying, _, hpayment, hidle⟩ :=
        exists_failed_payment n pointer.address .pointer payment
      refine ⟨⟨record.key, .ofPointer pointer⟩, paying,
        [notifyExchange record (contentValidationType n record)], rfl, rfl, hidle, idle_notify, ?_⟩
      have hdecode : record.value.paidAs Item.asPointer = some (payment, pointer) :=
        RecordValue.paidAs_eq_some.mpr ⟨_, hbody, rfl⟩
      rw [hkind]
      refine runs_bind_ok (runs_orInvalidRecord.mpr ⟨rfl, hdecode⟩) ?_
      refine runs_bind_ok (runs_check hreplaces.2.1 entry) ?_
      refine runs_bind_ok (runs_attempt.mpr ⟨_, hpayment, rfl⟩) ?_
      refine runs_bind_ok (runs_unlessExists.mpr ⟨rfl, .inr rfl⟩) ?_
      exact runs_storeThenNotify (runs_pointer hreplaces)

end UnpaidTrace

/-! ### Paid or held -/

/-- Whatever is put was paid for, or the node held a record of its type when asked. -/
def PaidOrHeld (n : Node) (record : Record) (dataType : DataTypes)
    (present : Except NetworkError (Option IndexEntry)) (found : Found) : Prop :=
  ∀ es r stored isClientPut, Runs (validateAndStoreRecord n record) es r →
    putExchange stored isClientPut ∈ es → stored.value.getDataType = some dataType →
    Answered es stored.key present found →
    PaidIn n es stored.key dataType ∨
      ∃ entry, present = .ok (some entry) ∧ entry.dataType = dataType

theorem not_paidOrHeld_of_unpaid {entry : IndexEntry} (hother : entry.dataType ≠ dataType)
    (hunpaid : UnpaidPut n record found dataType) :
    ¬ PaidOrHeld n record dataType (.ok (some entry)) found := by
  intro hclaim
  obtain ⟨stored, paying, notified, -, hstored, hpaying, hnotified, hruns⟩ :=
    exists_unpaid_run hunpaid entry
  have hput : putExchange stored true ∈ unpaidTrace entry found stored paying notified := by
    simp [unpaidTrace]
  rcases hclaim _ _ stored true hruns hput hstored (answered_unpaidTrace hpaying hnotified) with
    hpaid | ⟨held, hheld, hsame⟩
  · exact not_paidIn_unpaidTrace hpaying hnotified hpaid
  · cases hheld
    exact hother hsame

/--
**When what is stored was paid for or held.**  Except when the node holds a record of
another type, and the record is one that goes through unpaid with what the local read
finds: a pointer over anything but a pointer as new, or a scratchpad or graph entries
over nothing or older ones of their own type.
-/
theorem paidOrHeld_iff (n : Node) (record : Record) (kind : RecordKind) (dataType : DataTypes)
    (present : Except NetworkError (Option IndexEntry)) (found : Found)
    (hkind : record.value.kind = some kind) (htype : kind.OfType dataType) :
    PaidOrHeld n record dataType present found ↔
      ¬ ∃ entry, present = .ok (some entry) ∧ entry.dataType ≠ dataType ∧
        UnpaidPut n record found dataType := by
  constructor
  · intro hclaim hfree
    obtain ⟨entry, rfl, hother, hunpaid⟩ := hfree
    exact not_paidOrHeld_of_unpaid hother hunpaid hclaim
  · intro hcond es r stored isClientPut hruns hput _ hanswered
    rcases justified_of_put hput hkind htype hruns with hpaid | ⟨entry, found', hentry, hread, h⟩
    · exact .inl hpaid
    have hpresent := hanswered.presence _ hentry
    have hfound := hanswered.localRead _ hread
    by_cases hsame : entry.dataType = dataType
    · exact .inr ⟨entry, hpresent.symm, hsame⟩
    · exact absurd ⟨entry, hpresent.symm, hsame, hfound ▸ h⟩ hcond

/-! ### A pointer over a scratchpad -/

namespace Sample

def owner : PublicKey := Vector.replicate 48 1

def ownerKey : RecordKey := (ownerName Crypto.simple owner).toList

def pointer : Pointer where
  owner := owner
  counter := 1
  target := .chunkAddress (bytes32 0)
  signature := Vector.replicate 96 1

def scratchpad : Scratchpad where
  owner := owner
  dataEncoding := 0
  encryptedData := []
  counter := 7
  signature := Vector.replicate 96 1

def pointerPut : Record := ⟨ownerKey, .ofPointer pointer⟩

def heldEntry : IndexEntry where
  address := .recordKey ownerKey
  validationType := .nonChunk (bytes32 0)
  dataType := .scratchpad

theorem heldEntry_other : heldEntry.dataType ≠ .pointer := by decide

def heldRecord : Record := ⟨ownerKey, .ofScratchpad scratchpad⟩

theorem pointer_replaces : pointer.Replaces node ownerKey (.ok (some heldRecord)) := by
  refine ⟨by decide, rfl, ?_⟩
  intro old hold
  cases hold

theorem pointer_unpaid : UnpaidPut node pointerPut (.ok (some heldRecord)) .pointer :=
  ⟨pointer, pointer_replaces, .inl ⟨rfl, rfl⟩⟩

end Sample

theorem paidOrHeld_sample :
    PaidOrHeld Sample.node Sample.pointerPut .pointer (.ok none) (.ok none) := by
  refine (paidOrHeld_iff Sample.node Sample.pointerPut (.dataOnly .pointer) .pointer _ _ rfl
    (.inl rfl)).mpr ?_
  intro h
  obtain ⟨_, hentry, -⟩ := h
  cases hentry

/-- A pointer sent as an update takes the place of a scratchpad, unpaid. -/
theorem not_always_paidOrHeld :
    ¬ ∀ (n : Node) (record : Record) (kind : RecordKind) (dataType : DataTypes)
        (present : Except NetworkError (Option IndexEntry)) (found : Found),
      record.value.kind = some kind → kind.OfType dataType →
      PaidOrHeld n record dataType present found := by
  intro h
  exact not_paidOrHeld_of_unpaid Sample.heldEntry_other Sample.pointer_unpaid
    (h Sample.node Sample.pointerPut (.dataOnly .pointer) .pointer _ _ rfl (.inl rfl))

end Autonomi
