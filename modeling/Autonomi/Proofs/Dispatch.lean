/-
From the entry points to the store functions.

Whatever a record that is not a chunk arrives as, its validation decodes it, checks
keys and payments, calls one of three store functions, and sends notifications.
Only the store function reads the local record or puts.  So a protocol that the
store functions follow, and that what comes before and after cannot upset, is
followed by every validation.
-/
import Autonomi.Node.Validations
import Autonomi.Proofs.StoreFunctions

namespace Autonomi

open Lib Lib.Fallible

def RecordValue.entries (v : RecordValue) : List GraphEntry :=
  match v.body with
  | .graphEntries es => es
  | .paid _ (.graphEntry e) => [e]
  | .merklePaid _ (.graphEntry e) => [e]
  | _ => []

variable {v : RecordValue}

theorem RecordValue.entries_of_graphEntries {es : List GraphEntry}
    (h : v.asGraphEntries = some es) : v.entries = es := by
  unfold RecordValue.entries
  rw [RecordValue.asGraphEntries_eq_some.mp h]

theorem RecordValue.entries_of_paid {payment : ProofOfPayment} {e : GraphEntry}
    (h : v.paidAs Item.asGraphEntry = some (payment, e)) : v.entries = [e] := by
  obtain ⟨item, hbody, hitem⟩ := RecordValue.paidAs_eq_some.mp h
  unfold RecordValue.entries
  rw [hbody, Item.asGraphEntry_eq_some.mp hitem]

theorem RecordValue.entries_of_merklePaid {proof : MerklePaymentProof} {e : GraphEntry}
    (h : v.merklePaidAs Item.asGraphEntry = some (proof, e)) : v.entries = [e] := by
  obtain ⟨item, hbody, hitem⟩ := RecordValue.merklePaidAs_eq_some.mp h
  unfold RecordValue.entries
  rw [hbody, Item.asGraphEntry_eq_some.mp hitem]

variable {n : Node} {allowed : Found → Record → Prop} {record : Record} {s : StoreState}
  {post : StoreState → Except PutValidationError Unit → Prop}

/-! ### After the store function -/

variable {validationType : ValidationType}

theorem obeys_storeThenNotify {key k : RecordKey} {store : Validation Unit}
    (hpast : ∀ st x, post st x → post st.past x) (h : Obeys (storeMonitor key allowed) post s store) :
    Obeys (storeMonitor key allowed) post s (storeThenNotify store k validationType) := by
  refine obeys_bind (obeys_mono ?_ h)
  intro st x hx
  cases x with
  | error e => exact hx
  | ok _ =>
    have hquiet : (NodeRequest.notifyFetchCompleted k validationType).Quiet := trivial
    exact obeys_request (monitor_quiet key allowed st hquiet).1 fun _ => hpast st _ hx

theorem obeys_notifyStored {key k : RecordKey} {stored : Except PutValidationError Unit}
    (hpast : ∀ st x, post st x → post st.past x) (h : post s stored) :
    Obeys (storeMonitor key allowed) post s (do
      match stored with
      | .ok _ | .error (.outdatedRecordCounter _ _) => notifyFetchCompleted k validationType
      | .error _ => pure ()
      fromExcept stored) := by
  have hquiet : (NodeRequest.notifyFetchCompleted k validationType).Quiet := trivial
  have hnotify : Obeys (storeMonitor key allowed) post s
      (notifyFetchCompleted k validationType >>= fun _ => fromExcept stored) :=
    obeys_request_bind (monitor_quiet key allowed s hquiet).1 fun _ =>
      obeys_fromExcept (hpast s _ h)
  cases stored with
  | ok _ => exact hnotify
  | error e =>
    cases e with
    | outdatedRecordCounter _ _ => exact hnotify
    | _ => exact obeys_fromExcept h

/-! ### Before it -/

section Handlers

variable (hpast : ∀ st x, post st x → post st.past x) (herror : ∀ e, post .fresh (.error e))

abbrev RecordObeys (allowed : Found → Record → Prop)
    (post : StoreState → Except PutValidationError Unit → Prop) (record : Record)
    (p : Validation Unit) : Prop :=
  Obeys (storeMonitor record.key allowed) post .fresh p

section Scratchpads

variable (hstore : ∀ pad isClientPut, RecordObeys allowed post record
  (validateAndStoreScratchpadRecord n pad record.key isClientPut))

include hpast herror hstore

theorem obeys_putPaidScratchpad : RecordObeys allowed post record (putPaidScratchpad n record) := by
  refine obeys_quiet_bind quiet_orInvalidRecord herror ?_
  rintro ⟨payment, pad⟩
  refine obeys_quiet_bind quiet_validateKeyAndExistence herror fun _ => ?_
  refine obeys_quiet_bind quiet_paymentForUs herror fun _ => ?_
  refine obeys_bind (obeys_attempt (obeys_mono ?_ (hstore pad true)))
  exact fun st x hx => obeys_notifyStored hpast hx

omit hpast in
theorem obeys_putScratchpad : RecordObeys allowed post record (putScratchpad n record) := by
  refine obeys_quiet_bind quiet_orInvalidRecord herror fun pad => ?_
  refine obeys_quiet_bind quiet_validateKeyAndExistence herror fun _ => ?_
  exact obeys_reject_bind (fun _ => herror _) fun _ => hstore pad true

end Scratchpads

section Pointers

variable (hstore : ∀ p isClientPut, RecordObeys allowed post record
  (validateAndStorePointerRecord n p record.key isClientPut))

include hpast herror hstore

theorem obeys_putPointer : RecordObeys allowed post record (putPointer n record) := by
  refine obeys_quiet_bind quiet_orInvalidRecord herror fun p => ?_
  refine obeys_quiet_bind quiet_validateKeyAndExistence herror fun _ => ?_
  exact obeys_reject_bind (fun _ => herror _) fun _ =>
    obeys_storeThenNotify hpast (hstore p true)

theorem obeys_putPaidPointer : RecordObeys allowed post record (putPaidPointer n record) := by
  refine obeys_quiet_bind quiet_orInvalidRecord herror ?_
  rintro ⟨payment, p⟩
  refine obeys_quiet_bind quiet_validateKeyAndExistence herror fun _ => ?_
  refine obeys_quiet_bind (asks_attempt quiet_paymentForUs) herror fun _ => ?_
  refine obeys_quiet_bind quiet_unlessExists herror fun _ => ?_
  exact obeys_storeThenNotify hpast (hstore p true)

end Pointers

section GraphEntries

variable (hstore : ∀ isClientPut, RecordObeys allowed post record
  (validateMergeAndStoreGraphentries n record.value.entries record.key isClientPut))

include hpast herror hstore

theorem obeys_putPaidGraphEntry : RecordObeys allowed post record (putPaidGraphEntry n record) := by
  refine obeys_fromExcept_bind (fun e _ => herror e) ?_
  rintro ⟨payment, e⟩ hdecode
  have hentries := RecordValue.entries_of_paid (Checks.okOr_eq_ok.mp hdecode)
  refine obeys_reject_bind (fun _ => herror _) fun hkey => ?_
  rw [← not_not.mp hkey]
  refine obeys_quiet_bind quiet_validateKeyAndExistence herror fun _ => ?_
  refine obeys_quiet_bind (asks_attempt quiet_paymentForUs) herror fun _ => ?_
  refine obeys_quiet_bind quiet_unlessExists herror fun _ => ?_
  rw [← hentries]
  exact obeys_storeThenNotify hpast (hstore true)

end GraphEntries

/-- The three store functions, as far as records of this type call them, follow the protocol. -/
structure StoresObey (n : Node) (allowed : Found → Record → Prop)
    (post : StoreState → Except PutValidationError Unit → Prop) (record : Record)
    (dataType : DataTypes) : Prop where
  scratchpad : dataType = .scratchpad → ∀ pad isClientPut, RecordObeys allowed post record
    (validateAndStoreScratchpadRecord n pad record.key isClientPut)
  pointer : dataType = .pointer → ∀ p isClientPut, RecordObeys allowed post record
    (validateAndStorePointerRecord n p record.key isClientPut)
  graphEntry : dataType = .graphEntry → ∀ isClientPut, RecordObeys allowed post record
    (validateMergeAndStoreGraphentries n record.value.entries record.key isClientPut)

variable {dataType : DataTypes} (hstores : StoresObey n allowed post record dataType)
  (hchunk : dataType ≠ .chunk)

include hpast herror hstores hchunk

theorem obeys_merklePut :
    RecordObeys allowed post record (validateAndStoreMerklePaymentRecord n record dataType) := by
  unfold validateAndStoreMerklePaymentRecord
  cases dataType with
  | chunk => exact absurd rfl hchunk
  | scratchpad =>
    refine obeys_quiet_bind quiet_orInvalidRecord herror ?_
    rintro ⟨proof, pad⟩
    exact obeys_quiet_bind quiet_verifyMerklePayment herror fun _ =>
      obeys_storeThenNotify hpast (hstores.scratchpad rfl pad true)
  | pointer =>
    refine obeys_quiet_bind quiet_orInvalidRecord herror ?_
    rintro ⟨proof, p⟩
    exact obeys_quiet_bind quiet_verifyMerklePayment herror fun _ =>
      obeys_storeThenNotify hpast (hstores.pointer rfl p true)
  | graphEntry =>
    refine obeys_fromExcept_bind (fun e _ => herror e) ?_
    rintro ⟨proof, e⟩ hdecode
    have hentries := RecordValue.entries_of_merklePaid (Checks.okOr_eq_ok.mp hdecode)
    refine obeys_quiet_bind quiet_verifyMerklePayment herror fun _ => ?_
    rw [← hentries]
    exact obeys_storeThenNotify hpast (hstores.graphEntry rfl true)

theorem obeys_clientPut (htype : record.value.getDataType = some dataType) :
    RecordObeys allowed post record (validateAndStoreRecord n record) := by
  obtain ⟨kind, hkind, rfl⟩ := Option.map_eq_some_iff.mp htype
  unfold validateAndStoreRecord
  rw [hkind]
  cases kind with
  | dataWithMerklePayment dataType => exact obeys_merklePut hpast herror hstores hchunk
  | dataOnly dataType =>
    cases dataType with
    | chunk => exact absurd rfl hchunk
    | scratchpad => exact obeys_putScratchpad herror (hstores.scratchpad rfl)
    | pointer => exact obeys_putPointer hpast herror (hstores.pointer rfl)
    | graphEntry => exact obeys_throw (herror _)
  | dataWithPayment dataType =>
    cases dataType with
    | chunk => exact absurd rfl hchunk
    | scratchpad => exact obeys_putPaidScratchpad hpast herror (hstores.scratchpad rfl)
    | pointer => exact obeys_putPaidPointer hpast herror (hstores.pointer rfl)
    | graphEntry => exact obeys_putPaidGraphEntry hpast herror (hstores.graphEntry rfl)

omit hpast in
theorem obeys_replicated (htype : record.value.getDataType = some dataType) :
    RecordObeys allowed post record (storeReplicatedInRecord n record) := by
  obtain ⟨kind, hkind, rfl⟩ := Option.map_eq_some_iff.mp htype
  unfold storeReplicatedInRecord
  rw [hkind]
  cases kind with
  | dataWithMerklePayment dataType | dataWithPayment dataType => exact obeys_throw (herror _)
  | dataOnly dataType =>
    cases dataType with
    | chunk => exact absurd rfl hchunk
    | scratchpad =>
      exact obeys_quiet_bind quiet_orInvalidRecord herror fun pad =>
        hstores.scratchpad rfl pad false
    | pointer =>
      exact obeys_quiet_bind quiet_orInvalidRecord herror fun p => hstores.pointer rfl p false
    | graphEntry =>
      refine obeys_fromExcept_bind (fun e _ => herror e) fun es hdecode => ?_
      rw [← RecordValue.entries_of_graphEntries (Checks.okOr_eq_ok.mp hdecode)]
      exact hstores.graphEntry rfl false

/-- **A validation follows every protocol its store function follows.** -/
theorem obeys_start (source : Source) (htype : record.value.getDataType = some dataType) :
    RecordObeys allowed post record (Job.start n ⟨source, record⟩) := by
  cases source with
  | client => exact obeys_clientPut hpast herror hstores hchunk htype
  | replicated => exact obeys_replicated herror hstores hchunk htype

end Handlers

end Autonomi
