/-
Where puts come from.

A validation changes the store only through `PutLocalRecord`.  Most of what it does
is about the network and the chain.  `Quiet` says of a request that it leaves the
stored records alone, and `Inquiry` that it does not mark a fetch as completed
either.  The lemmas here say so of every function that makes only such requests, so
that a put found in an execution can be followed to the store function that made it.
-/
import Autonomi.Node.RecordHandlers

namespace Autonomi

open Lib Lib.Fallible

def NodeRequest.Quiet : NodeRequest → Prop
  | .getLocalRecord _ => False
  | .putLocalRecord _ _ => False
  | _ => True

/-- A request that announces no fetch either: about keys, peers, payments and the time. -/
def NodeRequest.Inquiry : NodeRequest → Prop
  | .getLocalRecord _ => False
  | .putLocalRecord _ _ => False
  | .notifyFetchCompleted _ _ => False
  | _ => True

def putExchange (record : Record) (isClientPut : Bool) : NodeExchange :=
  ⟨.putLocalRecord record isClientPut, ()⟩

theorem not_quiet_putExchange {record : Record} {isClientPut : Bool} :
    ¬ (putExchange record isClientPut).request.Quiet := not_false

theorem putExchange_mem {es : List NodeExchange} {record : Record} {isClientPut : Bool}
    (h : NodeRequest.putLocalRecord record isClientPut ∈ es.map Exchange.request) :
    putExchange record isClientPut ∈ es := by
  obtain ⟨⟨q, x⟩, he, hq⟩ := List.mem_map.mp h
  cases hq
  exact he

variable {payment : ProofOfPayment}

/-! ### What a record decodes as -/

namespace RecordValue

variable {v : RecordValue}

theorem asScratchpad_eq_some {pad : Scratchpad} :
    v.asScratchpad = some pad ↔ v.body = .scratchpad pad := by
  unfold asScratchpad
  cases v.body <;> simp

theorem asPointer_eq_some {pointer : Pointer} :
    v.asPointer = some pointer ↔ v.body = .pointer pointer := by
  unfold asPointer
  cases v.body <;> simp

theorem asGraphEntries_eq_some {entries : List GraphEntry} :
    v.asGraphEntries = some entries ↔ v.body = .graphEntries entries := by
  unfold asGraphEntries
  cases v.body <;> simp

variable {α : Type}

theorem paidAs_eq_some {proj : Item → Option α} {a : α} :
    v.paidAs proj = some (payment, a) ↔
      ∃ item, v.body = .paid payment item ∧ proj item = some a := by
  unfold paidAs
  cases v.body with
  | paid payment' item => simp [and_comm, and_assoc]
  | _ => simp

theorem merklePaidAs_eq_some {proj : Item → Option α} {proof : MerklePaymentProof}
    {a : α} : v.merklePaidAs proj = some (proof, a) ↔
      ∃ item, v.body = .merklePaid proof item ∧ proj item = some a := by
  unfold merklePaidAs
  cases v.body with
  | merklePaid proof' item => simp [and_comm, and_assoc]
  | _ => simp

end RecordValue

theorem Item.asGraphEntry_eq_some {item : Item} {e : GraphEntry} :
    item.asGraphEntry = some e ↔ item = .graphEntry e := by
  unfold Item.asGraphEntry
  cases item <;> simp

theorem Item.asPointer_eq_some {item : Item} {p : Pointer} :
    item.asPointer = some p ↔ item = .pointer p := by
  unfold Item.asPointer
  cases item <;> simp

variable {n : Node} {address : NetworkAddress} {key : RecordKey} {dataType : DataTypes}

/-! ### Payments -/

theorem inquiry_orLocalSwarmError {answer : Except NetworkError α} :
    Asks NodeRequest.Inquiry (orLocalSwarmError answer) := asks_fromExcept

theorem inquiry_validateKeyAndExistence :
    Asks NodeRequest.Inquiry (validateKeyAndExistence n address key) := by
  exact asks_bind asks_reject fun _ => asks_bind (asks_request trivial) fun _ =>
    asks_bind inquiry_orLocalSwarmError fun _ => asks_pure

theorem inquiry_verifyPayeesInRange {payees : List PeerId} :
    Asks NodeRequest.Inquiry (verifyPayeesInRange n address payees) := by
  unfold verifyPayeesInRange
  by_cases hempty : payees = []
  · rw [if_pos hempty]
    exact asks_pure
  · rw [if_neg hempty]
    refine asks_bind (asks_request trivial) fun _ =>
      asks_bind inquiry_orLocalSwarmError fun density => ?_
    cases density with
    | none => exact asks_pure
    | some range => exact asks_reject

variable {payments : List (QuoteHash × QuotingMetrics × RewardsAddress)}

theorem inquiry_verifyDataPayment {owned : List QuoteHash} :
    Asks NodeRequest.Inquiry (verifyDataPayment owned payments) := by
  exact asks_bind (asks_request trivial) fun _ => asks_pure

theorem inquiry_verifyOnChain {owned : List QuoteHash} :
    Asks NodeRequest.Inquiry (verifyOnChain key owned payments) := by
  refine asks_bind inquiry_verifyDataPayment fun result => ?_
  cases result with
  | ok amount => exact asks_pure
  | error e => exact asks_bind inquiry_verifyDataPayment fun _ => asks_fromExcept

theorem inquiry_paymentForUs :
    Asks NodeRequest.Inquiry (paymentForUsExistsAndIsStillValid n address dataType payment) := by
  refine asks_bind asks_reject fun _ => asks_bind asks_reject fun _ =>
    asks_bind (asks_request trivial) fun _ => asks_bind inquiry_orLocalSwarmError fun _ =>
    asks_bind inquiry_verifyPayeesInRange fun _ => asks_bind inquiry_verifyOnChain fun reward => ?_
  by_cases hreward : reward ≠ 0
  · rw [if_pos hreward]
    exact asks_request trivial
  · rw [if_neg hreward]
    exact asks_pure

variable {paymentRes : Except PutValidationError Unit}

theorem inquiry_unlessExists {alreadyExists : Bool} :
    Asks NodeRequest.Inquiry (unlessExists alreadyExists paymentRes) := by
  cases paymentRes with
  | ok _ => exact asks_pure
  | error e => exact asks_reject

/-! ### Merkle payments -/

variable {winnerPoolHash : PoolHash}

theorem inquiry_fetchPaymentInfo :
    Asks NodeRequest.Inquiry (fetchPaymentInfo key winnerPoolHash) := by
  have hinfo : Asks NodeRequest.Inquiry (getMerklePaymentInfo winnerPoolHash) :=
    asks_request trivial
  refine asks_bind hinfo fun first => ?_
  cases first with
  | ok info => exact asks_pure
  | error _ =>
    refine asks_bind hinfo fun second => ?_
    cases second with
    | ok info => exact asks_pure
    | error e => exact asks_throw

theorem inquiry_fetchCommitments {timestamp : UInt64} (attempts : Nat) :
    Asks NodeRequest.Inquiry (fetchCommitments winnerPoolHash timestamp attempts) := by
  have hfetch : Asks NodeRequest.Inquiry
      (getMerklePaymentPackedCommitments winnerPoolHash timestamp) := asks_request trivial
  induction attempts with
  | zero => exact hfetch
  | succ attempts ih =>
    refine asks_bind hfetch fun answer => ?_
    cases answer with
    | ok commitments => exact asks_pure
    | error _ => exact ih

variable {proof : MerklePaymentProof} {info : MerklePaymentVault.PaymentInfo}

theorem inquiry_verifyCostUnits :
    Asks NodeRequest.Inquiry (verifyCostUnits proof info winnerPoolHash key) := by
  refine asks_bind (inquiry_fetchCommitments _) fun commitments => ?_
  cases commitments with
  | ok commitments => exact asks_fromExcept
  | error e => exact asks_throw

theorem inquiry_verifyPaidNodesDistance {peers : List PeerId} :
    Asks NodeRequest.Inquiry (verifyPaidNodesDistance n peers address key) := by
  refine asks_bind (asks_request trivial) fun density => ?_
  rcases density with _ | _ | range
  · exact asks_pure
  · exact asks_pure
  · exact asks_reject

theorem inquiry_verifyTopology : Asks NodeRequest.Inquiry (verifyTopology n proof info key) := by
  refine asks_bind (asks_request trivial) fun closest => ?_
  cases closest with
  | error e => exact asks_throw
  | ok peers =>
    show Asks _ (if peers.length < peersToQuery then _ else _)
    by_cases hfew : peers.length < peersToQuery
    · rw [if_pos hfew]
      exact asks_pure
    · rw [if_neg hfew]
      exact asks_bind asks_fromExcept fun _ =>
        asks_bind inquiry_verifyPaidNodesDistance fun _ => asks_reject

theorem inquiry_verifyMerklePayment :
    Asks NodeRequest.Inquiry (verifyMerklePayment n proof address) := by
  exact asks_bind asks_reject fun _ => asks_bind inquiry_fetchPaymentInfo fun _ =>
    asks_call_bind trivial fun _ => asks_bind inquiry_verifyCostUnits fun _ => inquiry_verifyTopology

/-! ### Inquiries leave the records alone -/

theorem NodeRequest.Inquiry.quiet : ∀ q : NodeRequest, q.Inquiry → q.Quiet := by
  intro q h
  cases q with
  | getLocalRecord _ => exact h
  | putLocalRecord _ _ => exact h
  | _ => trivial

theorem quiet_orInvalidRecord {decoded : Option α} :
    Asks NodeRequest.Quiet (orInvalidRecord decoded key) := asks_fromExcept

theorem quiet_validateKeyAndExistence :
    Asks NodeRequest.Quiet (validateKeyAndExistence n address key) :=
  asks_mono NodeRequest.Inquiry.quiet inquiry_validateKeyAndExistence

theorem quiet_paymentForUs :
    Asks NodeRequest.Quiet (paymentForUsExistsAndIsStillValid n address dataType payment) :=
  asks_mono NodeRequest.Inquiry.quiet inquiry_paymentForUs

theorem quiet_unlessExists {alreadyExists : Bool} :
    Asks NodeRequest.Quiet (unlessExists alreadyExists paymentRes) :=
  asks_mono NodeRequest.Inquiry.quiet inquiry_unlessExists

theorem quiet_verifyMerklePayment : Asks NodeRequest.Quiet (verifyMerklePayment n proof address) :=
  asks_mono NodeRequest.Inquiry.quiet inquiry_verifyMerklePayment

theorem quiet_notifyFetchCompleted {validationType : ValidationType} :
    Asks NodeRequest.Quiet (notifyFetchCompleted key validationType) := asks_request trivial

end Autonomi
