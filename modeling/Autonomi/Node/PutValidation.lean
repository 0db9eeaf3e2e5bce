/-
Validating records and putting them into the store.

`validateAndStoreRecord` handles a record from a client and `storeReplicatedInRecord`
one that was replicated by a neighbour.  Both end in one store function per data type,
which reads the local record, compares, and sends a `PutLocalRecord`; by then the store
may hold something else, because every validation runs as a task of its own.
-/
import Autonomi.Lib.BTreeSet
import Autonomi.Node.Network

namespace Autonomi

open Lib Lib.Fallible

/-! ### Requests, by their names in the source -/

section Requests

def isRecordKeyPresentLocally (key : RecordKey) :
    Validation (Except NetworkError (Option IndexEntry)) :=
  request (NodeRequest.isRecordKeyPresentLocally key)

def getLocalRecord (key : RecordKey) : Validation (Except NetworkError (Option Record)) :=
  request (NodeRequest.getLocalRecord key)

def putLocalRecord (record : Record) (isClientPut : Bool) : Validation Unit :=
  request (NodeRequest.putLocalRecord record isClientPut)

def notifyFetchCompleted (key : RecordKey) (validationType : ValidationType) : Validation Unit :=
  request (NodeRequest.notifyFetchCompleted key validationType)

def notifyPaymentReceived : Validation Unit := request NodeRequest.notifyPaymentReceived

def getKClosestLocalPeersToTheTarget (address : NetworkAddress) :
    Validation (Except NetworkError (List PeerId)) :=
  request (NodeRequest.getKClosestLocalPeers address)

def getNetworkDensity : Validation (Except NetworkError (Option Nat)) :=
  request NodeRequest.getNetworkDensity

def verifyPayment (payments : List (QuoteHash × QuotingMetrics × RewardsAddress)) :
    Validation (Except PaymentVaultError (Vector PaymentVerificationResult 3)) :=
  request (NodeRequest.verifyPayment payments)

def getMerklePaymentInfo (winnerPoolHash : PoolHash) :
    Validation (Except String MerklePaymentVault.PaymentInfo) :=
  request (NodeRequest.getMerklePaymentInfo winnerPoolHash)

def getMerklePaymentPackedCommitments (winnerPoolHash : PoolHash) (timestamp : UInt64) :
    Validation (Except VaultHandlerError (List PoolCommitmentPacked)) :=
  request (NodeRequest.getMerklePaymentPackedCommitments winnerPoolHash timestamp)

def getClosestPeersWithRetries (address : NetworkAddress) (count : Nat) :
    Validation (Except NetworkError (List PeerId)) :=
  request (NodeRequest.getClosestPeersWithRetries address count)

def systemTimeNow : Validation SystemTime := request NodeRequest.systemTimeNow

end Requests

def orLocalSwarmError {α : Type} (answer : Except NetworkError α) : Validation α :=
  fromExcept (answer.mapError fun _ => .localSwarmError)

def orInvalidRecord {α : Type} (decoded : Option α) (key : RecordKey) : Validation α :=
  fromExcept (Checks.okOr decoded (.invalidRecord key))

variable (n : Node)

/-- Check the key against the address, and whether anything is stored under it. -/
def validateKeyAndExistence (address : NetworkAddress) (expectedRecordKey : RecordKey) :
    Validation Bool := do
  let dataKey := address.toRecordKey n.crypto
  reject (expectedRecordKey ≠ dataKey) .recordKeyMismatch
  let presentLocally ← orLocalSwarmError (← isRecordKeyPresentLocally dataKey)
  return presentLocally.isSome

/-! ### Payments -/

/-- The amount paid for the owned quotes, if the contract finds every payment valid. -/
def verifyDataPayment (owned : List QuoteHash)
    (payment : List (QuoteHash × QuotingMetrics × RewardsAddress)) :
    Validation (Except PaymentVaultError Amount) := do
  let results ← verifyPayment payment
  return results.bind fun rs => tallyPayments owned rs.toList 0

/-- Payees outside our closest peers have to be within the network density. -/
def verifyPayeesInRange (address : NetworkAddress) (payees : List PeerId) : Validation Unit := do
  if payees = [] then
    return ()
  else
    match ← orLocalSwarmError (← getNetworkDensity) with
    | none => return ()
    | some networkDensity =>
      let outOfRange := payees.filter fun peer =>
        (NetworkAddress.peerId peer).distance n.crypto address > networkDensity
      reject (outOfRange ≠ [])
        (.paymentQuoteOutOfRange (address.toRecordKey n.crypto) outOfRange)

/-- The on-chain verification, with one retry. -/
def verifyOnChain (key : RecordKey) (owned : List QuoteHash)
    (payments : List (QuoteHash × QuotingMetrics × RewardsAddress)) : Validation Amount := do
  match ← verifyDataPayment owned payments with
  | .ok amount => return amount
  | .error _ =>
    let second ← verifyDataPayment owned payments
    fromExcept (second.mapError (.paymentVerificationFailed key))

/-- Whether a payment is one to us, for this data type, by known payees, and valid on chain. -/
def paymentForUsExistsAndIsStillValid (address : NetworkAddress) (dataType : DataTypes)
    (payment : ProofOfPayment) : Validation Unit := do
  let key := address.toRecordKey n.crypto
  reject (payment.verifyFor n.crypto n.rmpMetrics n.peerId = false) (.paymentNotMadeToOurNode key)
  let ownQuotes := payment.quotesByPeer n.crypto n.peerId
  reject (payment.verifyDataType dataType.getIndex = false) (.paymentMadeToIncorrectDataType key)
  let closestKPeers ← orLocalSwarmError (← getKClosestLocalPeersToTheTarget address)
  verifyPayeesInRange n address ((payment.payees n.crypto).filter fun p => p ∉ closestKPeers)
  let rewardAmount ← verifyOnChain key (ownQuotes.map (PaymentQuote.hash n.crypto n.rmpMetrics))
    (payment.digest n.crypto n.rmpMetrics)
  if rewardAmount ≠ 0 then
    notifyPaymentReceived

/-! ### The store functions -/

def storeChunk (chunk : Chunk) (isClientPut : Bool) : Validation Unit := do
  let key := (NetworkAddress.chunkAddress (chunk.name n.crypto)).toRecordKey n.crypto
  reject (chunk.size > Chunk.maxSize) (.oversizedChunk chunk.size Chunk.maxSize)
  putLocalRecord { key, value := .ofChunk chunk } isClientPut

/-- Signature and size, and then the put. -/
def storeNewScratchpad (scratchpad : Scratchpad) (isClientPut : Bool) : Validation Unit := do
  let scratchpadKey := scratchpad.networkAddress.toRecordKey n.crypto
  reject (scratchpad.verifySignature n.crypto = false) .invalidScratchpadSignature
  reject (scratchpad.isTooBig n.scratchpadStructSize = true)
    (.scratchpadTooBig (scratchpad.size n.scratchpadStructSize))
  putLocalRecord { key := scratchpadKey, value := .ofScratchpad scratchpad } isClientPut

def validateAndStoreScratchpadRecord (scratchpad : Scratchpad) (recordKey : RecordKey)
    (isClientPut : Bool) : Validation Unit := do
  let scratchpadKey := scratchpad.networkAddress.toRecordKey n.crypto
  reject (scratchpadKey ≠ recordKey) .recordKeyMismatch
  match ← orLocalSwarmError (← getLocalRecord scratchpadKey) with
  | none => storeNewScratchpad n scratchpad isClientPut
  | some localRecord =>
    let localPad ← orInvalidRecord localRecord.value.asScratchpad scratchpadKey
    if localPad = scratchpad then
      return ()
    else
      reject (localPad.counter ≥ scratchpad.counter)
        (.outdatedRecordCounter scratchpad.counter localPad.counter)
      storeNewScratchpad n scratchpad isClientPut

/-- The graph entries stored at an address; nothing stored is no entries. -/
def getLocalGraphentries (address : NetworkAddress) : Validation (List GraphEntry) := do
  let recordKey := address.toRecordKey n.crypto
  match ← orLocalSwarmError (← getLocalRecord recordKey) with
  | none => return []
  | some localRecord => orInvalidRecord localRecord.value.asGraphEntries recordKey

/-- The entries of a put that belong under the key and are signed, as an ordered set. -/
def validEntries (entries : List GraphEntry) (recordKey : RecordKey) : List GraphEntry :=
  BTreeSet.extend GraphEntry.le []
    ((entries.filter fun e => e.address.toRecordKey n.crypto = recordKey).filter
      fun e => e.verifySignature n.crypto)

/-- Add graph entries to those stored locally, if any of them is new. -/
def validateMergeAndStoreGraphentries (entries : List GraphEntry) (recordKey : RecordKey)
    (isClientPut : Bool) : Validation Unit := do
  let entriesForKey := entries.filter fun e => e.address.toRecordKey n.crypto = recordKey
  reject (entriesForKey = []) (.emptyGraphEntry recordKey)
  let validatedEntries := validEntries n entries recordKey
  match validatedEntries.head? with
  | none => return ()
  | some first =>
    let localEntries ← getLocalGraphentries n first.address
    let merged := BTreeSet.extend GraphEntry.le validatedEntries localEntries
    if localEntries.length = merged.length then
      return ()
    else
      putLocalRecord { key := recordKey, value := .ofGraphEntries merged } isClientPut

/-- The local pointer; anything else found under the key counts as none. -/
def getLocalPointer (address : NetworkAddress) : Validation (Option Pointer) := do
  match ← getLocalRecord (address.toRecordKey n.crypto) with
  | .error _ => return none
  | .ok none => return none
  | .ok (some localRecord) =>
    if localRecord.value.kind = some (.dataOnly .pointer) then
      return localRecord.value.asPointer
    else
      return none

/-- Keep the pointer with the highest counter. -/
def validateAndStorePointerRecord (pointer : Pointer) (key : RecordKey) (isClientPut : Bool) :
    Validation Unit := do
  reject (pointer.verifySignature n.crypto n.rmpTarget = false) .invalidPointerSignature
  reject (key ≠ pointer.address.toRecordKey n.crypto) .recordKeyMismatch
  match ← getLocalPointer n pointer.address with
  | none => putLocalRecord { key, value := .ofPointer pointer } isClientPut
  | some localPointer =>
    if pointer = localPointer then
      return ()
    else
      reject (pointer.counter ≤ localPointer.counter)
        (.outdatedRecordCounter pointer.counter localPointer.counter)
      putLocalRecord { key, value := .ofPointer pointer } isClientPut

end Autonomi
