/-
The two entry points for records: from a client, and from replication.

A client's put is dispatched on the kind in its header.  Chunks and graph entries
have to come with a payment; scratchpads and pointers may come without one as
updates of what is stored already.  Each branch is a definition of its own, named
after the kind it handles.
-/
import Autonomi.Node.MerkleValidation

namespace Autonomi

open Lib Lib.Fallible

variable (n : Node)

variable (record : Record)

/-- The validation type a non-chunk record is announced under. -/
def contentValidationType : ValidationType :=
  .nonChunk (record.value.contentHash n.crypto n.serialize)

/-- A failed payment is let pass when something is stored under the key already. -/
def unlessExists (alreadyExists : Bool) (paymentRes : Except PutValidationError Unit) :
    Validation Unit :=
  match paymentRes with
  | .ok _ => return ()
  | .error err => reject (alreadyExists = false) err

/-! ### Client puts -/

def putPaidChunk : Validation Unit := do
  let (payment, chunk) ← orInvalidRecord (record.value.paidAs Item.asChunk) record.key
  let address := NetworkAddress.chunkAddress (chunk.name n.crypto)
  let alreadyExists ← validateKeyAndExistence n address record.key
  let paymentRes ← attempt (paymentForUsExistsAndIsStillValid n address .chunk payment)
  if alreadyExists = true then
    notifyFetchCompleted record.key .chunk
  else
    fromExcept paymentRes
    storeThenNotify (storeChunk n chunk true) record.key .chunk

def putPaidScratchpad : Validation Unit := do
  let (payment, scratchpad) ← orInvalidRecord (record.value.paidAs Item.asScratchpad) record.key
  let _alreadyExists ← validateKeyAndExistence n scratchpad.networkAddress record.key
  paymentForUsExistsAndIsStillValid n scratchpad.networkAddress .scratchpad payment
  let stored ← attempt (validateAndStoreScratchpadRecord n scratchpad record.key true)
  match stored with
  | .ok _ => notifyFetchCompleted record.key (contentValidationType n record)
  | .error (.outdatedRecordCounter _ _) =>
    notifyFetchCompleted record.key (contentValidationType n record)
  | .error _ => pure ()
  fromExcept stored

/-- `RecordKind::DataOnly(DataTypes::Scratchpad)`: an update of a scratchpad we hold. -/
def putScratchpad : Validation Unit := do
  let scratchpad ← orInvalidRecord record.value.asScratchpad record.key
  let alreadyExists ← validateKeyAndExistence n scratchpad.networkAddress record.key
  reject (alreadyExists = false) (.noPayment record.key)
  validateAndStoreScratchpadRecord n scratchpad record.key true

def putPaidGraphEntry : Validation Unit := do
  let (payment, graphEntry) ← orInvalidRecord (record.value.paidAs Item.asGraphEntry) record.key
  let key := graphEntry.address.toRecordKey n.crypto
  reject (record.key ≠ key) .recordKeyMismatch
  let alreadyExists ← validateKeyAndExistence n graphEntry.address key
  let paymentRes ←
    attempt (paymentForUsExistsAndIsStillValid n graphEntry.address .graphEntry payment)
  unlessExists alreadyExists paymentRes
  storeThenNotify (validateMergeAndStoreGraphentries n [graphEntry] key true) record.key
    (contentValidationType n record)

/-- `RecordKind::DataOnly(DataTypes::Pointer)`: an update of a pointer we hold. -/
def putPointer : Validation Unit := do
  let pointer ← orInvalidRecord record.value.asPointer record.key
  let alreadyExists ← validateKeyAndExistence n pointer.address record.key
  reject (alreadyExists = false) (.noPayment record.key)
  storeThenNotify (validateAndStorePointerRecord n pointer record.key true) record.key
    (contentValidationType n record)

def putPaidPointer : Validation Unit := do
  let (payment, pointer) ← orInvalidRecord (record.value.paidAs Item.asPointer) record.key
  let alreadyExists ← validateKeyAndExistence n pointer.address record.key
  let paymentRes ← attempt (paymentForUsExistsAndIsStillValid n pointer.address .pointer payment)
  unlessExists alreadyExists paymentRes
  storeThenNotify (validateAndStorePointerRecord n pointer record.key true) record.key
    (contentValidationType n record)

def validateAndStoreRecord : Validation Unit :=
  match record.value.kind with
  | none => throw .invalidRecordHeader
  | some (.dataWithPayment .chunk) => putPaidChunk n record
  | some (.dataOnly .chunk) => throw (.noPayment record.key)
  | some (.dataWithPayment .scratchpad) => putPaidScratchpad n record
  | some (.dataOnly .scratchpad) => putScratchpad n record
  | some (.dataOnly .graphEntry) => throw (.noPayment record.key)
  | some (.dataWithPayment .graphEntry) => putPaidGraphEntry n record
  | some (.dataOnly .pointer) => putPointer n record
  | some (.dataWithPayment .pointer) => putPaidPointer n record
  | some (.dataWithMerklePayment dataType) => validateAndStoreMerklePaymentRecord n record dataType

/-! ### Replicated records -/

def storeReplicatedChunk : Validation Unit := do
  let chunk ← orInvalidRecord record.value.asChunk record.key
  let address := NetworkAddress.chunkAddress (chunk.name n.crypto)
  if (← validateKeyAndExistence n address record.key) = true then
    return ()
  else
    storeChunk n chunk false

def storeReplicatedInRecord : Validation Unit :=
  match record.value.kind with
  | none => throw .invalidRecordHeader
  | some (.dataWithPayment _) => throw (.unexpectedRecordWithPayment record.key)
  | some (.dataWithMerklePayment _) => throw (.unexpectedRecordWithPayment record.key)
  | some (.dataOnly .chunk) => storeReplicatedChunk n record
  | some (.dataOnly .scratchpad) => do
    let scratchpad ← orInvalidRecord record.value.asScratchpad record.key
    validateAndStoreScratchpadRecord n scratchpad record.key false
  | some (.dataOnly .graphEntry) => do
    let graphEntries ← orInvalidRecord record.value.asGraphEntries record.key
    validateMergeAndStoreGraphentries n graphEntries record.key false
  | some (.dataOnly .pointer) => do
    let pointer ← orInvalidRecord record.value.asPointer record.key
    validateAndStorePointerRecord n pointer record.key false

end Autonomi
