/-
Records paid for as part of a Merkle batch.

The proof has to be for the record's own address; then the contract's record of the
payment is fetched, the proof is verified against it, the cost units the payer
submitted are compared with the signed ones, and the paid nodes have to be plausible
for the pool they were paid from.  What the record itself is, and of which type,
plays no part in the verification.
-/
import Autonomi.Node.PutValidation

namespace Autonomi

open Lib Lib.Fallible MerklePaymentVault

def peersToQuery : Nat := candidatesPerPool + candidatesPerPool / 4

/-- Maximum number of attempts when fetching calldata for the cost units. -/
def maxCostUnitFetchRetries : Nat := 3

variable (n : Node)

def merkleFailed {α : Type} (key : RecordKey) (failure : MerkleFailure) : Validation α :=
  throw (.merklePaymentVerificationFailed key failure)

def fetchPaymentInfo (key : RecordKey) (winnerPoolHash : PoolHash) : Validation PaymentInfo := do
  match ← getMerklePaymentInfo winnerPoolHash with
  | .ok info => return info
  | .error _ =>
    match ← getMerklePaymentInfo winnerPoolHash with
    | .ok info => return info
    | .error e => merkleFailed key (.paymentInfo winnerPoolHash e)

/-- The calldata fetch: up to `attempts` more times after a failure. -/
def fetchCommitments (winnerPoolHash : PoolHash) (timestamp : UInt64) :
    (attempts : Nat) → Validation (Except VaultHandlerError (List PoolCommitmentPacked))
  | 0 => getMerklePaymentPackedCommitments winnerPoolHash timestamp
  | attempts + 1 => do
    match ← getMerklePaymentPackedCommitments winnerPoolHash timestamp with
    | .ok commitments => return .ok commitments
    | .error _ => fetchCommitments winnerPoolHash timestamp attempts

/-- Fetch the calldata of the payment and compare its cost units with the signed metrics. -/
def verifyCostUnits (proof : MerklePaymentProof) (info : PaymentInfo) (winnerPoolHash : PoolHash)
    (key : RecordKey) : Validation Unit := do
  match ← fetchCommitments winnerPoolHash info.merklePaymentTimestamp
      (maxCostUnitFetchRetries - 1) with
  | .error e => merkleFailed key (.calldataFetch e)
  | .ok onChainCommitments =>
    fromExcept ((proof.winnerPool.verifyCostUnits onChainCommitments winnerPoolHash).mapError
      fun e => .merklePaymentVerificationFailed key (.costUnits e))

/-- All paid nodes are within ten times the responsible range, if that is known. -/
def verifyPaidNodesDistance (paidPeerIds : List PeerId) (targetAddress : NetworkAddress)
    (key : RecordKey) : Validation Unit := do
  match ← getNetworkDensity with
  | .error _ => return ()
  | .ok none => return ()
  | .ok (some distanceRange) =>
    let effectiveRange := min (distanceRange * 10) (2 ^ 256 - 1)
    let outside := (paidPeerIds.map fun peer =>
        (peer, (NetworkAddress.peerId peer).distance n.crypto targetAddress)).filter
      fun pd => pd.2 > effectiveRange
    reject (outside ≠ [])
      (.merklePaymentVerificationFailed key (.distance outside effectiveRange))

/-- More than half of the paid nodes are among the peers we see closest to the pool. -/
def verifyTopology (proof : MerklePaymentProof) (info : PaymentInfo) (key : RecordKey) :
    Validation Unit := do
  let midpointAddress := proof.winnerPool.midpointProof.address n.crypto
  let rewardPoolAddress := NetworkAddress.chunkAddress midpointAddress
  match ← getClosestPeersWithRetries rewardPoolAddress peersToQuery with
  | .error e => merkleFailed key (.closestPeers midpointAddress e)
  | .ok closestPeers =>
    -- With too few peers known, the payment is given the benefit of the doubt.
    if closestPeers.length < peersToQuery then
      return ()
    else
      let candidates := closestPeers.dedup
      let paidPeerIds ← fromExcept
        ((proof.correspondingPeerIds n.crypto info.paidNodeAddresses).mapError
          fun e => .merklePaymentVerificationFailed key (.paidPeerIds e))
      verifyPaidNodesDistance n paidPeerIds rewardPoolAddress key
      let legitimate := (paidPeerIds.filter fun p => p ∈ candidates).length
      reject (¬ legitimate > info.paidNodeAddresses.length / 2)
        (.topologyVerificationFailed rewardPoolAddress legitimate info.paidNodeAddresses.length
          candidates.length candidates paidPeerIds)

def verifyMerklePayment (proof : MerklePaymentProof) (targetAddress : NetworkAddress) :
    Validation Unit := do
  let key := targetAddress.toRecordKey n.crypto
  reject (proof.address.toList ≠ targetAddress.asBytes n.crypto)
    (.merklePaymentVerificationFailed key
      (.proofAddressMismatch proof.address.toList (targetAddress.asBytes n.crypto)))
  let winnerPoolHash := proof.winnerPoolHash n.crypto
  let info ← fetchPaymentInfo key winnerPoolHash
  let now ← systemTimeNow
  fromExcept ((proof.verify n.crypto now info.depth info.merklePaymentTimestamp winnerPoolHash
    info.paidNodeAddresses).mapError fun e => .merklePaymentVerificationFailed key (.merkleProof e))
  verifyCostUnits proof info winnerPoolHash key
  verifyTopology n proof info key

/-- Store, and if that went well mark the fetch as completed. -/
def storeThenNotify (store : Validation Unit) (key : RecordKey) (validationType : ValidationType) :
    Validation Unit := do
  store
  notifyFetchCompleted key validationType

def validateAndStoreMerklePaymentRecord (record : Record) (dataType : DataTypes) :
    Validation Unit := do
  let contentType := ValidationType.nonChunk (record.value.contentHash n.crypto n.serialize)
  match dataType with
  | .chunk =>
    let (proof, chunk) ← orInvalidRecord (record.value.merklePaidAs Item.asChunk) record.key
    let netAddr := NetworkAddress.chunkAddress (chunk.name n.crypto)
    if (← validateKeyAndExistence n netAddr record.key) = true then
      notifyFetchCompleted record.key .chunk
    else
      verifyMerklePayment n proof netAddr
      storeThenNotify (storeChunk n chunk true) record.key .chunk
  | .scratchpad =>
    let (proof, scratchpad) ←
      orInvalidRecord (record.value.merklePaidAs Item.asScratchpad) record.key
    verifyMerklePayment n proof scratchpad.networkAddress
    storeThenNotify (validateAndStoreScratchpadRecord n scratchpad record.key true)
      record.key contentType
  | .graphEntry =>
    let (proof, graphEntry) ←
      orInvalidRecord (record.value.merklePaidAs Item.asGraphEntry) record.key
    verifyMerklePayment n proof graphEntry.address
    storeThenNotify (validateMergeAndStoreGraphentries n [graphEntry] record.key true)
      record.key contentType
  | .pointer =>
    let (proof, pointer) ← orInvalidRecord (record.value.merklePaidAs Item.asPointer) record.key
    verifyMerklePayment n proof pointer.address
    storeThenNotify (validateAndStorePointerRecord n pointer record.key true)
      record.key contentType

end Autonomi
