/-
Candidate pools and Merkle payment proofs.

Sixteen candidate nodes sign their metrics, reward address and the payment's
timestamp; with the midpoint branch they form a pool, and the pool's hash is the
key the contract records a payment under.  `MerklePaymentProof.verify` is what a
node runs on a proof against the contract's record: signatures, the pool hash, the
two branches, and the paid candidates.
-/
import Autonomi.Evm.MerkleBatchPayment
import Autonomi.Evm.MerkleTree

namespace Autonomi

open Lib Lib.Checks

inductive MerklePaymentVerificationError
  | winnerPoolHashMismatch (expected got : PoolHash)
  | merkleProofFailed (e : BadMerkleProof)
  | wrongPaidAddressCount (expected got : Nat)
  | invalidNodeSignature (address : RewardsAddress)
  | timestampMismatch (address : RewardsAddress) (expected got : UInt64)
  | commitmentDoesNotMatchPool
  | paidNodeIndexOutOfBounds (index poolSize : Nat)
  | paidAddressMismatch (index : Nat) (expected actual : RewardsAddress)
  | invalidNodePeerId (index : Nat) (address : RewardsAddress)
  | dataTypeMismatch (address : RewardsAddress) (expected got : UInt32)
  | dataSizeMismatch (address : RewardsAddress) (expected got : UInt64)
  | costUnitMismatch (index : Nat) (onChainPacked expectedPacked : String)
  | winnerPoolNotInCommitments
  | costUnitOverflow (e : CostUnitOverflow)
deriving DecidableEq

structure MerklePaymentCandidateNode where
  pubKey : Bytes
  quotingMetrics : QuotingMetrics
  rewardAddress : RewardsAddress
  merklePaymentTimestamp : UInt64
  signature : Bytes
deriving DecidableEq

namespace MerklePaymentCandidateNode

def bytesToSign (quotingMetrics : QuotingMetrics) (rewardAddress : RewardsAddress)
    (timestamp : UInt64) : Bytes :=
  quotingMetrics.toBytes ++ rewardAddress.toList ++ toLeBytes 8 timestamp.toNat

def toBytes (n : MerklePaymentCandidateNode) : Bytes :=
  n.pubKey ++ n.quotingMetrics.toBytes ++ n.rewardAddress.toList
    ++ toLeBytes 8 n.merklePaymentTimestamp.toNat ++ n.signature

def peerId (c : Crypto) (n : MerklePaymentCandidateNode) : Option PeerId :=
  (c.tryDecodeProtobuf n.pubKey).map c.toPeerId

def verifySignature (c : Crypto) (n : MerklePaymentCandidateNode) : Bool :=
  match c.tryDecodeProtobuf n.pubKey with
  | none => false
  | some pubKey =>
    c.nodeVerify pubKey
      (bytesToSign n.quotingMetrics n.rewardAddress n.merklePaymentTimestamp) n.signature

end MerklePaymentCandidateNode

/-- One candidate pool: a midpoint proof and the nodes that quoted for it. -/
structure MerklePaymentCandidatePool where
  midpointProof : MidpointProof
  candidateNodes : Vector MerklePaymentCandidateNode candidatesPerPool
deriving DecidableEq

namespace MerklePaymentCandidatePool

variable (c : Crypto)

variable (pool : MerklePaymentCandidatePool)

def hashBytes : Bytes :=
  (pool.midpointProof.hash c).toList
    ++ (toLeBytes 4 candidatesPerPool
    ++ (pool.candidateNodes.toList.map MerklePaymentCandidateNode.toBytes).flatten)

def hash : PoolHash :=
  c.sha3_256 (pool.hashBytes c)

def toCommitment : PoolCommitment where
  poolHash := pool.hash c
  candidates := pool.candidateNodes.map fun node =>
    { rewardsAddress := node.rewardAddress, metrics := node.quotingMetrics }

def toCommitmentPacked :
    Except CostUnitOverflow PoolCommitmentPacked :=
  (pool.toCommitment c).toPacked

def verifyCostUnitAt (onChain : CandidateNodePacked) (signed : MerklePaymentCandidateNode)
    (index : Nat) : Except MerklePaymentVerificationError Unit := do
  let expectedPacked ← signed.quotingMetrics.packed.mapError
    MerklePaymentVerificationError.costUnitOverflow
  reject (onChain.dataTypeAndTotalCostUnit ≠ expectedPacked)
    (.costUnitMismatch index (toString onChain.dataTypeAndTotalCostUnit.toNat)
      (toString expectedPacked.toNat))

/--
Verify that on-chain cost units match what the signed metrics produce.  The winner
is looked up among the commitments by its hash, and the first match is taken.
-/
def verifyCostUnits
    (onChainCommitments : List PoolCommitmentPacked) (winnerPoolHash : PoolHash) :
    Except MerklePaymentVerificationError Unit := do
  let onChainWinner ← okOr (onChainCommitments.find? fun pc => pc.poolHash = winnerPoolHash)
    .winnerPoolNotInCommitments
  ((onChainWinner.candidates.toList.zip pool.candidateNodes.toList).zipIdx).forM fun entry =>
    verifyCostUnitAt entry.1.1 entry.1.2 entry.2

/-- All signatures, then all timestamps, then one data type and size for the whole pool. -/
def verifySignatures (merklePaymentTimestamp : UInt64) :
    Except MerklePaymentVerificationError Unit := do
  pool.candidateNodes.toList.forM fun node =>
    reject (node.verifySignature c = false) (.invalidNodeSignature node.rewardAddress)
  pool.candidateNodes.toList.forM fun node =>
    reject (node.merklePaymentTimestamp ≠ merklePaymentTimestamp)
      (.timestampMismatch node.rewardAddress merklePaymentTimestamp node.merklePaymentTimestamp)
  let first := pool.candidateNodes[0].quotingMetrics
  pool.candidateNodes.toList.forM fun node => do
    reject (node.quotingMetrics.dataType ≠ first.dataType)
      (.dataTypeMismatch node.rewardAddress first.dataType node.quotingMetrics.dataType)
    reject (node.quotingMetrics.dataSize ≠ first.dataSize)
      (.dataSizeMismatch node.rewardAddress first.dataSize node.quotingMetrics.dataSize)

end MerklePaymentCandidatePool

/-- Data package sent from client to node for storage and payment verification. -/
structure MerklePaymentProof where
  address : XorName
  dataProof : MerkleBranch
  winnerPool : MerklePaymentCandidatePool
deriving DecidableEq

namespace MerklePaymentProof

def winnerPoolHash (c : Crypto) (proof : MerklePaymentProof) : PoolHash := proof.winnerPool.hash c

/-- The peer at a paid index, if the reward address there is the one that was paid. -/
def paidPeerId (c : Crypto) (proof : MerklePaymentProof) (paid : RewardsAddress × Nat) :
    Except MerklePaymentVerificationError PeerId := do
  let node ← okOr proof.winnerPool.candidateNodes[paid.2]?
    (.paidNodeIndexOutOfBounds paid.2 candidatesPerPool)
  reject (node.rewardAddress ≠ paid.1) (.paidAddressMismatch paid.2 paid.1 node.rewardAddress)
  okOr (node.peerId c) (.invalidNodePeerId paid.2 node.rewardAddress)

def correspondingPeerIds (c : Crypto) (proof : MerklePaymentProof)
    (paidNodes : List (RewardsAddress × Nat)) :
    Except MerklePaymentVerificationError (List PeerId) :=
  paidNodes.mapM (proof.paidPeerId c)

/-- Verify the payment proof against the payment info of the smart contract. -/
def verify (c : Crypto) (now : SystemTime) (proof : MerklePaymentProof)
    (smartContractDepth : UInt8) (smartContractTimestamp : UInt64)
    (smartContractPoolHash : PoolHash) (smartContractPaidNodes : List (RewardsAddress × Nat)) :
    Except MerklePaymentVerificationError Unit := do
  proof.winnerPool.verifySignatures c smartContractTimestamp
  reject (proof.winnerPool.hash c ≠ smartContractPoolHash)
    (.winnerPoolHashMismatch smartContractPoolHash (proof.winnerPool.hash c))
  let smartContractRoot := proof.winnerPool.midpointProof.root
  (verifyMerkleProof c now proof.address proof.dataProof proof.winnerPool.midpointProof
    smartContractDepth smartContractRoot smartContractTimestamp).mapError .merkleProofFailed
  reject (smartContractPaidNodes.length ≠ smartContractDepth.toNat)
    (.wrongPaidAddressCount smartContractDepth.toNat smartContractPaidNodes.length)
  let _ ← proof.correspondingPeerIds c smartContractPaidNodes

end MerklePaymentProof

/-! ### A sample payment

A tree of two salted addresses, the pool of its first midpoint and sixteen
candidates that quote for a scratchpad, over `Crypto.simple`.
-/

namespace Sample

def addresses : List XorName := [bytes32 1001, bytes32 1002]

def salts : List Bytes32 := [bytes32 2001, bytes32 2002]

def leaf (i : Nat) : Bytes32 :=
  Crypto.simple.sha3_256
    (MerkleBranch.saltedBytes (addresses.getD i (bytes32 0)) (salts.getD i (bytes32 0)))

def root : XorName := concatAndHash Crypto.simple (leaf 0, some (leaf 1))

def addressBranch (i : Nat) : MerkleBranch where
  proofHashes := [leaf (1 - i)]
  leafIndex := UInt64.ofNat i
  totalLeavesCount := 2
  unsaltedLeafHash := addresses.getD i (bytes32 0)
  root := root
  salt := salts[i]?

/-- The branch of one salted leaf taken as a node of its own, without a salt. -/
def nodeBranch (i : Nat) : MerkleBranch :=
  { addressBranch i with unsaltedLeafHash := leaf i, salt := none }

def timestamp : UInt64 := 1700000000

def metrics (dataType : UInt32) : QuotingMetrics where
  dataType := dataType
  dataSize := 1024
  closeRecordsStored := 5
  recordsPerType := []
  maxRecords := 16384
  receivedPaymentCount := 0
  liveTime := 24
  networkDensity := none
  networkSize := none

def candidate (dataType : UInt32) : MerklePaymentCandidateNode where
  pubKey := [7]
  quotingMetrics := metrics dataType
  rewardAddress := Vector.replicate 20 9
  merklePaymentTimestamp := timestamp
  signature := [7]

def pool (dataType : UInt32) : MerklePaymentCandidatePool where
  midpointProof := { branch := nodeBranch 0, merklePaymentTimestamp := timestamp }
  candidateNodes := Vector.replicate candidatesPerPool (candidate dataType)

def proof (dataType : UInt32) (branch : MerkleBranch) : MerklePaymentProof where
  address := branch.unsaltedLeafHash
  dataProof := branch
  winnerPool := pool dataType

/-- The one candidate a payment at depth 1 pays. -/
def paidNodes : List (RewardsAddress × Nat) := [(Vector.replicate 20 9, 15)]

end Sample

end Autonomi
