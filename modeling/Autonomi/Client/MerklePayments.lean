/-
Paying for a whole tree of addresses at once.

The client builds a Merkle tree over up to 256 addresses, asks the network for a pool
of candidates at each of the tree's midpoints and sends the pools' commitments to the
contract, which picks the winner.  The proofs for the addresses are made from the tree
and the winner pool after the payment.  More addresses than fit in one tree are paid
tree by tree.
-/
import Autonomi.Client.Payment
import Autonomi.Evm.MerkleTreeBuild

namespace Autonomi

open Lib
open Fallible (attempt fromExcept mapError reject each)

/-! ### The wallet -/

namespace Wallet

open Client

/-- Attempts at reading the event of a payment. -/
def maxEventAttempts : Nat := 3

/-- `get_merkle_payment_event`, with so many attempts left after the one made now. -/
def getMerklePaymentEvent (hash : Retry.TxHash) : Nat → ClientM String (PoolHash × Amount)
  | 0 => do fromExcept (← merklePaymentEvent hash)
  | attempts + 1 => do
    match ← merklePaymentEvent hash with
    | .ok event => return event
    | .error _ => getMerklePaymentEvent hash attempts

/-- `Wallet::pay_for_merkle_tree`: the winner pool's hash, and what was paid. -/
def payForMerkleTree (wallet : Wallet) (depth : UInt8) (poolCommitments : List PoolCommitment)
    (timestamp : UInt64) : ClientM WalletError (PoolHash × Amount × Retry.GasInfo) := do
  reject (wallet.network.hasMerklePayments = false) .merklePaymentsAddressNotConfigured
  let packed ← fromExcept ((poolCommitments.mapM PoolCommitment.toPacked).mapError
    .costUnitOverflow)
  let estimatedCost ← fromExcept
    ((← estimateMerkleTreeCost depth poolCommitments timestamp).mapError
      .merklePaymentVaultContract)
  ensureTokens .merklePayments estimatedCost
  let (txHash, gasInfo) ← fromExcept ((← sendPayForMerkleTree depth packed timestamp).mapError
    .merklePaymentVaultContract)
  let (winnerPoolHash, amount) ← mapError .merklePaymentVaultContract
    (getMerklePaymentEvent txHash (maxEventAttempts - 1))
  return (winnerPoolHash, amount, gasInfo)

end Wallet

/-! ### The client -/

namespace Client

/-- The Merkle payment proofs for each address, and what is known of an upload so far. -/
structure MerklePaymentReceipt where
  proofs : AList fun _ : XorName => MerklePaymentProof
  /-- Chunk count for each file path. -/
  fileChunkCounts : AList fun _ : String => Nat
  amountPaid : Amount
  /-- Chunks that were found on the network. -/
  alreadyExisted : Finset XorName
  /-- Chunks that were uploaded in a previous batch. -/
  uploaded : Finset XorName

namespace MerklePaymentReceipt

/-- `MerklePaymentReceipt::default` -/
def empty : MerklePaymentReceipt := ⟨∅, ∅, 0, ∅, ∅⟩

def saturatingAdd (a b : Amount) : Amount :=
  if a.toNat + b.toNat < 2 ^ 256 then a + b else BitVec.allOnes 256

/-- Merge another receipt into this one; its entries replace those of the same key. -/
def merge (receipt other : MerklePaymentReceipt) : MerklePaymentReceipt where
  proofs := other.proofs ∪ receipt.proofs
  fileChunkCounts := other.fileChunkCounts ∪ receipt.fileChunkCounts
  amountPaid := saturatingAdd receipt.amountPaid other.amountPaid
  alreadyExisted := receipt.alreadyExisted ∪ other.alreadyExisted
  uploaded := receipt.uploaded ∪ other.uploaded

def addAlreadyExisted (receipt : MerklePaymentReceipt) (chunks : Finset XorName) :
    MerklePaymentReceipt :=
  { receipt with alreadyExisted := receipt.alreadyExisted ∪ chunks }

def addUploaded (receipt : MerklePaymentReceipt) (chunks : Finset XorName) :
    MerklePaymentReceipt :=
  { receipt with uploaded := receipt.uploaded ∪ chunks }

end MerklePaymentReceipt

inductive MerklePaymentError
  | network (error : NetworkError)
  | merkleTree (error : MerkleTreeError)
  | insufficientCandidates (got needed : Nat)
  | smartContract (message : String)
  | evmWalletNetworkMismatch
  | evmWalletError (error : WalletError)
  | timestampError (message : String)
  | poolVerification (error : MerklePaymentVerificationError)
deriving DecidableEq

def MerklePaymentError.ofPool : CandidatePoolError → MerklePaymentError
  | .network error => .network error
  | .insufficientCandidates got needed => .insufficientCandidates got needed

variable (client : Client)

def buildSingleCandidatePool (dataType : DataTypes) (dataSize : Nat)
    (midpointProof : MidpointProof) : ClientM MerklePaymentError MerklePaymentCandidatePool := do
  let timestamp := midpointProof.merklePaymentTimestamp
  let candidateNodes ← fromExcept
    ((← getMerkleCandidatePool (midpointProof.address client.crypto) dataType dataSize
      timestamp).mapError .ofPool)
  let pool : MerklePaymentCandidatePool := ⟨midpointProof, candidateNodes⟩
  fromExcept ((pool.verifySignatures client.crypto timestamp).mapError .poolVerification)
  return pool

/-- What a tree is built over: a single address is taken twice. -/
def paddedAddresses : List XorName → List XorName
  | [onlyOne] => [onlyOne, onlyOne]
  | addresses => addresses

/-- The tree, the candidate pools, their commitments and the time of payment. -/
def prepareMerkleBatch (dataType : DataTypes) (addresses : List XorName) (dataSize : Nat) :
    ClientM MerklePaymentError
      (MerkleTree × List MerklePaymentCandidatePool × List PoolCommitment × UInt64) := do
  let addresses := paddedAddresses addresses
  let (salt, dummy) ← drawSalts addresses
  let tree ← fromExcept ((MerkleTree.fromXornames client.crypto salt dummy addresses).mapError
    .merkleTree)
  let timestamp ← fromExcept ((← unixTime).mapError .timestampError)
  let midpointProofs ← fromExcept ((tree.rewardCandidates client.crypto timestamp).mapError
    .merkleTree)
  let candidatePools ← each (client.buildSingleCandidatePool dataType dataSize) midpointProofs
  return (tree, candidatePools, candidatePools.map (·.toCommitment client.crypto), timestamp)

/-- The proofs of the addresses, by their position in the tree. -/
def addressProofs (tree : MerkleTree) (winnerPool : MerklePaymentCandidatePool) :
    Nat → List XorName → Except MerkleTreeError (AList fun _ : XorName => MerklePaymentProof)
  | _, [] => .ok ∅
  | i, address :: addresses => do
    let dataProof ← tree.generateAddressProof client.crypto i address
    let proofs ← addressProofs tree winnerPool (i + 1) addresses
    -- of an address that comes twice, the later proof is kept
    return if address ∈ proofs then proofs
      else proofs.insert address ⟨address, dataProof, winnerPool⟩

def payForSingleMerkleBatch (dataType : DataTypes) (addresses : List XorName) (dataSize : Nat)
    (wallet : Wallet) : ClientM MerklePaymentError MerklePaymentReceipt := do
  let (tree, candidatePools, poolCommitments, timestamp) ←
    client.prepareMerkleBatch dataType addresses dataSize
  let (winnerPoolHash, amount, _) ← mapError .evmWalletError
    (wallet.payForMerkleTree tree.depth poolCommitments timestamp)
  let winnerPool ← fromExcept (Checks.okOr
    (candidatePools.find? fun pool => pool.hash client.crypto = winnerPoolHash)
    (.smartContract ("Smart contract returned invalid pool hash: "
      ++ hexEncode winnerPoolHash.toList)))
  let proofs ← fromExcept ((client.addressProofs tree winnerPool 0 addresses).mapError .merkleTree)
  return { MerklePaymentReceipt.empty with proofs, amountPaid := amount }

/-- The batches one after the other; a batch that fails takes the receipt with it. -/
def payForMerkleBatches (dataType : DataTypes) (dataSize : Nat) (wallet : Wallet) :
    List (List XorName) → MerklePaymentReceipt → ClientM MerklePaymentError MerklePaymentReceipt
  | [], mergedReceipt => return mergedReceipt
  | batch :: rest, mergedReceipt => do
    let receipt ← client.payForSingleMerkleBatch dataType batch dataSize wallet
    payForMerkleBatches dataType dataSize wallet rest (mergedReceipt.merge receipt)

instance : NeZero maxLeaves := ⟨by decide⟩

def payForMerkleBatch (dataType : DataTypes) (contentAddrs : List XorName) (dataSize : Nat)
    (wallet : Wallet) : ClientM MerklePaymentError MerklePaymentReceipt := do
  reject (wallet.network ≠ client.evmNetwork) .evmWalletNetworkMismatch
  client.payForMerkleBatches dataType dataSize wallet (batches maxLeaves contentAddrs) .empty

end Client

end Autonomi
