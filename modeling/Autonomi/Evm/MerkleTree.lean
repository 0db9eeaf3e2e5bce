/-
Merkle branches of a batch payment and their verification.

A record is presented with two branches of the tree that was paid for: one from its own
address to the root, and one from the winning midpoint to the root.  The recomputation
itself is `ant_merkle`'s, in the standard way: `Lib.HashPath.recompute`, one layer per
level of a tree with the given number of leaves, no sibling for the last node of an odd
layer.
-/
import Autonomi.Lib.Checks
import Autonomi.Lib.HashPath
import Autonomi.Protocol.Crypto

namespace Autonomi

open Lib Lib.Checks

def merklePaymentExpiration : Nat := 7 * 24 * 60 * 60

/-- The loop of `tree_depth`: count the bits of `n`. A `usize` has at most 64 of them. -/
def treeDepthLoop : (fuel n depth : Nat) → Nat
  | 0, _, depth => depth
  | fuel + 1, n, depth => if n > 0 then treeDepthLoop fuel (n / 2) (depth + 1) else depth

def treeDepth (leafCount : Nat) : Nat :=
  if leafCount ≤ 1 then 0 else treeDepthLoop 64 (leafCount - 1) 0

def midpointProofDepth (depth : UInt8) : Nat := (depth.toNat + 1) / 2

def midpointLevel (depth : UInt8) : Nat := depth.toNat / 2

def expectedRewardPools (depth : UInt8) : Nat := 2 ^ midpointProofDepth depth

/-- The bytes `Sha3Hasher::concat_and_hash` hashes for a parent: one child, or two. -/
def concatBytes : Bytes32 × Option Bytes32 → Bytes
  | (left, some right) => left.toList ++ right.toList
  | (left, none) => left.toList

def concatAndHash (c : Crypto) (children : Bytes32 × Option Bytes32) : Bytes32 :=
  c.sha3_256 (concatBytes children)

structure MerkleBranch where
  /-- Sibling hashes from leaf or midpoint to root. -/
  proofHashes : List Bytes32
  leafIndex : UInt64
  /-- Number of nodes on the starting level, as the branch claims it. -/
  totalLeavesCount : UInt64
  /-- The address, or the midpoint hash, being proven. -/
  unsaltedLeafHash : XorName
  root : XorName
  /-- Salt of an address proof; `none` for midpoint proofs. -/
  salt : Option Bytes32
deriving DecidableEq

namespace MerkleBranch

def depth (b : MerkleBranch) : Nat := b.proofHashes.length

def saltedBytes (leaf salt : Bytes32) : Bytes := leaf.toList ++ salt.toList

/-- The node the climb starts from: the salted leaf, or the leaf itself without a salt. -/
def startHash (c : Crypto) (b : MerkleBranch) : Bytes32 :=
  match b.salt with
  | some salt => c.sha3_256 (saltedBytes b.unsaltedLeafHash salt)
  | none => b.unsaltedLeafHash

/-- `ant_merkle::MerkleProof::verify` on the branch's own root, index and leaf count. -/
def verify (c : Crypto) (b : MerkleBranch) : Bool :=
  HashPath.recompute (concatAndHash c) (treeDepth b.totalLeavesCount.toNat)
    b.totalLeavesCount.toNat b.leafIndex.toNat (b.startHash c) b.proofHashes = some b.root

end MerkleBranch

structure MidpointProof where
  branch : MerkleBranch
  merklePaymentTimestamp : UInt64
deriving DecidableEq

namespace MidpointProof

def root (m : MidpointProof) : XorName := m.branch.root

/-- What the candidate address of this pool is the hash of. -/
def addressBytes (m : MidpointProof) : Bytes :=
  m.branch.unsaltedLeafHash.toList ++ m.branch.root.toList
    ++ toLeBytes 8 m.merklePaymentTimestamp.toNat

/-- The candidate pool address: `hash(midpoint_hash || root || timestamp)`. -/
def address (c : Crypto) (m : MidpointProof) : XorName := c.fromContent m.addressBytes

/-- The fixed-width layout `hash` is taken of. -/
def hashBytes (m : MidpointProof) : Bytes :=
  blocks m.branch.proofHashes
    ++ (toLeBytes 8 m.branch.leafIndex.toNat
    ++ (toLeBytes 8 m.branch.totalLeavesCount.toNat
    ++ (m.branch.unsaltedLeafHash.toList
    ++ (m.branch.root.toList
    ++ (optionBytes Vector.toList m.branch.salt
    ++ toLeBytes 8 m.merklePaymentTimestamp.toNat)))))

def hash (c : Crypto) (m : MidpointProof) : Bytes32 := c.sha3_256 m.hashBytes

end MidpointProof

/-- Errors that can occur when verifying a Merkle proof for batch payments. -/
inductive BadMerkleProof
  | invalidAddressBranchProof
  | invalidWinnerBranchProof
  | addressProofDepthMismatch (expected got : Nat)
  | winnerProofDepthMismatch (expected got : Nat)
  | addressBranchRootMismatch (smartContractRoot branchRoot : XorName)
  | winnerBranchRootMismatch (smartContractRoot branchRoot : XorName)
  | timestampInFuture (paymentTimestamp currentTime : UInt64)
  | paymentExpired (paymentTimestamp currentTime ageSeconds : UInt64)
  | systemTimeError (message : String)
  | timestampMismatch (poolTimestamp contractTimestamp : UInt64)
  | addressHashNotBranchLeaf (leaf address : XorName)
deriving DecidableEq

/-- What the system clock says: seconds since the epoch, or an error before it. -/
abbrev SystemTime := Except String UInt64

/-- Not in the future, not expired, and the time the pool's quotes were made for. -/
def validatePaymentTimestamp (now : SystemTime) (paymentTimestamp poolTimestamp : UInt64) :
    Except BadMerkleProof Unit := do
  let currentTime ← now.mapError BadMerkleProof.systemTimeError
  reject (paymentTimestamp > currentTime) (.timestampInFuture paymentTimestamp currentTime)
  let age := currentTime - paymentTimestamp
  reject (age.toNat > merklePaymentExpiration) (.paymentExpired paymentTimestamp currentTime age)
  reject (poolTimestamp ≠ paymentTimestamp) (.timestampMismatch poolTimestamp paymentTimestamp)

/-- Verify an address proof against the payment data of the smart contract. -/
def verifyMerkleProof (c : Crypto) (now : SystemTime) (addressHash : XorName)
    (addressBranch : MerkleBranch) (winnerPoolMidpointProof : MidpointProof)
    (smartContractDepth : UInt8) (smartContractRoot : XorName) (smartContractTimestamp : UInt64) :
    Except BadMerkleProof Unit := do
  validatePaymentTimestamp now smartContractTimestamp
    winnerPoolMidpointProof.merklePaymentTimestamp
  reject (addressBranch.depth ≠ smartContractDepth.toNat)
    (.addressProofDepthMismatch smartContractDepth.toNat addressBranch.depth)
  reject (winnerPoolMidpointProof.branch.depth ≠ midpointProofDepth smartContractDepth)
    (.winnerProofDepthMismatch (midpointProofDepth smartContractDepth)
      winnerPoolMidpointProof.branch.depth)
  reject (addressBranch.verify c = false) .invalidAddressBranchProof
  reject (winnerPoolMidpointProof.branch.verify c = false) .invalidWinnerBranchProof
  reject (addressHash ≠ addressBranch.unsaltedLeafHash)
    (.addressHashNotBranchLeaf addressBranch.unsaltedLeafHash addressHash)
  reject (addressBranch.root ≠ smartContractRoot)
    (.addressBranchRootMismatch smartContractRoot addressBranch.root)
  reject (winnerPoolMidpointProof.branch.root ≠ smartContractRoot)
    (.winnerBranchRootMismatch smartContractRoot winnerPoolMidpointProof.branch.root)

end Autonomi
