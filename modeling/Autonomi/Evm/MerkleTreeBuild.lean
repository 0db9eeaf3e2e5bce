/-
Building the tree a client pays for, and the branches it hands out.

The client salts each address, fills the layer up with random nodes to the next
power of two and builds the tree over it.  The nodes half way up are the midpoints;
each of them, with its branch, is a candidate for the reward.  What is random, the
salts and the padding, is a parameter: the draws in order.

The tree itself is `ant_merkle`'s, in the standard way: `Lib.HashTree`.
-/
import Autonomi.Evm.MerkleTree
import Autonomi.Lib.HashTree

namespace Autonomi

open Lib Lib.Checks

def maxMerkleDepth : Nat := 8

def minLeaves : Nat := 2

def maxLeaves : Nat := 1 <<< maxMerkleDepth

inductive MerkleTreeError
  | tooFewLeaves (got : Nat)
  | tooManyLeaves (got : Nat)
  | invalidLeafIndex (index leafCount : Nat)
  | invalidMidpointIndex (index midpointCount : Nat)
  | internal (message : String)
deriving DecidableEq

/-! ### The tree of `ant_merkle` -/

namespace AntMerkle

def root (c : Crypto) (leaves : List Bytes32) : Option Bytes32 :=
  (HashTree.layer (concatAndHash c) (treeDepth leaves.length) leaves).head?

def getNodesAtLevel (c : Crypto) (leaves : List Bytes32) (level : Nat) :
    Option (List (Nat × Bytes32)) :=
  if level ≤ treeDepth leaves.length then
    some ((HashTree.layer (concatAndHash c) level leaves).mapIdx fun index hash => (index, hash))
  else none

/-- `MerkleTree::proof_from_node`: the siblings on the way up from a node of some level -/
def proofFromNode (c : Crypto) (leaves : List Bytes32) (level index : Nat) :
    Option (List Bytes32) :=
  if level ≤ treeDepth leaves.length ∧
      index < (HashTree.layer (concatAndHash c) level leaves).length then
    some (HashTree.siblings (concatAndHash c) (treeDepth leaves.length - level)
      (HashTree.layer (concatAndHash c) level leaves) index)
  else none

/-- `MerkleTree::proof`, of one leaf -/
def proof (c : Crypto) (leaves : List Bytes32) (index : Nat) : List Bytes32 :=
  HashTree.siblings (concatAndHash c) (treeDepth leaves.length) leaves index

end AntMerkle

/-! ### The tree over a client's addresses -/

structure MerkleTree where
  /-- The leaves the underlying tree is built over: salted, and padded. -/
  inner : List Bytes32
  /-- Original leaf count, before padding. -/
  leafCount : Nat
  depth : UInt8
  root : XorName
  /-- One salt for each original leaf. -/
  salts : List Bytes32
deriving DecidableEq

/-- A node at the `depth / 2` layer of the tree. -/
structure MerkleMidpoint where
  hash : XorName
  index : Nat
deriving DecidableEq

namespace MerkleTree

variable (c : Crypto)

/-- `MerkleTree::from_xornames`, with the salts and dummy leaves that are drawn. -/
def fromXornames (salt dummy : Nat → Bytes32) (leaves : List XorName) :
    Except MerkleTreeError MerkleTree := do
  let leafCount := leaves.length
  reject (leafCount < minLeaves) (.tooFewLeaves leafCount)
  reject (leafCount > maxLeaves) (.tooManyLeaves leafCount)
  let salts := (List.range leafCount).map salt
  let depth := treeDepth leafCount
  let paddedSize := 2 ^ depth
  let saltedLeaves := (leaves.zip salts).map fun leaf =>
    c.sha3_256 (MerkleBranch.saltedBytes leaf.1 leaf.2)
  let inner := saltedLeaves ++ (List.range (paddedSize - leafCount)).map dummy
  let root ← okOr (AntMerkle.root c inner) (.internal "Tree must have root after construction")
  return { inner, leafCount, depth := UInt8.ofNat depth, root, salts }

def midpoints (tree : MerkleTree) : Except MerkleTreeError (List MerkleMidpoint) := do
  let nodes ← okOr (AntMerkle.getNodesAtLevel c tree.inner (midpointLevel tree.depth))
    (.internal "Midpoint level must exist")
  return nodes.map fun node => { hash := node.2, index := node.1 }

/-- A proof that a midpoint exists at the midpoint level; such proofs carry no salt. -/
def generateMidpointProof (tree : MerkleTree) (midpointIndex : Nat) (midpointHash : XorName) :
    Except MerkleTreeError MerkleBranch := do
  let midpointCount := expectedRewardPools tree.depth
  reject (midpointIndex ≥ midpointCount) (.invalidMidpointIndex midpointIndex midpointCount)
  let proofHashes ← okOr
    (AntMerkle.proofFromNode c tree.inner (midpointLevel tree.depth) midpointIndex)
    (.internal "Failed to generate midpoint proof")
  return {
    proofHashes
    leafIndex := UInt64.ofNat midpointIndex
    totalLeavesCount := UInt64.ofNat midpointCount
    unsaltedLeafHash := midpointHash
    root := tree.root
    salt := none }

/-- One candidate for each midpoint, with the proof that it belongs to the tree. -/
def rewardCandidates (tree : MerkleTree) (merklePaymentTimestamp : UInt64) :
    Except MerkleTreeError (List MidpointProof) := do
  let midpoints ← tree.midpoints c
  midpoints.mapM fun midpoint => do
    let branch ← tree.generateMidpointProof c midpoint.index midpoint.hash
    return { branch, merklePaymentTimestamp }

def generateAddressProof (tree : MerkleTree) (addressIndex : Nat) (addressHash : XorName) :
    Except MerkleTreeError MerkleBranch := do
  reject (addressIndex ≥ tree.leafCount) (.invalidLeafIndex addressIndex tree.leafCount)
  return {
    proofHashes := AntMerkle.proof c tree.inner addressIndex
    leafIndex := UInt64.ofNat addressIndex
    totalLeavesCount := UInt64.ofNat (2 ^ tree.depth.toNat)
    unsaltedLeafHash := addressHash
    root := tree.root
    -- The index is below the leaf count by now, so there is a salt.
    salt := tree.salts[addressIndex]? }

end MerkleTree

end Autonomi
