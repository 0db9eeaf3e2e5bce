/-
Reading a payment's commitments back from the chain.

To compare cost units a node has to recover the commitments themselves, and it does so
from calldata: it finds the payment's event by pool hash, fetches the transaction the
event came from and decodes that transaction's input as a `payForMerkleTree2` call.

A transaction can reach the contract directly or through other contracts, any number of
times, and its input is whatever its sender wrote.  A history is therefore a list of
transactions that carry both: the input, and the contract calls made while it ran.
Running a history gives the contract's storage and its log.
-/
import Autonomi.Evm.MerklePaymentVault

namespace Autonomi

open Lib Lib.Checks MerklePaymentVault

inductive VaultCall
  | payForMerkleTree (depth : UInt8) (poolCommitments : List MetricsCommitment) (ts : UInt64)
  | payForMerkleTree2 (depth : UInt8) (poolCommitments : List PoolCommitmentPacked) (ts : UInt64)
deriving DecidableEq

namespace VaultCall

def execute (c : Crypto) (ln : Int → Option Int) (env : Env) (s : State) :
    VaultCall → Except Revert (State × MerklePaymentMade)
  | payForMerkleTree depth pools ts => MerklePaymentVault.payForMerkleTree c ln env s depth pools ts
  | payForMerkleTree2 depth pools ts =>
    MerklePaymentVault.payForMerkleTree2 c ln env s depth pools ts

/-- The packed commitments a call was made with, if it was made with any. -/
def packedCommitments : VaultCall → Option (List PoolCommitmentPacked)
  | payForMerkleTree _ _ _ => none
  | payForMerkleTree2 _ pools _ => some pools

end VaultCall

structure Transaction where
  hash : Bytes32
  blockNumber : Nat
  /-- The calldata of the transaction itself. -/
  input : Bytes
  /-- The calls into the contract made while it ran, in order, each with what it saw. -/
  calls : List (Env × VaultCall)

/-- An event of the contract, where it was emitted, and the call that emitted it. -/
structure Log where
  event : MerklePaymentMade
  transactionHash : Option Bytes32
  blockNumber : Nat
  call : VaultCall
deriving DecidableEq

/-- A call either goes through and logs its event, or reverts and leaves no trace. -/
def runCall (c : Crypto) (ln : Int → Option Int) (tx : Transaction) (acc : State × List Log)
    (call : Env × VaultCall) : State × List Log :=
  match call.2.execute c ln call.1 acc.1 with
  | .ok (s, event) =>
    (s, acc.2 ++ [{ event, transactionHash := some tx.hash, blockNumber := tx.blockNumber
                    call := call.2 }])
  | .error _ => acc

def runTransaction (c : Crypto) (ln : Int → Option Int) (acc : State × List Log)
    (tx : Transaction) : State × List Log :=
  tx.calls.foldl (runCall c ln tx) acc

def runHistory (c : Crypto) (ln : Int → Option Int) (txs : List Transaction) :
    State × List Log :=
  txs.foldl (runTransaction c ln) (State.init, [])

/-- A chain: its transactions, no two under one hash, and the number of its last block. -/
structure Chain where
  transactions : List Transaction
  currentBlock : Nat
  hashes_nodup : (transactions.map Transaction.hash).Nodup

def Chain.logs (chain : Chain) (c : Crypto) (ln : Int → Option Int) : List Log :=
  (runHistory c ln chain.transactions).2

/-! ### The handler -/

structure Provider where
  getBlockNumber : Except String Nat
  /-- `MerklePaymentMade` events with the given pool hash in a range of blocks. -/
  merklePaymentMade : PoolHash → (fromBlock toBlock : Nat) → Except String (List Log)
  getTransactionByHash : Bytes32 → Except String (Option Transaction)

/-- A provider that answers every question, and truthfully. -/
def Chain.provider (chain : Chain) (c : Crypto) (ln : Int → Option Int) : Provider where
  getBlockNumber := .ok chain.currentBlock
  merklePaymentMade poolHash fromBlock toBlock :=
    .ok ((chain.logs c ln).filter fun log =>
      log.event.winnerPoolHash = poolHash ∧ fromBlock ≤ log.blockNumber ∧ log.blockNumber ≤ toBlock)
  getTransactionByHash hash := .ok (chain.transactions.find? fun tx => tx.hash = hash)

/-- `Error::Rpc` -/
inductive VaultHandlerError
  | rpc (message : String)
deriving DecidableEq

def u64Max : Nat := 2 ^ 64 - 1
def arbitrumBlocksPerSecond : Nat := 4
def lookbackPaddingSecs : Nat := 3600
def minLookbackBlocks : Nat := 200000
def maxLookbackBlocks : Nat := 2500000
def lookbackMarginDivisor : Nat := 5

/-- How many blocks back a payment of this age can lie; `u64` arithmetic saturates. -/
def lookback (nowUnix merklePaymentTimestamp : Nat) : Nat :=
  let ageSecs := nowUnix - merklePaymentTimestamp
  let rawBlocks := min (ageSecs * arbitrumBlocksPerSecond) u64Max
  let buffered := min (min (rawBlocks + rawBlocks / lookbackMarginDivisor) u64Max
    + min (lookbackPaddingSecs * arbitrumBlocksPerSecond) u64Max) u64Max
  max minLookbackBlocks (min buffered maxLookbackBlocks)

/-- The packed pool commitments of a payment, from its transaction's calldata. -/
def getPaymentPackedCommitments
    (abiDecode : Bytes → Except String (UInt8 × List PoolCommitmentPacked × UInt64))
    (provider : Provider) (nowUnix : Nat) (winnerPoolHash : PoolHash)
    (merklePaymentTimestamp : UInt64) : Except VaultHandlerError (List PoolCommitmentPacked) := do
  let poolHashHex := hexEncode winnerPoolHash.toList
  let currentBlock ← provider.getBlockNumber.mapError fun e =>
    .rpc s!"Failed to get current block number: {e}"
  let fromBlock := currentBlock - lookback nowUnix merklePaymentTimestamp.toNat
  let events ← (provider.merklePaymentMade winnerPoolHash fromBlock currentBlock).mapError fun e =>
    .rpc s!"Failed to query MerklePaymentMade events for pool hash {poolHashHex}: {e}"
  let log ← okOr events.head?
    (.rpc s!"No MerklePaymentMade event found for pool hash {poolHashHex}")
  let txHash ← okOr log.transactionHash
    (.rpc "MerklePaymentMade event log has no transaction hash")
  let txHashHex := "0x" ++ hexEncode txHash.toList
  let found ← (provider.getTransactionByHash txHash).mapError fun e =>
    .rpc s!"Failed to get transaction {txHashHex}: {e}"
  let tx ← okOr found (.rpc s!"Transaction {txHashHex} not found")
  let decoded ← (abiDecode tx.input).mapError fun e =>
    .rpc s!"Failed to decode payForMerkleTree2 calldata: {e}"
  return decoded.2.1

end Autonomi
