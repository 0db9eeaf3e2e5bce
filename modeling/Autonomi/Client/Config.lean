/-
A client: its configuration, and what it takes from its dependencies.

The batch sizes are read from environment variables once; here they are fields like
the others.
-/
import Autonomi.Client.Network

namespace Autonomi

open Lib

/-- An EVM network, by which contracts it has and where it is reached. -/
inductive EvmNetwork
  | arbitrumOne
  | arbitrumSepoliaTest
  | custom (rpcUrlHttp : String) (paymentToken dataPayments : RewardsAddress)
      (merklePayments : Option RewardsAddress)
deriving DecidableEq

/-- `merkle_payments_address`, as far as there is one -/
def EvmNetwork.hasMerklePayments : EvmNetwork → Bool
  | arbitrumOne | arbitrumSepoliaTest => true
  | custom _ _ _ merklePayments => merklePayments.isSome

inductive PaymentMode
  /-- Pay three nodes. -/
  | standard
  /-- Pay the median priced node three times its quote. -/
  | singleNode
deriving DecidableEq

def maxTransfersPerTransaction : Nat := 256

structure Client where
  crypto : Crypto
  /-- `rmp_serde::to_vec` of a pointer target. -/
  rmpTarget : PointerTarget → Bytes
  /-- `rmp_serde::to_vec` of quoting metrics. -/
  rmpMetrics : QuotingMetrics → Bytes
  /-- `size_of::<Scratchpad>()` -/
  scratchpadStructSize : Nat
  /-- `size_of::<GraphEntry>()` -/
  graphEntryStructSize : Nat
  /-- `size_of::<Pointer>()` -/
  pointerStructSize : Nat
  chunks : Client.Strategy
  graphEntry : Client.Strategy
  pointer : Client.Strategy
  scratchpad : Client.Strategy
  chunkCacheEnabled : Bool
  /-- A cache directory is configured, or there is a default one. -/
  hasChunkCacheDir : Bool
  evmNetwork : EvmNetwork
  paymentMode : PaymentMode
  /-- How many times the total of chunks may be retried; `0` for the default. -/
  retryFailed : UInt64
  /-- `UPLOAD_FLOW_BATCH_SIZE` -/
  uploadFlowBatchSize : Nat
  /-- `CHUNK_UPLOAD_BATCH_SIZE` -/
  chunkUploadBatchSize : Nat

/-- `ClientOperatingStrategy::default`, and the defaults of the other fields. -/
def Client.withDefaults (crypto : Crypto) (rmpTarget : PointerTarget → Bytes)
    (rmpMetrics : QuotingMetrics → Bytes)
    (scratchpadStructSize graphEntryStructSize pointerStructSize : Nat) : Client where
  crypto
  rmpTarget
  rmpMetrics
  scratchpadStructSize
  graphEntryStructSize
  pointerStructSize
  chunks := ⟨.n ⟨2, by decide⟩, .balanced, .n ⟨2, by decide⟩, .one, .none⟩
  graphEntry := ⟨.majority, .balanced, .n ⟨2, by decide⟩, .n ⟨2, by decide⟩, .quick⟩
  pointer := ⟨.majority, .balanced, .n ⟨2, by decide⟩, .majority, .quick⟩
  scratchpad := ⟨.majority, .balanced, .n ⟨2, by decide⟩, .majority, .quick⟩
  chunkCacheEnabled := true
  hasChunkCacheDir := true
  evmNetwork := .arbitrumOne
  paymentMode := .singleNode
  retryFailed := 0
  uploadFlowBatchSize := maxTransfersPerTransaction / 3
  chunkUploadBatchSize := 1

def Client.sampleClient : Client := .withDefaults Crypto.simple (fun _ => []) (fun _ => []) 0 0 0

structure Wallet where
  network : EvmNetwork
deriving DecidableEq

end Autonomi
