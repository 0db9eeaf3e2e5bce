/-
What a validation asks of the rest of the node.

Validating a record is asynchronous: the swarm driver is asked for local records and
peers, the chain for payments, and stores and notifications are sent off without
waiting.  Each of these is a request, and a validation is a program over them; see
`Lib.Program`.
-/
import Autonomi.Evm.VaultHandler
import Autonomi.Lib.Program
import Autonomi.Protocol.Record

namespace Autonomi

open Lib

structure IndexEntry where
  address : NetworkAddress
  validationType : ValidationType
  dataType : DataTypes
deriving DecidableEq

abbrev NetworkError := String

inductive NodeRequest
  | isRecordKeyPresentLocally (key : RecordKey)
  | getLocalRecord (key : RecordKey)
  | putLocalRecord (record : Record) (isClientPut : Bool)
  | notifyFetchCompleted (key : RecordKey) (validationType : ValidationType)
  | notifyPaymentReceived
  | getKClosestLocalPeers (address : NetworkAddress)
  | getNetworkDensity
  | verifyPayment (payments : List (QuoteHash × QuotingMetrics × RewardsAddress))
  | getMerklePaymentInfo (winnerPoolHash : PoolHash)
  | getMerklePaymentPackedCommitments (winnerPoolHash : PoolHash) (timestamp : UInt64)
  | getClosestPeersWithRetries (address : NetworkAddress) (count : Nat)
  | systemTimeNow
deriving DecidableEq

def NodeRequest.Response : NodeRequest → Type
  | isRecordKeyPresentLocally _ => Except NetworkError (Option IndexEntry)
  | getLocalRecord _ => Except NetworkError (Option Record)
  | putLocalRecord _ _ => Unit
  | notifyFetchCompleted _ _ => Unit
  | notifyPaymentReceived => Unit
  | getKClosestLocalPeers _ => Except NetworkError (List PeerId)
  | getNetworkDensity => Except NetworkError (Option Nat)
  | verifyPayment _ => Except PaymentVaultError (Vector PaymentVerificationResult 3)
  | getMerklePaymentInfo _ => Except String MerklePaymentVault.PaymentInfo
  | getMerklePaymentPackedCommitments _ _ => Except VaultHandlerError (List PoolCommitmentPacked)
  | getClosestPeersWithRetries _ _ => Except NetworkError (List PeerId)
  | systemTimeNow => SystemTime

abbrev NodeExchange := Exchange NodeRequest NodeRequest.Response

/-- What a node is configured with, and what it takes from its dependencies. -/
structure Node where
  crypto : Crypto
  peerId : PeerId
  /-- `rmp_serde::to_vec` of a pointer target and of quoting metrics. -/
  rmpTarget : PointerTarget → Bytes
  rmpMetrics : QuotingMetrics → Bytes
  /-- A record's value as bytes. -/
  serialize : RecordValue → Bytes
  /-- `size_of::<Scratchpad>()` -/
  scratchpadStructSize : Nat

/-- Why the verification of a Merkle payment failed, in place of the message built from it. -/
inductive MerkleFailure
  | proofAddressMismatch (proofAddress target : Bytes)
  | paymentInfo (winnerPoolHash : PoolHash) (error : String)
  | merkleProof (error : MerklePaymentVerificationError)
  | calldataFetch (error : VaultHandlerError)
  | costUnits (error : MerklePaymentVerificationError)
  | closestPeers (midpoint : XorName) (error : NetworkError)
  | paidPeerIds (error : MerklePaymentVerificationError)
  | distance (outside : List (PeerId × Nat)) (effectiveRange : Nat)
deriving DecidableEq

inductive PutValidationError
  | localSwarmError
  | invalidRecordHeader
  | invalidRecord (key : RecordKey)
  | recordKeyMismatch
  | noPayment (key : RecordKey)
  | unexpectedRecordWithPayment (key : RecordKey)
  | paymentNotMadeToOurNode (key : RecordKey)
  | paymentMadeToIncorrectDataType (key : RecordKey)
  | paymentQuoteOutOfRange (key : RecordKey) (payees : List PeerId)
  | paymentVerificationFailed (key : RecordKey) (error : PaymentVaultError)
  | oversizedChunk (size max : Nat)
  | outdatedRecordCounter (counter expected : UInt64)
  | invalidScratchpadSignature
  | scratchpadTooBig (size : Nat)
  | emptyGraphEntry (key : RecordKey)
  | invalidPointerSignature
  | merklePaymentVerificationFailed (key : RecordKey) (error : MerkleFailure)
  | topologyVerificationFailed (target : NetworkAddress)
      (validCount totalPaid closestCount : Nat) (nodePeers paidPeers : List PeerId)
deriving DecidableEq

abbrev Validation := Fallible NodeRequest NodeRequest.Response PutValidationError

end Autonomi
