/-
Quotes and proofs of payment.

A client that wants to store something collects quotes from the nodes close to its
address and pays for them on chain.  A quote names the content it is for, and is
signed with it; a proof of payment is the list of quotes with the peers they came
from.  A node presented with a proof checks that it is among the payees, that every
quote is signed by the peer it is listed under, and that the quotes are for the
right data type.
-/
import Autonomi.Evm.QuotingMetrics
import Autonomi.Protocol.Crypto

namespace Autonomi

open Lib

abbrev QuoteHash := Bytes32

abbrev Amount := U256

/-- A payment quote to store data, given by a node to a client. -/
structure PaymentQuote where
  /-- The content paid for. -/
  content : XorName
  /-- Seconds since the epoch at which the quote was made. -/
  timestamp : UInt64
  quotingMetrics : QuotingMetrics
  rewardsAddress : RewardsAddress
  pubKey : Bytes
  signature : Bytes
deriving DecidableEq

namespace PaymentQuote

/-- What is signed: the content, the time, the metrics and the wallet. -/
def bytesForSig (rmpMetrics : QuotingMetrics → Bytes) (q : PaymentQuote) : Bytes :=
  q.content.toList ++ toLeBytes 8 q.timestamp.toNat ++ rmpMetrics q.quotingMetrics
    ++ q.rewardsAddress.toList

def hash (c : Crypto) (rmpMetrics : QuotingMetrics → Bytes) (q : PaymentQuote) : QuoteHash :=
  c.keccak256 (q.bytesForSig rmpMetrics ++ q.pubKey ++ q.signature)

def peerId (c : Crypto) (q : PaymentQuote) : Option PeerId :=
  (c.tryDecodeProtobuf q.pubKey).map c.toPeerId

def checkIsSignedByClaimedPeer (c : Crypto) (rmpMetrics : QuotingMetrics → Bytes)
    (q : PaymentQuote) (claimedPeer : PeerId) : Bool :=
  match c.tryDecodeProtobuf q.pubKey with
  | none => false
  | some pubKey =>
    if c.toPeerId pubKey ≠ claimedPeer then false
    else c.nodeVerify pubKey (q.bytesForSig rmpMetrics) q.signature

end PaymentQuote

/-- The proof of a data payment: encoded peer ids and their quotes. -/
structure ProofOfPayment where
  peerQuotes : List (Bytes × PaymentQuote)
deriving DecidableEq

namespace ProofOfPayment

variable (c : Crypto)

variable (rmpMetrics : QuotingMetrics → Bytes)

def digest (p : ProofOfPayment) :
    List (QuoteHash × QuotingMetrics × RewardsAddress) :=
  p.peerQuotes.map fun pq => (pq.2.hash c rmpMetrics, pq.2.quotingMetrics, pq.2.rewardsAddress)

def payees (p : ProofOfPayment) : List PeerId :=
  p.peerQuotes.filterMap fun pq => c.peerIdFromBytes pq.1

def quotesByPeer (p : ProofOfPayment) (peer : PeerId) : List PaymentQuote :=
  p.peerQuotes.filterMap fun pq => if pq.2.peerId c = some peer then some pq.2 else none

def quoteSigned (pq : Bytes × PaymentQuote) : Bool :=
  match c.peerIdFromBytes pq.1 with
  | none => false
  | some peer => pq.2.checkIsSignedByClaimedPeer c rmpMetrics peer

/-- The peer is among the payees, and every quote is signed by its claimed peer. -/
def verifyFor (p : ProofOfPayment) (peer : PeerId) : Bool :=
  decide (peer ∈ p.payees c) && p.peerQuotes.all (quoteSigned c rmpMetrics)

def verifyDataType (p : ProofOfPayment) (dataType : UInt32) : Bool :=
  p.peerQuotes.all fun pq => pq.2.quotingMetrics.dataType = dataType

end ProofOfPayment

/-! ### Verification on chain -/

structure PaymentVerificationResult where
  quoteHash : QuoteHash
  amountPaid : Amount
  isValid : Bool
deriving DecidableEq

inductive PaymentVaultError
  | paymentInvalid
  /-- The call itself failed. -/
  | contract (message : String)
deriving DecidableEq

/-- Sum up what was paid for the owned quotes; one invalid payment fails them all. -/
def tallyPayments (owned : List QuoteHash) :
    List PaymentVerificationResult → Amount → Except PaymentVaultError Amount
  | [], amount => .ok amount
  | result :: rest, amount =>
    if result.isValid = false then .error .paymentInvalid
    else tallyPayments owned rest
      (if result.quoteHash ∈ owned then amount + result.amountPaid else amount)

end Autonomi
