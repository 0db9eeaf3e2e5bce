/-
What a client asks of the network and of the chain, and how it gets records.

What the query reports, which peers are close and what each of them sends is left to the
environment: peers may send anything.  So is what the chain answers to a payment, what
is drawn at random, what is in a file, and the order in which concurrent tasks finish
and in which a hash map hands out its entries.
-/
import Autonomi.Client.EncryptionStream
import Autonomi.Evm.Retry
import Autonomi.Protocol.Record

namespace Autonomi.Client

open Lib

def closeGroupSize : Nat := 5

def closeGroupMajority : Nat := closeGroupSize / 2 + 1

def fallbackPeersCount : Nat := 20

def quotingCandidates : Nat := 10

def nClosestPeers : Nat := closeGroupSize + 2

/-- How many peers have to agree; `libp2p::kad::Quorum`. -/
inductive Quorum
  | one
  | majority
  | all
  | n (count : { count : Nat // 0 < count })
deriving DecidableEq

/-- `get_quorum_amount` -/
def Quorum.amount : Quorum → Nat
  | one => 1
  | majority => closeGroupMajority
  | all => closeGroupSize
  | n count => count.val

theorem Quorum.amount_pos (quorum : Quorum) : 0 < quorum.amount := by
  cases quorum with
  | one | majority | all => decide
  | n count => exact count.property

inductive RetryStrategy
  | none
  | once
  | quick
  | balanced
  | persistent
  | n (attempts : Nat)
deriving DecidableEq

def RetryStrategy.attempts : RetryStrategy → Nat
  | none => 1
  | once => 2
  | quick => 4
  | balanced => 6
  | persistent => 10
  | n attempts => attempts

/-- How often a loop over `backoff` runs: the number of attempts as `u32`. -/
def RetryStrategy.backoff (strategy : RetryStrategy) : Nat := strategy.attempts % 2 ^ 32

/-- The part of a strategy that gets and puts depend on. -/
structure Strategy where
  putQuorum : Quorum
  putRetry : RetryStrategy
  /-- How many peers have to agree that a record is there. -/
  verificationQuorum : Quorum
  getQuorum : Quorum
  getRetry : RetryStrategy

/-- The peers that sent a record, and what they sent; one entry for each peer. -/
abbrev Holders := List (PeerId × Record)

/-- What is wrong with a quote, by the address the peer gave. -/
inductive InvalidQuote
  | notAPeerId (peerAddress : NetworkAddress)
  | notSignedByClaimedPeer (peerAddress : NetworkAddress)
  | wrongDataType (peerAddress : NetworkAddress)
deriving DecidableEq

/-- The errors of the network layer that its callers tell apart. -/
inductive NetworkError
  | networkDriverOffline
  | networkDriverReceive
  | incompatibleNetworkProtocol
  | outdatedRecordRejected (counter expected : UInt64)
  | splitRecord (holders : Holders)
  | getRecordTimeout (peers : List PeerId)
  | getRecordQuorumFailed (gotHolders expectedHolders : Nat) (holders : Holders)
  | getQuoteError (message : String)
  | invalidQuote (reason : InvalidQuote)
  | insufficientQuotes (gotQuotes recordExistsResponses errorsLen : Nat)
  | invalidRetryStrategy
  | other (message : String)
deriving DecidableEq

namespace NetworkError

def isFatal : NetworkError → Bool
  | networkDriverOffline | networkDriverReceive | incompatibleNetworkProtocol => true
  | _ => false

def cannotRetry : NetworkError → Bool
  | outdatedRecordRejected _ _ => true
  | e => e.isFatal

end NetworkError

/-! ### The task handler -/

inductive KadEnd
  | finishedWithNoAdditionalRecord
  | notFound
  | quorumFailed
  | timeout
deriving DecidableEq

/-- The events of a Kademlia query: the records found, by peer where known, and the end. -/
structure KadQuery where
  found : List (Option PeerId × Record)
  finish : KadEnd
deriving DecidableEq

/-- `HashMap::insert`: a peer that answers again replaces its record. -/
def Holders.insert (holders : Holders) (peer : PeerId) (record : Record) : Holders :=
  (holders.filter fun holder => holder.1 ≠ peer) ++ [(peer, record)]

def getMaxContentHoldersCount (holders : Holders) : Option Nat :=
  (holders.map fun holder =>
    holders.countP fun other => other.2.value = holder.2.value).max?

def sendGetRecordResult (quorum : Quorum) (holders : Holders) :
    Except NetworkError (Option Record) :=
  if holders.length < quorum.amount then
    .error (.getRecordQuorumFailed holders.length quorum.amount holders)
  else
    match (holders.map Prod.snd).dedup with
    | [] => .ok none
    | [one] => .ok (some one)
    | _ => .error (.splitRecord holders)

/-- `update_get_record`, event after event. -/
def updateGetRecord (quorum : Quorum) (finish : KadEnd) :
    List (Option PeerId × Record) → Holders → Except NetworkError (Option Record)
  | [], holders =>
    match finish with
    | .finishedWithNoAdditionalRecord => sendGetRecordResult quorum holders
    | .notFound => .ok none
    | .quorumFailed => .ok none
    | .timeout => .error (.getRecordTimeout (holders.map Prod.fst))
  | (peer, record) :: events, holders =>
    let holders := match peer with
      | some peer => holders.insert peer record
      | none => holders
    -- enough holders with the same content finish the task
    if (getMaxContentHoldersCount holders).any fun count => quorum.amount ≤ count then
      sendGetRecordResult quorum holders
    else
      updateGetRecord quorum finish events holders

/-! ### What a client asks for -/

structure QuotePayment where
  quoteHash : QuoteHash
  rewardsAddress : RewardsAddress
  amount : Amount
deriving DecidableEq

/-- Who is allowed to take tokens out of a wallet: one of the two contracts. -/
inductive Spender
  | dataPayments
  | merklePayments
deriving DecidableEq

inductive ClientRequest
  /-- A Kademlia query. -/
  | getRecord (address : NetworkAddress) (quorum : Quorum)
  | getClosestPeers (address : NetworkAddress) (count : Nat)
  | getRecordFromPeer (address : NetworkAddress) (peer : PeerId)
  /-- The cached file of a chunk. -/
  | loadChunk (address : XorName)
  | storeChunk (address : XorName) (value : Bytes)
  | deleteChunk (address : XorName)
  /-- An order the code leaves open. -/
  | order (count : Nat)
  | getClosestPeersKadOnly (address : NetworkAddress) (count : Nat)
  | getQuote (address : NetworkAddress) (peer : PeerId) (dataType : UInt32) (dataSize : Nat)
  /-- Send a record to peers; the quorum says how many of them have to take it. -/
  | putRecord (record : Record) (targets : List PeerId) (quorum : Quorum)
  /-- The contract's prices for what nodes quoted. -/
  | getMarketPrice (metrics : List QuotingMetrics)
  | balanceOfTokens
  | tokenAllowance (spender : Spender)
  | approveToSpendTokens (spender : Spender) (amount : Amount)
  /-- The transaction that pays for a batch of quotes. -/
  | payForQuotes (payments : List QuotePayment)
  /-- The salts and the dummy leaves of a tree over these addresses. -/
  | drawSalts (leaves : List XorName)
  /-- Seconds since the epoch. -/
  | unixTime
  /-- Candidates for the reward at an address. -/
  | getMerkleCandidatePool (target : XorName) (dataType : DataTypes) (dataSize : Nat)
      (timestamp : UInt64)
  | estimateMerkleTreeCost (depth : UInt8) (commitments : List PoolCommitment)
      (timestamp : UInt64)
  /-- The transaction that pays for a tree. -/
  | payForMerkleTree (depth : UInt8) (commitments : List PoolCommitmentPacked)
      (timestamp : UInt64)
  /-- The event of a payment for a tree, from its block. -/
  | merklePaymentEvent (hash : Retry.TxHash)
  /-- Start encrypting the files of a directory. -/
  | encryptDirectoryFiles (path : String) (isPublic : Bool)
  /-- Draw 32 bytes at random. -/
  | random
deriving DecidableEq

inductive QuoteRefusal
  | recordExists
  | other (message : String)

/-- What a peer sends when asked for a quote, and the address it says it has. -/
structure QuoteResponse where
  quote : Except QuoteRefusal PaymentQuote
  peerAddress : NetworkAddress

inductive CandidatePoolError
  | network (error : NetworkError)
  | insufficientCandidates (got needed : Nat)

/-- How a write to a file went: the file is as it was, or holds the front of the value. -/
inductive WriteOutcome
  | written
  | failed
  | truncated (length : Nat)
deriving DecidableEq

/-- What each request is answered with; a driver that is gone answers with an error. -/
def ClientRequest.Response : ClientRequest → Type
  | getRecord _ _ => Except NetworkError KadQuery
  | getClosestPeers _ _ => Except NetworkError (List PeerId)
  | getRecordFromPeer _ _ => Except NetworkError (Option Record)
  -- nothing if there is no file or it cannot be read
  | loadChunk _ => Option Bytes
  | storeChunk _ _ => WriteOutcome
  -- whether the file could be removed, or was not there
  | deleteChunk _ => Bool
  | order count => Equiv.Perm (Fin count)
  | getClosestPeersKadOnly _ _ => Except NetworkError (List PeerId)
  | getQuote _ _ _ _ => Except NetworkError QuoteResponse
  | putRecord _ _ _ => Except NetworkError Unit
  | getMarketPrice _ => Except String (List Amount)
  | balanceOfTokens => Except String Amount
  | tokenAllowance _ => Except String Amount
  | approveToSpendTokens _ _ => Except String Retry.TxHash
  | payForQuotes _ => Except String (Retry.TxHash × Retry.GasInfo)
  | drawSalts _ => (Nat → Bytes32) × (Nat → Bytes32)
  | unixTime => Except String UInt64
  | getMerkleCandidatePool _ _ _ _ =>
    Except CandidatePoolError (Vector MerklePaymentCandidateNode candidatesPerPool)
  | estimateMerkleTreeCost _ _ _ => Except String Amount
  | payForMerkleTree _ _ _ => Except String (Retry.TxHash × Retry.GasInfo)
  -- the hash of the winner pool, and what was paid
  | merklePaymentEvent _ => Except String (PoolHash × Amount)
  -- in the order in which the files were opened; nothing if the directory cannot be read
  | encryptDirectoryFiles _ _ => Except String (List (Except String EncryptionStream))
  | random => Bytes32

abbrev ClientExchange := Exchange ClientRequest ClientRequest.Response

abbrev ClientM (ε α : Type) := Fallible ClientRequest ClientRequest.Response ε α

variable {ε α : Type}

section Requests

open Fallible (request)

variable (address : NetworkAddress)

def kadQuery (quorum : Quorum) :
    ClientM ε (Except NetworkError KadQuery) :=
  request (ClientRequest.getRecord address quorum)

def getClosestPeers (count : Nat) :
    ClientM ε (Except NetworkError (List PeerId)) :=
  request (ClientRequest.getClosestPeers address count)

def getRecordFromPeer (peer : PeerId) :
    ClientM ε (Except NetworkError (Option Record)) :=
  request (ClientRequest.getRecordFromPeer address peer)

def loadChunk (address : XorName) : ClientM ε (Option Bytes) :=
  request (ClientRequest.loadChunk address)

def storeChunk (address : XorName) (value : Bytes) : ClientM ε WriteOutcome :=
  request (ClientRequest.storeChunk address value)

def deleteChunk (address : XorName) : ClientM ε Bool :=
  request (ClientRequest.deleteChunk address)

def anyOrder (count : Nat) : ClientM ε (Equiv.Perm (Fin count)) :=
  request (ClientRequest.order count)

def getClosestPeersKadOnly (count : Nat) :
    ClientM ε (Except NetworkError (List PeerId)) :=
  request (ClientRequest.getClosestPeersKadOnly address count)

def askQuote (peer : PeerId) (dataType : UInt32) (dataSize : Nat) :
    ClientM ε (Except NetworkError QuoteResponse) :=
  request (ClientRequest.getQuote address peer dataType dataSize)

def putRecord (record : Record) (targets : List PeerId) (quorum : Quorum) :
    ClientM ε (Except NetworkError Unit) :=
  request (ClientRequest.putRecord record targets quorum)

def getMarketPrice (metrics : List QuotingMetrics) : ClientM ε (Except String (List Amount)) :=
  request (ClientRequest.getMarketPrice metrics)

def balanceOfTokens : ClientM ε (Except String Amount) :=
  request ClientRequest.balanceOfTokens

def tokenAllowance (spender : Spender) : ClientM ε (Except String Amount) :=
  request (ClientRequest.tokenAllowance spender)

def approveToSpendTokens (spender : Spender) (amount : Amount) :
    ClientM ε (Except String Retry.TxHash) :=
  request (ClientRequest.approveToSpendTokens spender amount)

def sendPayForQuotes (payments : List QuotePayment) :
    ClientM ε (Except String (Retry.TxHash × Retry.GasInfo)) :=
  request (ClientRequest.payForQuotes payments)

def drawSalts (leaves : List XorName) : ClientM ε ((Nat → Bytes32) × (Nat → Bytes32)) :=
  request (ClientRequest.drawSalts leaves)

def unixTime : ClientM ε (Except String UInt64) := request ClientRequest.unixTime

def getMerkleCandidatePool (target : XorName) (dataType : DataTypes) (dataSize : Nat)
    (timestamp : UInt64) : ClientM ε
      (Except CandidatePoolError (Vector MerklePaymentCandidateNode candidatesPerPool)) :=
  request (ClientRequest.getMerkleCandidatePool target dataType dataSize timestamp)

def estimateMerkleTreeCost (depth : UInt8) (commitments : List PoolCommitment)
    (timestamp : UInt64) : ClientM ε (Except String Amount) :=
  request (ClientRequest.estimateMerkleTreeCost depth commitments timestamp)

def sendPayForMerkleTree (depth : UInt8) (commitments : List PoolCommitmentPacked)
    (timestamp : UInt64) : ClientM ε (Except String (Retry.TxHash × Retry.GasInfo)) :=
  request (ClientRequest.payForMerkleTree depth commitments timestamp)

def merklePaymentEvent (hash : Retry.TxHash) : ClientM ε (Except String (PoolHash × Amount)) :=
  request (ClientRequest.merklePaymentEvent hash)

def encryptDirectoryFiles (path : String) (isPublic : Bool) :
    ClientM ε (Except String (List (Except String EncryptionStream))) :=
  request (ClientRequest.encryptDirectoryFiles path isPublic)

/-- `DerivationIndex::random`, and what encryption draws. -/
def random : ClientM ε Bytes32 := request ClientRequest.random

end Requests

open Lib.Fallible

def arrange (l : List α) (order : Equiv.Perm (Fin l.length)) : List α :=
  List.ofFn fun i => l.get (order i)

/-- The list in an order the code leaves open. -/
def inAnyOrder (l : List α) : ClientM ε (List α) := do
  let order ← anyOrder l.length
  return arrange l order

theorem arrange_perm (l : List α) (order : Equiv.Perm (Fin l.length)) :
    (arrange l order).Perm l := by
  have h := Equiv.Perm.ofFn_comp_perm order l.get
  rwa [List.ofFn_get] at h

variable {es : List ClientExchange}

theorem runs_inAnyOrder {l : List α} {r : Except ε (List α)} :
    Runs (inAnyOrder l) es r ↔
      ∃ order, es = [⟨.order l.length, order⟩] ∧ r = .ok (arrange l order) := by
  constructor
  · intro h
    obtain ⟨order, rest, rfl, hrest⟩ := runs_request_bind_iff.mp h
    obtain ⟨rfl, rfl⟩ := runs_pure.mp hrest
    exact ⟨order, rfl, rfl⟩
  · intro h
    obtain ⟨order, rfl, rfl⟩ := h
    exact runs_request_bind runs_return

theorem runs_inAnyOrder_bind_iff {β : Type} {l : List α} {f : List α → ClientM ε β}
    {r : Except ε β} :
    Runs (inAnyOrder l >>= f) es r ↔
      ∃ order rest, es = ⟨.order l.length, order⟩ :: rest ∧
        Runs (f (arrange l order)) rest r :=
  runs_request_bind_iff

theorem asks_inAnyOrder {P : ClientRequest → Prop} (h : ∀ n, P (.order n)) (l : List α) :
    Asks P (inAnyOrder l : ClientM ε (List α)) :=
  asks_bind (asks_request (h l.length)) fun _ => asks_pure

theorem returns_inAnyOrder {R : ClientExchange → Prop} {Q : List α → Prop} {l : List α}
    (h : ∀ m, m.Perm l → Q m) :
    Returns R Q (inAnyOrder l : ClientM ε (List α)) := by
  intro es r hrun _
  obtain ⟨order, -, rfl⟩ := runs_inAnyOrder.mp hrun
  exact ⟨_, rfl, h _ (arrange_perm l order)⟩

/-- How requests to the network are tried again, with so many attempts left. -/
def withRetries (action : ClientM NetworkError α) : Nat → ClientM NetworkError α
  | 0 => throw .invalidRetryStrategy
  | attempts + 1 => do
    match ← (attempt action : ClientM NetworkError (Except NetworkError α)) with
    | .ok result => return result
    | .error e => if e.cannotRetry ∨ attempts = 0 then throw e else withRetries action attempts

variable {action : ClientM NetworkError α}

theorem asks_withRetries {P : ClientRequest → Prop} (h : Asks P action) (attempts : Nat) :
    Asks P (withRetries action attempts) := by
  induction attempts with
  | zero => exact asks_throw
  | succ attempts ih =>
    refine asks_bind (asks_attempt h) ?_
    intro result
    cases result with
    | ok a => exact asks_pure
    | error e => exact asks_ite asks_throw ih

theorem runs_withRetries_ok {attempts : Nat} {a : α}
    (h : Runs (withRetries action attempts) es (.ok a)) :
    ∃ before last, es = before ++ last ∧ Runs action last (.ok a) := by
  induction attempts generalizing es with
  | zero =>
    obtain ⟨-, herror⟩ := runs_throw.mp h
    cases herror
  | succ attempts ih =>
    obtain ⟨first, second, result, rfl, hfirst, hrest⟩ := runs_attempt_bind_iff.mp h
    cases result with
    | ok b =>
      obtain ⟨rfl, hb⟩ := runs_pure.mp hrest
      rw [List.append_nil, Except.ok.inj hb]
      exact ⟨[], first, rfl, hfirst⟩
    | error e =>
      by_cases hgive : e.cannotRetry ∨ attempts = 0
      · simp only [if_pos hgive] at hrest
        obtain ⟨-, herror⟩ := runs_throw.mp hrest
        cases herror
      · simp only [if_neg hgive] at hrest
        obtain ⟨before, last, rfl, hlast⟩ := ih hrest
        exact ⟨first ++ before, last, (List.append_assoc first before last).symm, hlast⟩

theorem runs_withRetries_of_ok {attempts : Nat} {a : α} (hattempts : 0 < attempts)
    (h : Runs action es (.ok a)) : Runs (withRetries action attempts) es (.ok a) := by
  obtain ⟨rest, rfl⟩ := Nat.exists_eq_succ_of_ne_zero (Nat.ne_of_gt hattempts)
  exact runs_attempt_bind_iff.mpr ⟨es, [], .ok a, (List.append_nil es).symm, h, runs_return⟩

def getClosestPeersWithRetries (address : NetworkAddress) (count : Nat) :
    ClientM NetworkError (List PeerId) :=
  withRetries (do fromExcept (← getClosestPeers address count)) RetryStrategy.once.backoff

def putRecordWithRetries (record : Record) (targets : List PeerId) (strategy : Strategy) :
    ClientM NetworkError Unit :=
  withRetries (do fromExcept (← putRecord record targets strategy.putQuorum))
    strategy.putRetry.backoff

/-! ### Getting a record -/

def getRecord (address : NetworkAddress) (quorum : Quorum) :
    ClientM NetworkError (Option Record) := do
  let query ← fromExcept (← kadQuery address quorum)
  fromExcept (updateGetRecord quorum query.finish query.found [])

def queryPeers (address : NetworkAddress) :
    List PeerId → ClientM NetworkError (List (Except NetworkError (Option Record)))
  | [] => return []
  | peer :: peers => do
    let result ← getRecordFromPeer address peer
    let results ← queryPeers address peers
    return result :: results

def recordsAmong (results : List (Except NetworkError (Option Record))) : List Record :=
  results.filterMap fun
    | .ok (some record) => some record
    | _ => none

def fetchRecordsFromClosestPeersFallback (address : NetworkAddress) :
    ClientM NetworkError (Option (List Record)) := do
  match ← getClosestPeers address fallbackPeersCount with
  | .error _ => return none
  | .ok closestPeers =>
    let results ← inAnyOrder (← queryPeers address closestPeers)
    let records := recordsAmong results
    return if records.isEmpty then none else some records

/-- `get_record_with_retries`, with so many attempts left. -/
def getRecordAttempts (address : NetworkAddress) (quorum : Quorum) :
    Nat → ClientM NetworkError (Option (List Record))
  | 0 => fetchRecordsFromClosestPeersFallback address
  | attempts + 1 => do
    match ← attempt (getRecord address quorum) with
    | .ok (some record) => return some [record]
    -- a split is for the caller to resolve
    | .error (.splitRecord holders) => throw (.splitRecord holders)
    | .error e => if e.cannotRetry then throw e else getRecordAttempts address quorum attempts
    | .ok none => getRecordAttempts address quorum attempts

def getRecordWithRetries (address : NetworkAddress) (strategy : Strategy) :
    ClientM NetworkError (Option (List Record)) :=
  getRecordAttempts address strategy.getQuorum strategy.getRetry.backoff

end Autonomi.Client
