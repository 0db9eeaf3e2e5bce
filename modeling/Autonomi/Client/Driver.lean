/-
The tasks a client's driver has under way, and the events that end them.

Every task the driver is given starts a Kademlia query or a request to a peer, and is
kept in the handler under the number `libp2p` gave it, in a map for tasks of its kind.
The handler has ten such maps beside the one of `Client.TaskHandler`; here they are one
family of maps, `pending`, indexed by the names they have in the source.

`sent` has every answer in order, also those nobody was listening for any more.
-/
import Autonomi.Client.Quotes
import Autonomi.Client.TaskHandler
import Autonomi.Protocol.PeerSelection

namespace Autonomi.Client

open Lib

/-- The number of a request; requests and queries are counted apart. -/
abbrev OutboundRequestId := Nat

inductive TaskId
  | query (id : QueryId)
  | request (id : OutboundRequestId)
deriving DecidableEq

/-! ### Answers of the network -/

inductive PutRefusal
  | outdatedRecordCounter (counter expected : UInt64)
  | topologyVerificationFailed (targetAddress : NetworkAddress)
      (validCount totalPaid closestCount : Nat) (nodePeers paidPeers : List PeerId)
  | other (message : String)

/-- The hash of a chunk with a nonce. -/
abbrev ChunkProof := Bytes32

abbrev StorageProofs := List (NetworkAddress × Except String ChunkProof)

structure DevClosestPeers where
  target : NetworkAddress
  queriedNode : NetworkAddress
  peers : PeersList

/-- What a peer responds; errors it reports are kept by their text where that is all that is
used of them. -/
inductive QueryResponse
  | getStoreQuote (quote : QuoteResponse) (storageProofs : StorageProofs)
  | getMerkleCandidateQuote (result : Except String MerklePaymentCandidateNode)
  | putRecord (result : Except PutRefusal Unit)
  | getVersion (version : String)
  | getReplicatedRecord (result : Except String (NetworkAddress × RecordValue))
  | getClosestPeers (peers : PeersList)
  | devGetClosestPeersFromNetwork (response : DevClosestPeers)
  | other

inductive GetClosestPeersError
  | timeout

inductive PutRecordKadError
  | quorumFailed (success : List PeerId) (quorum : Nat)
  | timeout (success : List PeerId)

inductive QueryResult (R : Type)
  | getClosestPeers (result : Except GetClosestPeersError (List PeerInfo))
  | getRecord (event : GetRecordEvent R)
  | putRecord (result : Except PutRecordKadError Unit)
  | other

/-! ### Tasks -/

/-- A task, with what the handler keeps of it. -/
inductive NetworkTask
  | getClosestPeers
  | getRecord (quorum : Quorum)
  | putRecordKad
  | putRecordReq (target : PeerInfo)
  | getQuote (dataType : UInt32) (peer : PeerInfo)
  | getVersion
  | getRecordFromPeer
  | getStorageProofsFromPeer
  | getClosestPeersFromPeer
  | getMerkleCandidateQuote
  | devGetClosestPeersFromNetwork

inductive TaskError
  | network (error : NetworkError)
  | getClosestPeersTimeout
  | putRecordQuorumFailed (success : List PeerId) (quorum : Nat)
  | putRecordTimeout (success : List PeerId)
  | putRecordRejected (message : String)
  | topologyVerificationFailed (rejectingNode : PeerId) (targetAddress : NetworkAddress)
      (validCount totalPaid closestCount : Nat) (nodePeers paidPeers : List PeerId)
  | getVersionError (message : String)

inductive TaskAnswer
  | closestPeers (result : Except TaskError (List PeerInfo))
  | putRecord (result : Except TaskError Unit)
  | quote (result : Except TaskError (Option (PeerInfo × PaymentQuote)))
  | version (result : Except TaskError String)
  | recordFromPeer (result : Except TaskError (Option Record))
  | storageProofs (result : Except TaskError (Option PaymentQuote × StorageProofs))
  | closestPeersFromPeer (result : Except TaskError PeersList)
  | merkleCandidateQuote (result : Except TaskError MerklePaymentCandidateNode)
  | devClosestPeers (result : Except TaskError DevClosestPeers)

/-- The maps of the handler, but for `get_record` and its accumulator. -/
inductive PendingKind
  | closestPeers
  | putRecordKad
  | putRecordReq
  | getCost
  | getVersion
  | getRecordFromPeer
  | getStorageProofsFromPeer
  | getClosestPeersFromPeer
  | getMerkleCandidateQuote
  | devGetClosestPeersFromNetwork
deriving DecidableEq

namespace PendingKind

/-- What is stored beside the channel to the caller. -/
def Stored : PendingKind → Type
  | putRecordReq => PeerInfo
  | getCost => UInt32 × PeerInfo
  | _ => Unit

/-- Two of the maps are for queries, the others for requests. -/
def taskId : PendingKind → Nat → TaskId
  | closestPeers, id => .query id
  | putRecordKad, id => .query id
  | _, id => .request id

end PendingKind

structure PendingTasks (R : Type) where
  pending : (kind : PendingKind) → Table Nat kind.Stored
  records : TaskHandler R
  /-- What callers have been sent, but for those of record queries. -/
  sent : List (TaskId × TaskAnswer)

namespace PendingTasks

variable {R V : Type} [DecidableEq R] [DecidableEq V] (value : R → V) (client : Client)

-- `developer` is the feature of that name, and `listens` tells which callers are still there.
variable (developer : Bool) (listens : TaskId → Bool)

def new : PendingTasks R := ⟨fun _ => ∅, ⟨∅, ∅, []⟩, []⟩

variable (s : PendingTasks R)

def contains (id : QueryId) : Bool :=
  decide (id ∈ s.pending .closestPeers) || decide (id ∈ s.records.getRecord)
    || decide (id ∈ s.pending .putRecordKad)

variable (id : OutboundRequestId)

def containsQuery : Bool :=
  let base := decide (id ∈ s.pending .getCost)
    || decide (id ∈ s.pending .putRecordReq)
    || decide (id ∈ s.pending .getVersion)
    || decide (id ∈ s.pending .getRecordFromPeer)
    || decide (id ∈ s.pending .getStorageProofsFromPeer)
    || decide (id ∈ s.pending .getClosestPeersFromPeer)
    || decide (id ∈ s.pending .getMerkleCandidateQuote)
  base || (developer && decide (id ∈ s.pending .devGetClosestPeersFromNetwork))

def insert (kind : PendingKind) (id : Nat) (stored : kind.Stored) : PendingTasks R :=
  { s with pending := Function.update s.pending kind ((s.pending kind).insert id stored) }

/-- Tasks that start no query are passed over. -/
def insertTask (id : QueryId) : NetworkTask → PendingTasks R
  | .getClosestPeers => s.insert .closestPeers id ()
  | .getRecord quorum => { s with records := s.records.insertTask id quorum }
  | .putRecordKad => s.insert .putRecordKad id ()
  | _ => s

/-- Tasks that start no request are passed over; one of them exists for developers only. -/
def insertQuery : NetworkTask → PendingTasks R
  | .getQuote dataType peer => s.insert .getCost id (dataType, peer)
  | .putRecordReq target => s.insert .putRecordReq id target
  | .getVersion => s.insert .getVersion id ()
  | .getRecordFromPeer => s.insert .getRecordFromPeer id ()
  | .getStorageProofsFromPeer => s.insert .getStorageProofsFromPeer id ()
  | .getClosestPeersFromPeer => s.insert .getClosestPeersFromPeer id ()
  | .getMerkleCandidateQuote => s.insert .getMerkleCandidateQuote id ()
  | .devGetClosestPeersFromNetwork =>
    if developer then s.insert .devGetClosestPeersFromNetwork id () else s
  | _ => s

/-! ### Updates -/

/-- Take a task out of its map and answer it: what all updates do. -/
def answer (kind : PendingKind) (id : Nat) (result : kind.Stored → TaskAnswer) :
    PendingTasks R × Except TaskHandlerError Unit :=
  match (s.pending kind).lookup id with
  | none => (s, .error (.unknownQuery id))
  | some stored =>
    ({ s with
        pending := Function.update s.pending kind ((s.pending kind).erase id)
        sent := s.sent ++ [(kind.taskId id, result stored)] },
      if listens (kind.taskId id) then .ok () else .error (.networkClientDropped id))

def updateClosestPeers (id : QueryId) (res : Except GetClosestPeersError (List PeerInfo)) :
    PendingTasks R × Except TaskHandlerError Unit :=
  s.answer listens .closestPeers id fun _ =>
    .closestPeers (res.mapError fun _ => .getClosestPeersTimeout)

def updatePutRecordKad (id : QueryId) (res : Except PutRecordKadError Unit) :
    PendingTasks R × Except TaskHandlerError Unit :=
  s.answer listens .putRecordKad id fun _ => .putRecord (res.mapError fun
    | .quorumFailed success quorum => .putRecordQuorumFailed success quorum
    | .timeout success => .putRecordTimeout success)

def updatePutRecordReq (result : Except PutRefusal Unit) :
    PendingTasks R × Except TaskHandlerError Unit :=
  s.answer listens .putRecordReq id fun (peerInfo : PeerInfo) => .putRecord (result.mapError fun
    | .outdatedRecordCounter counter expected =>
      .network (.outdatedRecordRejected counter expected)
    | .topologyVerificationFailed target validCount totalPaid closestCount nodePeers paidPeers =>
      .topologyVerificationFailed peerInfo.peerId target validCount totalPaid closestCount
        nodePeers paidPeers
    | .other message => .putRecordRejected message)

def updateGetQuote (response : QuoteResponse) :
    PendingTasks R × Except TaskHandlerError Unit :=
  s.answer listens .getCost id fun (stored : UInt32 × PeerInfo) =>
    .quote (((client.verifyQuote response stored.1).map fun quote =>
      quote.map fun quote => (stored.2, quote)).mapError .network)

def updateGetVersion (version : String) :
    PendingTasks R × Except TaskHandlerError Unit :=
  s.answer listens .getVersion id fun _ => .version (.ok version)

/-- The record is filed under the address of its holder; an error is no record. -/
def updateGetRecordFromPeer
    (result : Except String (NetworkAddress × RecordValue)) :
    PendingTasks R × Except TaskHandlerError Unit :=
  s.answer listens .getRecordFromPeer id fun _ => .recordFromPeer (.ok
    (result.toOption.map fun found => ⟨found.1.toRecordKey client.crypto, found.2⟩))

def updateGetStorageProofsFromPeer (quote : Option PaymentQuote)
    (storageProofs : StorageProofs) : PendingTasks R × Except TaskHandlerError Unit :=
  s.answer listens .getStorageProofsFromPeer id fun _ => .storageProofs (.ok (quote, storageProofs))

def updateGetClosestPeersFromPeer (peers : PeersList) :
    PendingTasks R × Except TaskHandlerError Unit :=
  s.answer listens .getClosestPeersFromPeer id fun _ => .closestPeersFromPeer (.ok peers)

def updateGetMerkleCandidateQuote
    (result : Except String MerklePaymentCandidateNode) :
    PendingTasks R × Except TaskHandlerError Unit :=
  s.answer listens .getMerkleCandidateQuote id fun _ =>
    .merkleCandidateQuote (result.mapError fun e => .network (.getQuoteError e))

def updateDevGetClosestPeersFromNetwork (response : DevClosestPeers) :
    PendingTasks R × Except TaskHandlerError Unit :=
  s.answer listens .devGetClosestPeersFromNetwork id fun _ => .devClosestPeers (.ok response)

/-- `terminate_query`: the maps are tried in this order. -/
def terminateQuery (error : String) :
    PendingTasks R × Except TaskHandlerError Unit :=
  if id ∈ s.pending .getCost then
    s.answer listens .getCost id fun _ => .quote (.error (.network (.getQuoteError error)))
  else if id ∈ s.pending .putRecordReq then
    -- nodes too old for the request are told by the text of the error
    s.answer listens .putRecordReq id fun _ => .putRecord (.error
      (if "Small(1)".toList <:+: error.toList then .network .incompatibleNetworkProtocol
        else .putRecordRejected error))
  else if id ∈ s.pending .getRecordFromPeer then
    s.answer listens .getRecordFromPeer id fun _ => .recordFromPeer (.ok none)
  else if id ∈ s.pending .getStorageProofsFromPeer then
    s.answer listens .getStorageProofsFromPeer id fun _ => .storageProofs (.ok (none, []))
  else if id ∈ s.pending .getClosestPeersFromPeer then
    s.answer listens .getClosestPeersFromPeer id fun _ => .closestPeersFromPeer (.ok [])
  else if id ∈ s.pending .getMerkleCandidateQuote then
    s.answer listens .getMerkleCandidateQuote id fun _ =>
      .merkleCandidateQuote (.error (.network (.getQuoteError error)))
  else if id ∈ s.pending .getVersion then
    s.answer listens .getVersion id fun _ => .version (.error (.getVersionError error))
  else (s, .ok ())

/-! ### Events -/

def handleKadProgressEvent (id : QueryId) (result : QueryResult R) : PendingTasks R :=
  if s.contains id then
    match result with
    | .getClosestPeers res => (s.updateClosestPeers listens id res).1
    -- the answers of record queries are all kept too
    | .getRecord res =>
      { s with records := (s.records.updateGetRecord value (fun _ => true) id res).1 }
    | .putRecord res => (s.updatePutRecordKad listens id res).1
    | .other => s
  else s

def unsupportedProtocols : String :=
  "The remote supports none of the requested protocols"

def handleRequestRespEvent (requestId : OutboundRequestId) (response : QueryResponse) :
    PendingTasks R :=
  if s.containsQuery developer requestId then
    match response with
    | .getStoreQuote quote storageProofs =>
      let updated := s.updateGetQuote client listens requestId quote
      -- whatever went wrong, it may be a request for proofs
      match updated.2 with
      | .ok _ => updated.1
      | .error _ =>
        (updated.1.updateGetStorageProofsFromPeer listens requestId quote.quote.toOption
          storageProofs).1
    | .getMerkleCandidateQuote result =>
      (s.updateGetMerkleCandidateQuote listens requestId result).1
    | .putRecord result => (s.updatePutRecordReq listens requestId result).1
    | .getVersion version => (s.updateGetVersion listens requestId version).1
    | .getReplicatedRecord result => (s.updateGetRecordFromPeer client listens requestId result).1
    | .getClosestPeers peers => (s.updateGetClosestPeersFromPeer listens requestId peers).1
    | .devGetClosestPeersFromNetwork response =>
      if developer then (s.updateDevGetClosestPeersFromNetwork listens requestId response).1
      else (s.terminateQuery listens requestId unsupportedProtocols).1
    | .other => (s.terminateQuery listens requestId unsupportedProtocols).1
  else s

def handleRequestRespOutboundFailure (requestId : OutboundRequestId) (error : String) :
    PendingTasks R :=
  if s.containsQuery developer requestId then (s.terminateQuery listens requestId error).1 else s

end PendingTasks

/-! ### The driver -/

/-- The driver, with the numbers given to queries and requests so far. -/
structure NetworkDriver (R : Type) where
  pendingTasks : PendingTasks R
  handedOut : List TaskId

inductive DriverEvent (R : Type)
  | insertTask (id : QueryId) (task : NetworkTask)
  | insertQuery (id : OutboundRequestId) (task : NetworkTask)
  | queryProgressed (id : QueryId) (result : QueryResult R)
  | response (id : OutboundRequestId) (response : QueryResponse)
  | outboundFailure (id : OutboundRequestId) (error : String)

namespace NetworkDriver

variable {R V : Type} [DecidableEq R] [DecidableEq V] (value : R → V) (client : Client)
  (developer : Bool) (listens : TaskId → Bool)

def new : NetworkDriver R := ⟨.new, []⟩

/-- One task or event; `libp2p` gives every query and every request a number of its own. -/
def step (d : NetworkDriver R) : DriverEvent R → Option (NetworkDriver R)
  | .insertTask id task =>
    if .query id ∈ d.handedOut then none
    else some ⟨d.pendingTasks.insertTask id task, .query id :: d.handedOut⟩
  | .insertQuery id task =>
    if .request id ∈ d.handedOut then none
    else some ⟨d.pendingTasks.insertQuery developer id task, .request id :: d.handedOut⟩
  | .queryProgressed id result =>
    some { d with pendingTasks := d.pendingTasks.handleKadProgressEvent value listens id result }
  | .response id response =>
    some { d with pendingTasks :=
      d.pendingTasks.handleRequestRespEvent client developer listens id response }
  | .outboundFailure id error =>
    some { d with pendingTasks :=
      d.pendingTasks.handleRequestRespOutboundFailure developer listens id error }

end NetworkDriver

end Autonomi.Client
