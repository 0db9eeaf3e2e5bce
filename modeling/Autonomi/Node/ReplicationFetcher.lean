/-
The replication fetcher of a node.

Other nodes report which records they hold.  What they report is fetched at once if they
have shown to be trustworthy, and otherwise when enough of them have reported it; what
an untrustworthy peer reports is dropped.

A call happens at one instant, which it is given.  The order in which a hash map hands
out its entries is open: a call that depends on it is given a rank for each of them.
Instants are in nanoseconds.
-/
import Autonomi.Lib.Table
import Autonomi.Lib.Transition
import Autonomi.Node.RecordStore

namespace Autonomi

open Lib

def maxParallelFetch : Nat := 5

/-- After which a peer has failed to send what is fetched from it. -/
def fetchTimeout : Time := 20 * 10 ^ 9

/-- After which a pending entry is cleared, and an entry short of a majority too. -/
def pendingTimeout : Time := 900 * 10 ^ 9

def maxScoredPeers : Nat := 20

namespace ReplicationFetcher

def closeGroupSize : Nat := 5

/-- An address and the type of the record there, as peers report them. -/
abbrev Report := NetworkAddress × ValidationType

abbrev PendingKey := RecordKey × ValidationType × PeerId

abbrev Candidate := PeerId × Report

abbrev PeerSet := { peers : List PeerId // peers.Nodup }

def PeerSet.empty : PeerSet := ⟨[], List.nodup_nil⟩

def PeerSet.insert (peers : PeerSet) (peer : PeerId) : PeerSet :=
  ⟨List.insert peer peers.1, peers.2.insert⟩

/-- The results of the last storage challenges of a peer, at most two. -/
abbrev Scores := { scores : List Bool // scores.length ≤ 2 }

def Scores.push (scores : Scores) (isHealthy : Bool) : Scores :=
  ⟨if 2 < (scores.1 ++ [isHealthy]).length then (scores.1 ++ [isHealthy]).tail
    else scores.1 ++ [isHealthy], by
    have h := scores.2
    split <;> simp_all⟩

end ReplicationFetcher

open ReplicationFetcher in
structure ReplicationFetcher where
  selfPeerId : PeerId
  /-- When each pending entry times out. -/
  toBeFetched : Table PendingKey Time
  /-- Whom a record is being fetched from, and when that times out. -/
  onGoingFetches : Table (RecordKey × ValidationType) (PeerId × Time)
  /-- The `FailedToFetchHolders` events sent: holders, and what they failed to send. -/
  sentEvents : List (Table PeerId RecordKey)
  distanceRange : Option Nat
  farthestAcceptableDistance : Option Nat
  /-- The scores of each peer, and when the last of them came. -/
  peersScores : Table PeerId (Scores × Time)
  /-- Who has reported each record so far, and when it was first reported. -/
  initialReplicates : Table Report (PeerSet × Time)

namespace ReplicationFetcher

def new (selfPeerId : PeerId) : ReplicationFetcher where
  selfPeerId := selfPeerId
  toBeFetched := ∅
  onGoingFetches := ∅
  sentEvents := []
  distanceRange := none
  farthestAcceptableDistance := none
  peersScores := ∅
  initialReplicates := ∅

variable (c : Crypto)

variable (f : ReplicationFetcher)

def distance (address : NetworkAddress) : Nat :=
  (NetworkAddress.peerId f.selfPeerId).distance c address

def setReplicationDistanceRange (distanceRange : Nat) : ReplicationFetcher :=
  { f with distanceRange := some distanceRange }

/-! ### Trust -/

def addPeerScore (now : Time) (peersScores : Table PeerId (Scores × Time))
    (score : PeerId × Bool) : Table PeerId (Scores × Time) :=
  let (scores, _) := (peersScores.lookup score.1).getD (⟨[], Nat.zero_le 2⟩, now)
  peersScores.insert score.1 (scores.push score.2, now)

/-- The peer last seen longest ago, if any was last seen before the bound. -/
def oldestPeer (bound : Time) (entries : List (PeerId × Time)) : Option PeerId :=
  (entries.foldl
    (fun best e => if e.2 < best.1 then (e.2, some e.1) else best) (bound, none)).2

/-- `add_peer_scores`; without an older peer, nothing is removed. -/
def addPeerScores (rank : PeerId → Nat) (now : Time) (f : ReplicationFetcher)
    (scores : List (PeerId × Bool)) : ReplicationFetcher :=
  let peersScores := scores.foldl (addPeerScore now) f.peersScores
  if maxScoredPeers < peersScores.entries.length then
    let entries := (peersScores.entries.map fun e => (e.1, e.2.2)).insertionSort
      fun a b => rank a.1 ≤ rank b.1
    match oldestPeer now entries with
    | some peer => { f with peersScores := peersScores.erase peer }
    | none => { f with peersScores }
  else
    { f with peersScores }

abbrev PeersScores := Table PeerId (Scores × Time)

/-- A call of `add_peer_scores`: the clock is read for each score, and for the pruning. -/
structure ScoresCall where
  scores : List (Time × PeerId × Bool)
  rank : PeerId → Nat
  now : Time

def ScoresCall.scored (call : ScoresCall) (t : PeersScores) : PeersScores :=
  call.scores.foldl (fun t score => addPeerScore score.1 t score.2) t

/-- The pruning alone, which is all that is done without scores. -/
def ScoresCall.prune (call : ScoresCall) (t : PeersScores) : PeersScores :=
  ({ new [] with peersScores := t }.addPeerScores call.rank call.now []).peersScores

def scoresAfter (calls : List ScoresCall) : PeersScores :=
  calls.foldl (fun t call => call.prune (call.scored t)) ∅

/-- Whether a peer can be trusted, if there is enough history to tell. -/
def isPeerTrustworthy (holder : PeerId) : Option Bool :=
  match f.peersScores.lookup holder with
  | some (scores, _) =>
    if 1 < scores.1.length then
      let healthyCount := scores.1.countP id
      some (1 < healthyCount)
    else none
  | none => none

/-! ### Reports -/

/-- Among the incoming keys, those not stored, not pending from the holder, and in range. -/
def inRangeNewKeys (holder : PeerId) (incomingKeys : List Report)
    (locallyStoredKeys : Table RecordKey IndexEntry) (closestPeers : List NetworkAddress) :
    List Report :=
  let newIncomingKeys := incomingKeys.filter fun report =>
    let key := report.1.toRecordKey c
    ¬ (key ∈ locallyStoredKeys ∨ (key, report.2, holder) ∈ f.toBeFetched)
  let closestPeers := (closestPeers ++ [NetworkAddress.peerId f.selfPeerId]).insertionSort
    fun a b => f.distance c a ≤ f.distance c b
  match closestPeers.getLast?.map (f.distance c) with
  | some maxDistance => newIncomingKeys.filter fun report => f.distance c report.1 ≤ maxDistance
  | none => newIncomingKeys

/-- Add the holder to those who reported each key; gives what has reached a majority. -/
def accumulate (now : Time) (holder : PeerId) :
    List Report → Table Report (PeerSet × Time) → Table Report (PeerSet × Time) × List Report
  | [], replicates => (replicates, [])
  | report :: incomingKeys, replicates =>
    let (peers, firstSeen) := (replicates.lookup report).getD (.empty, now)
    let peers := peers.insert holder
    let (replicates, majorities) :=
      accumulate now holder incomingKeys (replicates.insert report (peers, firstSeen))
    (replicates,
      if closeGroupSize / 2 ≤ peers.1.length then report :: majorities else majorities)

/-- Take out what has reached a majority; it can be fetched from all who reported it. -/
def takeMajorities :
    List Report → Table Report (PeerSet × Time) → Table Report (PeerSet × Time) × List Candidate
  | [], replicates => (replicates, [])
  | report :: majorities, replicates =>
    match replicates.lookup report with
    | some (peers, _) =>
      let (replicates, result) := takeMajorities majorities (replicates.erase report)
      (replicates, (peers.1.map fun peer => (peer, report)) ++ result)
    | none => takeMajorities majorities replicates

def initialMajorityReplicates (now : Time) (f : ReplicationFetcher) (holder : PeerId)
    (incomingKeys : List Report) : ReplicationFetcher × List Candidate :=
  let (replicates, majorities) := accumulate now holder incomingKeys f.initialReplicates
  let (initialReplicates, result) := takeMajorities majorities replicates
  ({ f with initialReplicates }, result)

/-- Add what is not there yet, from whichever peer. -/
def addMissing (result : List Candidate) : List Candidate → List Candidate
  | [] => result
  | candidate :: candidates =>
    let alreadyPresent := result.any fun existing => existing.2 = candidate.2
    addMissing (if alreadyPresent then result else result ++ [candidate]) candidates

def validCandidates (now : Time) (f : ReplicationFetcher) (holder : PeerId)
    (incomingKeys : List Report) (locallyStoredKeys : Table RecordKey IndexEntry)
    (closestPeers : List NetworkAddress) : ReplicationFetcher × List Candidate :=
  let newIncomingKeys := f.inRangeNewKeys c holder incomingKeys locallyStoredKeys closestPeers
  match f.isPeerTrustworthy holder with
  | some true =>
    let result := newIncomingKeys.map fun report => (holder, report)
    let (f, majorityResults) := f.initialMajorityReplicates now holder newIncomingKeys
    (f, addMissing result majorityResults)
  | some false => (f, [])
  | none => f.initialMajorityReplicates now holder newIncomingKeys

/-! ### Scheduling -/

/-- Whether a record of this type is not what is stored under the key. -/
def notStored (existingKeys : Table RecordKey IndexEntry) (key : RecordKey)
    (t : ValidationType) : Bool :=
  match existingKeys.lookup key with
  | some entry => t ≠ entry.validationType
  | none => true

def removeStoredKeys (existingKeys : Table RecordKey IndexEntry) : ReplicationFetcher :=
  { f with
    toBeFetched := f.toBeFetched.retain fun k _ => notStored existingKeys k.1 k.2.1
    onGoingFetches := f.onGoingFetches.retain fun k _ => notStored existingKeys k.1 k.2 }

def failedHolders (now : Time) (f : ReplicationFetcher) : Table PeerId RecordKey :=
  (f.onGoingFetches.entries.filter fun e => e.2.2 < now).foldl
    (fun holders e => holders.insert e.2.1 e.1.1) ∅

def pruneExpiredKeysAndSlowNodes (now : Time) (f : ReplicationFetcher) : ReplicationFetcher :=
  let failedHolders := f.failedHolders now
  { f with
    onGoingFetches := f.onGoingFetches.retain fun _ fetch => ¬ fetch.2 < now
    toBeFetched := f.toBeFetched.retain fun k _ => k.2.2 ∉ failedHolders
    sentEvents :=
      if failedHolders.entries.isEmpty then f.sentEvents else f.sentEvents ++ [failedHolders]
    initialReplicates := f.initialReplicates.retain fun _ reported =>
      ¬ pendingTimeout ≤ now - reported.2 }

/-- Start fetches in the given order while there is room; gives what was started. -/
def startFetches (now : Time) :
    List PendingKey → Table (RecordKey × ValidationType) (PeerId × Time) →
      Table (RecordKey × ValidationType) (PeerId × Time) × List PendingKey
  | [], onGoing => (onGoing, [])
  | (key, t, holder) :: sorted, onGoing =>
    let (onGoing, started) :=
      if onGoing.entries.length < maxParallelFetch ∧ (key, t) ∉ onGoing then
        (onGoing.insert (key, t) (holder, now + fetchTimeout), [(key, t, holder)])
      else (onGoing, [])
    if maxParallelFetch ≤ onGoing.entries.length then (onGoing, started)
    else
      let (onGoing, rest) := startFetches now sorted onGoing
      (onGoing, started ++ rest)

variable (rank : PendingKey → Nat)

def nextKeysToFetch (now : Time) (f : ReplicationFetcher) :
    ReplicationFetcher × List (PeerId × RecordKey) :=
  let f := f.pruneExpiredKeysAndSlowNodes now
  if maxParallelFetch ≤ f.onGoingFetches.entries.length then (f, [])
  else if f.toBeFetched.entries.isEmpty then (f, [])
  else
    let toBeFetchedSorted :=
      (f.toBeFetched.keys.insertionSort fun a b => rank a ≤ rank b).insertionSort
        fun a b => f.distance c (.recordKey a.1) ≤ f.distance c (.recordKey b.1)
    let (onGoingFetches, dataToFetch) := startFetches now toBeFetchedSorted f.onGoingFetches
    ({ f with
        onGoingFetches
        toBeFetched := dataToFetch.foldl (fun pending k => pending.erase k) f.toBeFetched },
      dataToFetch.map fun k => (k.2.2, k.1))

/-! ### The calls -/

/-- Fresh records are fetched at once, unless they are being fetched. -/
def fetchFresh (now : Time) (holder : PeerId) :
    List Candidate → Table (RecordKey × ValidationType) (PeerId × Time) →
      Table (RecordKey × ValidationType) (PeerId × Time) × List (PeerId × RecordKey)
  | [], onGoing => (onGoing, [])
  | (_, report) :: candidates, onGoing =>
    let newDataKey := (report.1.toRecordKey c, report.2)
    if newDataKey ∈ onGoing then fetchFresh now holder candidates onGoing
    else
      let (onGoing, keys) := fetchFresh now holder candidates
        (onGoing.insert newDataKey (holder, now + fetchTimeout))
      (onGoing, (holder, report.1.toRecordKey c) :: keys)

/-- The other candidates wait for their turn. -/
def queue (now : Time) (candidates : List Candidate) (toBeFetched : Table PendingKey Time) :
    Table PendingKey Time :=
  candidates.foldl
    (fun pending candidate =>
      pending.orInsert (candidate.2.1.toRecordKey c, candidate.2.2, candidate.1)
        (now + pendingTimeout))
    toBeFetched

/-- Forget what is stored, and what has waited too long. -/
def removeOutdated (now : Time) (f : ReplicationFetcher)
    (locallyStoredKeys : Table RecordKey IndexEntry) : ReplicationFetcher :=
  let f := f.removeStoredKeys locallyStoredKeys
  { f with toBeFetched := f.toBeFetched.retain fun _ timeOut => now < timeOut }

def addKeys (now : Time) (f : ReplicationFetcher) (holder : PeerId) (incomingKeys : List Report)
    (locallyStoredKeys : Table RecordKey IndexEntry) (isFreshReplicate : Bool)
    (closestKPeers : List NetworkAddress) : ReplicationFetcher × List (PeerId × RecordKey) :=
  let (f, candidates) :=
    if isFreshReplicate then (f, incomingKeys.map fun report => (holder, report))
    else f.validCandidates c now holder incomingKeys locallyStoredKeys closestKPeers
  let f := f.removeOutdated now locallyStoredKeys
  let (f, keysToFetch) :=
    if isFreshReplicate then
      let (onGoingFetches, keys) := fetchFresh c now holder candidates f.onGoingFetches
      ({ f with onGoingFetches }, keys)
    else ({ f with toBeFetched := queue c now candidates f.toBeFetched }, [])
  let (f, next) := f.nextKeysToFetch c rank now
  (f, keysToFetch ++ next)

def setFarthestOnFull (farthestIn : Option RecordKey) : ReplicationFetcher :=
  match farthestIn with
  | none => f
  | some farthestIn =>
    let newFarthestDistance := f.distance c (.recordKey farthestIn)
    if f.farthestAcceptableDistance.any fun old => old ≤ newFarthestDistance then f
    else
      { f with
        toBeFetched := f.toBeFetched.retain fun k _ =>
          f.distance c (.recordKey k.1) ≤ newFarthestDistance
        onGoingFetches := f.onGoingFetches.retain fun k _ =>
          f.distance c (.recordKey k.1) ≤ newFarthestDistance
        farthestAcceptableDistance := some newFarthestDistance }

def notifyAboutNewPut (now : Time) (f : ReplicationFetcher) (newPut : RecordKey)
    (recordType : ValidationType) : ReplicationFetcher × List (PeerId × RecordKey) :=
  nextKeysToFetch c rank now
    { f with
      toBeFetched := f.toBeFetched.retain fun k _ => k.1 ≠ newPut ∨ k.2.1 ≠ recordType
      onGoingFetches := f.onGoingFetches.retain fun k _ => k.1 ≠ newPut }

def notifyFetchEarlyCompleted (now : Time) (f : ReplicationFetcher) (keyIn : RecordKey)
    (recordType : ValidationType) : ReplicationFetcher × List (PeerId × RecordKey) :=
  nextKeysToFetch c rank now
    { f with
      toBeFetched := f.toBeFetched.retain fun k _ => k.2.1 = recordType → k.1 ≠ keyIn
      onGoingFetches := f.onGoingFetches.retain fun k _ => k.2 = recordType → k.1 ≠ keyIn }

end ReplicationFetcher

/-! ### Runs of the fetcher -/

open ReplicationFetcher in
/-- The calls of the fetcher, and what the world outside contributes to them. -/
inductive FetcherCall
  | addKeys (rank : PendingKey → Nat) (holder : PeerId) (incomingKeys : List Report)
      (locallyStoredKeys : Table RecordKey IndexEntry) (isFreshReplicate : Bool)
      (closestKPeers : List NetworkAddress)
  | addPeerScores (rank : PeerId → Nat) (scores : List (PeerId × Bool))
  | setReplicationDistanceRange (distanceRange : Nat)
  | setFarthestOnFull (farthestIn : Option RecordKey)
  | notifyAboutNewPut (rank : PendingKey → Nat) (newPut : RecordKey) (recordType : ValidationType)
  | notifyFetchEarlyCompleted (rank : PendingKey → Nat) (keyIn : RecordKey)
      (recordType : ValidationType)
  | nextKeysToFetch (rank : PendingKey → Nat)

def FetcherCall.run (c : Crypto) (now : Time) (f : ReplicationFetcher) :
    FetcherCall → ReplicationFetcher
  | addKeys rank holder incomingKeys locallyStoredKeys isFreshReplicate closestKPeers =>
    (f.addKeys c rank now holder incomingKeys locallyStoredKeys isFreshReplicate
      closestKPeers).1
  | addPeerScores rank scores => f.addPeerScores rank now scores
  | setReplicationDistanceRange distanceRange => f.setReplicationDistanceRange distanceRange
  | setFarthestOnFull farthestIn => f.setFarthestOnFull c farthestIn
  | notifyAboutNewPut rank newPut recordType => (f.notifyAboutNewPut c rank now newPut recordType).1
  | notifyFetchEarlyCompleted rank keyIn recordType =>
    (f.notifyFetchEarlyCompleted c rank now keyIn recordType).1
  | nextKeysToFetch rank => (f.nextKeysToFetch c rank now).1

structure FetcherEvent where
  before : ReplicationFetcher
  now : Time
  call : FetcherCall

/-- A fetcher, the time, and the calls made so far, the last one first. -/
structure FetcherState where
  clock : Time
  fetcher : ReplicationFetcher
  past : List FetcherEvent

inductive FetcherLabel
  | tick (duration : Time)
  | call (call : FetcherCall)

namespace FetcherState

def init (selfPeerId : PeerId) : FetcherState := ⟨0, .new selfPeerId, []⟩

def event (s : FetcherState) (call : FetcherCall) : FetcherEvent := ⟨s.fetcher, s.clock, call⟩

def step (c : Crypto) (s : FetcherState) : FetcherLabel → Option FetcherState
  | .tick duration => some { s with clock := s.clock + duration }
  | .call call =>
    some { s with fetcher := call.run c s.clock s.fetcher, past := s.event call :: s.past }

end FetcherState

/-! ### Replication requests -/

def replicationSenderCloseGroupThreshold : Nat := 40

def replicationSenderExtendedDistanceMultiplier : Nat := 10

structure SwarmView where
  /-- The peers of the routing table, the closest to us first. -/
  localPeers : List PeerId
  isNetworkUnderLoad : Bool
  recordAddresses : Table RecordKey IndexEntry

def getClosestLocalPeersToSelf (selfPeerId : PeerId) (view : SwarmView) (numPeers : Nat) :
    List PeerId :=
  selfPeerId :: view.localPeers.take (numPeers - 1)

open ReplicationFetcher in
/-- `add_keys_to_replication_fetcher`: the call it makes, if any. -/
def addKeysToReplicationFetcher (c : Crypto) (rank : PendingKey → Nat) (selfPeerId : PeerId)
    (view : SwarmView) (sender : NetworkAddress) (incomingKeys : List Report)
    (isFreshReplicate : Bool) : Option FetcherCall :=
  match sender.asPeerId c with
  | none => none
  | some holder =>
    let closest40Peers :=
      getClosestLocalPeersToSelf selfPeerId view replicationSenderCloseGroupThreshold
    let distance := fun peer =>
      (NetworkAddress.peerId peer).distance c (.peerId selfPeerId)
    let call := FetcherCall.addKeys rank holder incomingKeys view.recordAddresses
      isFreshReplicate (closest40Peers.map .peerId)
    if holder ∉ closest40Peers ∨ holder = selfPeerId then
      if ¬ view.isNetworkUnderLoad then none
      else
        let farthestDistance := (closest40Peers.getLast?.map distance).getD (2 ^ 256 - 1)
        let increasedDistance :=
          min (farthestDistance * replicationSenderExtendedDistanceMultiplier) (2 ^ 256 - 1)
        if increasedDistance < distance holder then none else some call
    else some call

/-- A `Replicate` request: the connected peer it came from, and what it says. -/
structure ReplicateRequest where
  peer : PeerId
  holder : NetworkAddress
  keys : List ReplicationFetcher.Report

/-- A node's fetcher, the time, and the requests received so far, the last one first. -/
structure SwarmState where
  clock : Time
  fetcher : ReplicationFetcher
  received : List ReplicateRequest

open ReplicationFetcher in
inductive SwarmLabel
  | tick (duration : Time)
  /-- A connected peer sends a request. -/
  | replicate (rank : PendingKey → Nat) (view : SwarmView) (request : ReplicateRequest)
  /-- The node has found the payments of fresh records to be in order. -/
  | addFreshReplicateRecords (rank : PendingKey → Nat) (view : SwarmView) (holder : NetworkAddress)
      (keys : List Report)
  /-- Any other call of the fetcher. -/
  | command (call : FetcherCall)

def FetcherCall.isAddKeys : FetcherCall → Bool
  | addKeys .. => true
  | _ => false

namespace SwarmState

def init (selfPeerId : PeerId) : SwarmState := ⟨0, .new selfPeerId, []⟩

def afterCall (c : Crypto) (s : SwarmState) : Option FetcherCall → ReplicationFetcher
  | some call => call.run c s.clock s.fetcher
  | none => s.fetcher

/-- The holder of a list is the one it names, whoever sent it. -/
def step (c : Crypto) (s : SwarmState) : SwarmLabel → Option SwarmState
  | .tick duration => some { s with clock := s.clock + duration }
  | .replicate rank view request =>
    some { s with
      fetcher := s.afterCall c (addKeysToReplicationFetcher c rank s.fetcher.selfPeerId view
        request.holder request.keys false)
      received := request :: s.received }
  | .addFreshReplicateRecords rank view holder keys =>
    some { s with
      fetcher := s.afterCall c (addKeysToReplicationFetcher c rank s.fetcher.selfPeerId view
        holder keys true) }
  | .command call =>
    if call.isAddKeys then none
    else some { s with fetcher := call.run c s.clock s.fetcher }

end SwarmState

end Autonomi
