/-
How peers come into a node's routing table.

When a peer has identified itself, the node looks at its protocol, at its type and
version, and at where it can be reached.  A peer that gets through is added if the node
has dialed it before, or dialed back later.

The routing table is Kademlia's.  Kademlia puts the peer's own id at the end of the
addresses it is given; they stand here without it.  The events a peer causes are
returned in order, and the time is the same throughout.
-/
import Autonomi.Protocol.PeerSelection
import Autonomi.Protocol.VersionGate

namespace Autonomi

open Lib

abbrev ConnectionId := Nat

structure IdentifyInfo where
  protocolVersion : Text
  agentVersion : Text
  listenAddrs : List Multiaddr
  protocols : List Text

/-! ### The routing table -/

/-- What becomes of a peer that is new to the table. -/
inductive RoutingUpdate
  | success
  | pending
  | failed
deriving DecidableEq

structure RoutingTable where
  present : Table PeerId (List Multiaddr)
  /-- Peers that wait for a place. -/
  pending : Table PeerId (List Multiaddr)

namespace RoutingTable

def addAddress (update : RoutingUpdate) (peer : PeerId) (t : RoutingTable) (addr : Multiaddr) :
    RoutingTable :=
  match t.present.lookup peer, t.pending.lookup peer with
  | some addrs, _ => { t with present := t.present.insert peer (addrs.insert addr) }
  | none, some addrs => { t with pending := t.pending.insert peer (addrs.insert addr) }
  | none, none =>
    match update with
    | .success => { t with present := t.present.insert peer [addr] }
    | .pending => { t with pending := t.pending.insert peer [addr] }
    | .failed => t

/-- A peer leaves with its last address. -/
def removeAddress (peer : PeerId) (t : RoutingTable) (addr : Multiaddr) : RoutingTable :=
  match t.present.lookup peer with
  | some addrs =>
    if addrs = [addr] then { t with present := t.present.erase peer }
    else { t with present := t.present.insert peer (addrs.filter fun a => a ≠ addr) }
  | none => t

def removePeer (t : RoutingTable) (peer : PeerId) : RoutingTable :=
  ⟨t.present.erase peer, t.pending.erase peer⟩

end RoutingTable

/-! ### Addresses -/

variable (addr : Multiaddr)

def Multiaddr.isRelayed : Bool := addr.contains .p2pCircuit

def isARelayedPeer (addrs : List Multiaddr) : Bool := addrs.any Multiaddr.isRelayed

def multiaddrGetPort : Option UInt16 :=
  addr.findSome? fun
    | .udp port => some port
    | _ => none

def multiaddrGetIp : Option UInt32 :=
  addr.findSome? fun
    | .ip4 ip => some ip
    | _ => none

def multiaddrGetPeer : Option PeerId :=
  addr.findSome? fun
    | .p2p peer => some peer
    | _ => none

def craftValidMultiaddrWithoutP2p : Option Multiaddr := do
  let ip ← multiaddrGetIp addr
  let port ← multiaddrGetPort addr
  return [.ip4 ip, .udp port, .quicV1]

/-- `RelayManager::craft_relay_address` without a peer of the caller's. -/
def craftRelayAddress : Option Multiaddr := do
  let ip ← multiaddrGetIp addr
  let port ← multiaddrGetPort addr
  let peer ← multiaddrGetPeer addr
  return [.ip4 ip, .udp port, .quicV1, .p2p peer, .p2pCircuit]

def isP2p : MultiaddrProtocol → Bool
  | .p2p _ => true
  | _ => false

/-- The id of a relay, which stands before the circuit, is kept. -/
def multiaddrStripP2p : Multiaddr :=
  if addr.isRelayed then
    addr.takeWhile (· ≠ .p2pCircuit) ++
      (addr.dropWhile (· ≠ .p2pCircuit)).filter fun p => !isP2p p
  else addr.filter fun p => !isP2p p

/-- Where the peer is to be reached: the address it came from, or its relays. -/
def reachedAt (info : IdentifyInfo) (addrFromConnection : Multiaddr) : Option (List Multiaddr) :=
  if isARelayedPeer info.listenAddrs then
    some (info.listenAddrs.filterMap craftRelayAddress).eraseDups
  else (craftValidMultiaddrWithoutP2p addrFromConnection).map fun addr => [addr]

/-! ### The node -/

/-- A peer to be dialed back: where, when, and how often the time has been set. -/
structure DialEntry where
  addrs : List Multiaddr
  time : Nat
  resets : Nat

structure Peering where
  blockedPeers : List PeerId
  liveConnectedPeers : Table ConnectionId (PeerId × Multiaddr)
  dialedPeers : List PeerId
  dialQueue : Table PeerId DialEntry
  routingTable : RoutingTable

structure PeeringConfig where
  crypto : Crypto
  selfPeerId : PeerId
  isLocal : Bool
  /-- `IDENTIFY_PROTOCOL_STR` -/
  identifyProtocol : Text
  minNodeVersion : PeerVersion
  isBootstrapPeer : PeerId → Bool
  hasRelayManager : Bool

inductive PeerEvent
  | disconnectPeer (peer : PeerId)
  | peerWithUnsupportedProtocol (ourProtocol theirProtocol : Text)
  | updateOnPeerRemoval (peer : PeerId)
  | peerVersionChecked (peer : PeerId) (peerType : PeerType) (result : VersionCheckResult)
  | peerVersionRejected (peer : PeerId) (peerType : PeerType) (result : VersionCheckResult)
      (minVersion : PeerVersion)
  | addPotentialCandidates (peer : PeerId) (addrs : List Multiaddr) (protocols : List Text)
  | sendDoNotDisturbRequest (peer : PeerId) (duration : Nat)

def dialBackDelay : Nat := 180

def kValue : Nat := 20

def doesThePeerSupportDnd (info : IdentifyInfo) : Bool :=
  info.protocols.any fun protocol => protocol.includes "autonomi/dnd"

variable (cfg : PeeringConfig)

/-- How many peers the bucket of a peer holds; the node itself is in none. -/
def kbucket (t : RoutingTable) (peer : PeerId) : Option Nat :=
  let distanceTo := fun other =>
    (NetworkAddress.peerId cfg.selfPeerId).distance cfg.crypto (.peerId other)
  if distanceTo peer = 0 then none
  else some (t.present.keys.countP fun other => (distanceTo other).log2 = (distanceTo peer).log2)

/-- Bring the addresses of a peer up to date; only relayed ones are removed. -/
def updatePreExistingPeer (update : RoutingUpdate) (t : RoutingTable) (peer : PeerId)
    (newAddrs : List Multiaddr) (isRelayedPeer : Bool) : RoutingTable :=
  match t.present.lookup peer with
  | none => t
  | some existing =>
    let existingAddrs := existing.map multiaddrStripP2p
    let addressesToAdd := newAddrs.filter fun addr => !existingAddrs.contains addr
    let addressesToRemove := existingAddrs.filter fun addr => !newAddrs.contains addr
    let t := if isRelayedPeer then addressesToRemove.foldl (RoutingTable.removeAddress peer) t
      else t
    addressesToAdd.foldl (RoutingTable.addAddress update peer) t

/-- Have a peer dialed back.  After the third time it is asked not to disturb, if it can be asked,
and dialed at once otherwise. -/
def queueDial (s : Peering) (peer : PeerId) (info : IdentifyInfo) (addrs : List Multiaddr)
    (kbucketFull : Bool) (now : Nat) : Peering × List PeerEvent :=
  match s.dialQueue.lookup peer with
  | none =>
    if kbucketFull then (s, [])
    else ({ s with dialQueue := s.dialQueue.insert peer ⟨addrs, now + dialBackDelay, 1⟩ }, [])
  | some entry =>
    let resets := entry.resets + 1
    let sendDnd := decide (3 ≤ resets)
    let supportDnd := doesThePeerSupportDnd info
    let time := if sendDnd && !supportDnd then now else now + dialBackDelay
    let oldAddrs := addrs.foldl
      (fun old addr => if old.contains addr then old else old ++ [addr]) entry.addrs
    let oldAddrs := if isARelayedPeer info.listenAddrs then oldAddrs.filter Multiaddr.isRelayed
      else oldAddrs
    ({ s with dialQueue := s.dialQueue.insert peer ⟨oldAddrs, time, resets⟩ },
      if sendDnd && supportDnd then [.sendDoNotDisturbRequest peer (dialBackDelay + 20)] else [])

def admitPeer (s : Peering) (peer : PeerId) (info : IdentifyInfo) (addrs : List Multiaddr)
    (now : Nat) (update : RoutingUpdate) : Peering × List PeerEvent :=
  let isRelayedPeer := isARelayedPeer info.listenAddrs
  if info.agentVersion.includes "reachability-check-peer" then
    ({ s with dialQueue := s.dialQueue.insert peer ⟨addrs, now + dialBackDelay, 1⟩ }, [])
  else if info.agentVersion.includes "client" then (s, [])
  else
    let candidate :=
      if !isRelayedPeer && !cfg.isBootstrapPeer peer && cfg.hasRelayManager then
        [PeerEvent.addPotentialCandidates peer addrs info.protocols]
      else []
    match kbucket cfg s.routingTable peer with
    | none => (s, candidate)
    | some numPeers =>
      if peer ∈ s.routingTable.present then
        ({ s with routingTable :=
            updatePreExistingPeer update s.routingTable peer addrs isRelayedPeer }, candidate)
      else if !cfg.isLocal && !s.dialedPeers.contains peer then
        -- it is added when it has been dialed and identifies itself again
        let (s, events) := queueDial s peer info addrs (kValue ≤ numPeers) now
        (s, candidate ++ events)
      else
        ({ s with routingTable :=
            addrs.foldl (RoutingTable.addAddress update peer) s.routingTable }, candidate)

def shouldReject (peerType : PeerType) (result : VersionCheckResult) : Bool :=
  match peerType, result with
  | .node, .accepted _ => false
  | .node, _ => true
  | _, _ => false

/-- The version is checked for nodes only. -/
def minVersionForCheck : PeerType → Option PeerVersion
  | .node => some cfg.minNodeVersion
  | _ => none

def handleIdentifyReceived (s : Peering) (peer : PeerId) (info : IdentifyInfo)
    (connection : ConnectionId) (now : Nat) (update : RoutingUpdate) : Peering × List PeerEvent :=
  if peer ∈ s.blockedPeers then (s, [.disconnectPeer peer])
  else
    match s.liveConnectedPeers.lookup connection with
    | none => (s, [])
    | some (_, addrFromConnection) =>
      if info.protocolVersion ≠ cfg.identifyProtocol then
        ({ s with
            blockedPeers := peer :: s.blockedPeers
            routingTable := s.routingTable.removePeer peer },
          .peerWithUnsupportedProtocol cfg.identifyProtocol info.protocolVersion ::
            if peer ∈ s.routingTable.present ∨ peer ∈ s.routingTable.pending then
              [.updateOnPeerRemoval peer]
            else [])
      else
        let peerType := PeerType.fromAgentString info.agentVersion
        let versionResult :=
          checkPeerVersion info.agentVersion (minVersionForCheck cfg peerType)
        let checked := PeerEvent.peerVersionChecked peer peerType versionResult
        if shouldReject peerType versionResult then
          -- disconnected, not blocked: it may come back with a new version
          (s, [checked, .peerVersionRejected peer peerType versionResult cfg.minNodeVersion,
            .disconnectPeer peer])
        else
          match reachedAt info addrFromConnection with
          | none => (s, [checked])
          | some addrs =>
            let (s, events) := admitPeer cfg s peer info addrs now update
            (s, checked :: events)

end Autonomi
