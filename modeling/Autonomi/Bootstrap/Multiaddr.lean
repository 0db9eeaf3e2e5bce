/-
Addresses of peers, and the configuration of bootstrapping.

Only a few of the protocols of a multiaddress matter here: the crate
keeps one IPv4 address, UDP or TCP with what goes with it, and the peer, in that
order, and drops the rest.
-/
import Autonomi.Protocol.PeerSelection

namespace Autonomi

namespace MultiaddrProtocol

def isIp4 : MultiaddrProtocol → Bool
  | ip4 _ => true
  | _ => false

def isUdp : MultiaddrProtocol → Bool
  | udp _ => true
  | _ => false

def isTcp : MultiaddrProtocol → Bool
  | tcp _ => true
  | _ => false

def isWs : MultiaddrProtocol → Bool
  | ws _ => true
  | _ => false

def isP2p : MultiaddrProtocol → Bool
  | p2p _ => true
  | _ => false

end MultiaddrProtocol

/-- UDP, with QUIC if it is there, or else TCP, with websockets if they are there. -/
def craftTransport (addr : Multiaddr) : Option (List MultiaddrProtocol) :=
  match addr.find? MultiaddrProtocol.isUdp with
  | some udp => some (udp :: (addr.find? (· = .quicV1)).toList)
  | none =>
    match addr.find? MultiaddrProtocol.isTcp with
    | some tcp => some (tcp :: (addr.find? MultiaddrProtocol.isWs).toList)
    | none => none

/-- Craft a proper address; one without a peer only if that is to be ignored. -/
def craftValidMultiaddr (addr : Multiaddr) (ignorePeerId : Bool) : Option Multiaddr := do
  let ip ← addr.find? MultiaddrProtocol.isIp4
  let transport ← craftTransport addr
  match addr.find? MultiaddrProtocol.isP2p with
  | some peerId => return ip :: transport ++ [peerId]
  | none => if ignorePeerId = true then return ip :: transport else none

def multiaddrGetPeerId (addr : Multiaddr) : Option PeerId :=
  match addr.find? MultiaddrProtocol.isP2p with
  | some (.p2p id) => some id
  | _ => none

/-- What bootstrapping and the cache are configured with, over some type of addresses. -/
structure BootstrapConfig (A : Type) where
  /-- Write the cache file in the older format as well. -/
  backwardsCompatibleWrites : Bool
  disableCacheWriting : Bool
  disableCacheReading : Bool
  disableEnvPeers : Bool
  /-- This is the first node of a new network. -/
  first : Bool
  /-- The peers given on the command line. -/
  initialPeers : List A
  /-- The field `local`. -/
  localNetwork : Bool
  maxCachedPeers : Nat
  maxAddrsPerCachedPeer : Nat
  networkContactsUrl : List String

inductive BootstrapError
  | noBootstrapPeersFound
  | failedToParseUrl
  | failedToParseCacheData
  | io (text : String)
deriving DecidableEq

end Autonomi
