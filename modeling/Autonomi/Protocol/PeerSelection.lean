/-
The closest peers to an address, by what the peers near it say.

A Kademlia query gives candidates.  Each of them is asked which peers it knows to be
close, and from then on a peer counts by how often it was seen: once for every entry of
a response that names it, and once for having responded.

The responses stand in the order they come in.  Which peers tell their version is left
open, and so is the order in which a hash map hands out the peers that are asked for it
and in which they answer.
-/
import Autonomi.Lib.Table
import Autonomi.Protocol.Storage

namespace Autonomi

open Lib

/-- A part of a multiaddress; those the code never looks at are kept by their text. -/
inductive MultiaddrProtocol
  | ip4 (ip : UInt32)
  | udp (port : UInt16)
  | tcp (port : UInt16)
  | quicV1
  | ws (path : String)
  | p2p (peer : PeerId)
  | p2pCircuit
  | other (text : String)
deriving DecidableEq

/-- An address of a peer in the underlying network. -/
abbrev Multiaddr := List MultiaddrProtocol

structure PeerInfo where
  peerId : PeerId
  addrs : List Multiaddr
deriving DecidableEq

/-- What a peer answers when it is asked for the peers close to an address. -/
abbrev PeersList := List (NetworkAddress × List Multiaddr)

/-- How the peers that were seen often, and are not candidates, answer to `get_version`. -/
structure VersionAnswers where
  answers : PeerInfo → Bool
  /-- The order in which they answer. -/
  arrival : List PeerInfo → List PeerInfo
  arrival_perm : ∀ peers, (arrival peers).Perm peers

/-! ### Counting -/

/-- What the responses have brought: how often each peer was seen, and its addresses. -/
structure Sightings where
  peerCounts : Table PeerId Nat
  peerAddrs : Table PeerId (List Multiaddr)

namespace Sightings

variable {ε : Type} (c : Crypto) (extend : List Multiaddr → List Multiaddr → List Multiaddr)

def none : Sightings := ⟨∅, ∅⟩

def addrsOf (seen : Sightings) (peer : PeerId) : List Multiaddr :=
  (seen.peerAddrs.lookup peer).getD []

/-- An entry of a response; one that names no peer is passed over. -/
def addEntry (seen : Sightings) (entry : NetworkAddress × List Multiaddr) : Sightings :=
  match entry.1.asPeerId c with
  | .none => seen
  | some peer =>
    { peerCounts := seen.peerCounts.increment peer
      peerAddrs := seen.peerAddrs.insert peer (extend (seen.addrsOf peer) entry.2) }

def addResponse (seen : Sightings) (result : PeerId × Except ε PeersList) : Sightings :=
  match result.2 with
  | .ok peersList =>
    peersList.foldl (addEntry c extend)
      { seen with peerCounts := seen.peerCounts.increment result.1 }
  | .error _ => seen

def ofResults (results : List (PeerId × Except ε PeersList)) : Sightings :=
  results.foldl (addResponse c extend) none

def popularPeerIds (seen : Sightings) (popularityThreshold : Nat) : List PeerId :=
  (seen.peerCounts.entries.filter fun e => popularityThreshold < e.2).map Sigma.fst

end Sightings

/-! ### Selecting -/

section Select

variable (c : Crypto) (addr : NetworkAddress) (n : Nat)

def getDistance (peer : PeerId) : Nat := addr.distance c (.peerId peer)

def sortByDistance (peers : List PeerInfo) : List PeerInfo :=
  peers.insertionSort fun a b => getDistance c addr a.peerId ≤ getDistance c addr b.peerId

def pick : List PeerInfo → List PeerInfo → List PeerInfo
  | verified, [] => verified
  | verified, peer :: peers =>
    if n ≤ verified.length then verified else pick (verified ++ [peer]) peers

def tier1 (candidates : List PeerInfo) (popular : List PeerId) : List PeerInfo :=
  sortByDistance c addr (candidates.filter fun peer => popular.contains peer.peerId)

/-- Peers that were seen often and are not candidates: those with a known address are asked
for their version, and those that tell it remain. -/
def tier2 (candidates : List PeerInfo) (popular : List PeerId) (seen : Sightings)
    (version : VersionAnswers) : List PeerInfo :=
  let candidatePeerIds := candidates.map PeerInfo.peerId
  let popularNotInCandidates :=
    ((popular.filter fun peer => !candidatePeerIds.contains peer).map fun peer =>
      PeerInfo.mk peer (seen.addrsOf peer)).filter fun peer => !peer.addrs.isEmpty
  sortByDistance c addr
    ((version.arrival popularNotInCandidates).filter version.answers)

/-- Candidates not selected so far, out of those that pass a test. -/
def unselected (candidates verified : List PeerInfo) (test : PeerId → Bool) : List PeerInfo :=
  sortByDistance c addr (candidates.filter fun peer =>
    !(verified.map PeerInfo.peerId).contains peer.peerId && test peer.peerId)

def tier3 (candidates verified : List PeerInfo) (farthestPopular : Nat) : List PeerInfo :=
  unselected c addr candidates verified fun peer => farthestPopular < getDistance c addr peer

def tier4 (candidates verified : List PeerInfo) : List PeerInfo :=
  unselected c addr candidates verified fun _ => true

/-- The selection, tier by tier; the peers selected are the ones in `verified`. -/
def selectPeers (popularityThreshold : Nat) (candidates : List PeerInfo) (seen : Sightings)
    (version : VersionAnswers) : List PeerInfo :=
  let popular := seen.popularPeerIds popularityThreshold
  let farthestPopularDistance := (popular.map (getDistance c addr)).max?
  let verified := pick n [] (tier1 c addr candidates popular)
  let verified :=
    if verified.length < n then pick n verified (tier2 c addr candidates popular seen version)
    else verified
  let verified :=
    match farthestPopularDistance with
    | some farthestPopular =>
      if verified.length < n then pick n verified (tier3 c addr candidates verified farthestPopular)
      else verified
    | none => verified
  if verified.length < n then pick n verified (tier4 c addr candidates verified) else verified

end Select

/-! ### The client and the node -/

variable {ε : Type}

inductive ClosestPeersError (ε : Type)
  | network (error : ε)
  | insufficientPeers (gotPeers expectedPeers : Nat) (peers : List PeerInfo)
  | getClosestTimedOut
deriving DecidableEq

/-- The client keeps a set of addresses. -/
def extendSet (known more : List Multiaddr) : List Multiaddr :=
  more.foldl (fun known address => known.insert address) known

/-- The client's `get_closest_n_peers`; `kad` is what the Kademlia query brings, and `results`
what the candidates answer. -/
def getClosestNPeers (c : Crypto) (addr : NetworkAddress) (n : { n : Nat // 0 < n })
    (kad : Except ε (List PeerInfo)) (results : List (PeerId × Except ε PeersList))
    (version : VersionAnswers) : Except (ClosestPeersError ε) (List PeerInfo) :=
  match kad with
  | .error e => .error (.network e)
  | .ok candidates =>
    if candidates.length < n.val then
      .error (.insufficientPeers candidates.length n.val candidates)
    else
      let seen := Sightings.ofResults c extendSet results
      let verified := selectPeers c addr n.val (n.val / 2) candidates seen version
      if verified.length < n.val then
        .error (.insufficientPeers verified.length n.val verified)
      else .ok (sortByDistance c addr verified)

def getClosestPeersWithMajorityKnowledge (c : Crypto) (key : NetworkAddress)
    (kad : Except ε (List PeerInfo)) (results : List (PeerId × Except ε PeersList))
    (version : VersionAnswers) : Except (ClosestPeersError ε) (List PeerInfo) :=
  match kad with
  | .error e => .error (.network e)
  | .ok candidates =>
    if candidates.isEmpty then .error .getClosestTimedOut
    else
      let seen := Sightings.ofResults c (· ++ ·) results
      let n := candidates.length
      .ok (sortByDistance c key (selectPeers c key n (n / 2) candidates seen version))

end Autonomi
