/-
The bootstrap cache: peers in memory, and a file that several processes share.

A process flushes its cache from time to time: the file is read and merged into the
memory, peers queued for removal are taken out, the memory is written to the file, and
then the memory is cleared.  Each of these takes the locks it needs for itself, so that
anything may happen in between: the same process adds another peer, or another process
reads or writes the file.

`flushStep` is one such part of a flush, and `cacheStep` a step of the machine with all
its processes.  Times and version texts in the file are left out; nothing reads them.
The order in which a hash map is gone through is any order.
-/
import Autonomi.Bootstrap.Multiaddr
import Autonomi.Lib.Transition

namespace Autonomi

open Lib

abbrev CachedPeer := PeerId × List Multiaddr

structure CacheData where
  peers : List CachedPeer
deriving DecidableEq

namespace CacheData

def peerIds (data : CacheData) : List PeerId := data.peers.map Prod.fst

def updatePeer (peerId : PeerId) (f : List Multiaddr → List Multiaddr) :
    List CachedPeer → List CachedPeer
  | [] => []
  | (id, addrs) :: rest =>
    if id = peerId then (id, f addrs) :: rest else (id, addrs) :: updatePeer peerId f rest

/-- Add a peer to the front as the newest, or its addresses to those it has. -/
def addPeer (data : CacheData) (peerId : PeerId) (addrs : List Multiaddr)
    (maxAddrsPerPeer maxPeers : Nat) : CacheData :=
  let peers :=
    if peerId ∈ data.peerIds then
      updatePeer peerId (fun present =>
        (addrs.foldl (fun l addr => if addr ∈ l then l else addr :: l) present).take
          maxAddrsPerPeer) data.peers
    else
      (peerId, addrs.take maxAddrsPerPeer) :: data.peers
  ⟨peers.take maxPeers⟩

def removePeer (data : CacheData) (peerId : PeerId) : CacheData :=
  ⟨data.peers.filter fun peer => peer.1 ≠ peerId⟩

/-- The peers as a hash map; of several entries of one peer the last stays. -/
def peerMap (data : CacheData) : Table PeerId (List Multiaddr) :=
  (data.peers.map fun peer => (⟨peer.1, peer.2⟩ : Σ _ : PeerId, List Multiaddr)).foldl
    (fun m entry => m.insert entry.1 entry.2) ∅

/-- The addresses of a peer of ours, and behind them those of the other cache that we lack. -/
def mergeAddrs (maxAddrsPerPeer : Nat) (addrs : List Multiaddr) :
    Option (List Multiaddr) → List Multiaddr
  | some other =>
    (other.foldl (fun l addr => if addr ∈ l then l else l ++ [addr]) addrs).take maxAddrsPerPeer
  | none => addrs

/-- Merge the peers both have; the peers of the other that are left. -/
def mergePeers (maxAddrsPerPeer : Nat) : List CachedPeer → Table PeerId (List Multiaddr) →
    List CachedPeer × Table PeerId (List Multiaddr)
  | [], other => ([], other)
  | (peerId, addrs) :: rest, other =>
    let (merged, left) := mergePeers maxAddrsPerPeer rest (other.erase peerId)
    ((peerId, mergeAddrs maxAddrsPerPeer addrs (other.lookup peerId)) :: merged, left)

def entriesOf (table : Table PeerId (List Multiaddr)) : List CachedPeer :=
  table.entries.map fun entry => (entry.1, entry.2)

def leftPeers (data other : CacheData) (maxAddrsPerPeer : Nat) : List CachedPeer :=
  entriesOf (mergePeers maxAddrsPerPeer data.peers other.peerMap).2

/-- Take over what another cache has; `iterated` are the peers only it has, in the order in which
the hash map is gone through. -/
def sync (data other : CacheData) (maxAddrsPerPeer maxPeers : Nat) (iterated : List CachedPeer) :
    CacheData :=
  let ours := (mergePeers maxAddrsPerPeer data.peers other.peerMap).1.take maxPeers
  ⟨ours ++ iterated.take (maxPeers - ours.length)⟩

end CacheData

/-- What the file of either format parses to, if it is there and parses.  The older format is a
map. -/
structure CacheFiles where
  latest : Option CacheData
  older : Option (Table PeerId (List Multiaddr))

/-- How writing the file goes; it is written in place, and a failed write leaves anything behind. -/
inductive WriteOutcome
  | succeeded
  | failed (left : Option CacheData) (error : BootstrapError)
deriving DecidableEq

/-! ### A flush -/

/-- Where a flush stands.  What the file held when it was read, `found`, and what was written to
it are kept for the record only. -/
inductive FlushPoint
  | check
  | load
  | loadOlder (found : Option CacheData)
  | merge (found : Option CacheData) (data : CacheData)
  | drain (found : Option CacheData)
  | remove (found : Option CacheData) (queue : List PeerId)
  | write (found : Option CacheData)
  | writeOlder (written : CacheData)
  | clear (written : CacheData)
deriving DecidableEq

/-- The next part of a flush, with what the surroundings decide about it. -/
inductive FlushAction
  | check
  /-- Whether the file can be opened, locked and read. -/
  | load (readable : Bool)
  /-- The peers of the older file in the order in which its map is gone through, if it can be
  read. -/
  | loadOlder (iterated : Option (List CachedPeer))
  | merge (iterated : List CachedPeer)
  | drain
  | remove
  | write (outcome : WriteOutcome)
  | writeOlder (outcome : Except BootstrapError Unit)
  | clear

structure FlushView where
  memory : CacheData
  toRemove : List PeerId
  files : CacheFiles

inductive FlushNext
  | goOn (point : FlushPoint)
  | done (result : Except BootstrapError Unit)

/-- `load_cache_data` in the latest format; where the flush goes on. -/
def loadLatest (maxCachedPeers : Nat) (latest : Option CacheData) (readable : Bool) : FlushPoint :=
  match latest, readable with
  | some data, true => .merge latest ⟨data.peers.take maxCachedPeers⟩
  | _, _ => .loadOlder latest

/-- `load_cache_data` in the older format.  Without either the file is to be overwritten. -/
def loadOlder (maxCachedPeers : Nat) (found : Option CacheData)
    (older : Option (Table PeerId (List Multiaddr))) :
    Option (List CachedPeer) → Option FlushPoint
  | none => some (.drain found)
  | some iterated =>
    older.bind fun table =>
      if iterated.Perm (CacheData.entriesOf table) then
        some (.merge found ⟨iterated.take maxCachedPeers⟩)
      else
        none

/-- A part of `sync_and_flush_to_disk`: what is done under one lock, or in one look at a file. -/
def flushStep (config : BootstrapConfig Multiaddr) (v : FlushView) :
    FlushPoint → FlushAction → Option (FlushView × FlushNext)
  | .check, .check =>
    if config.disableCacheWriting = true ∨ v.memory.peers = [] then
      some (v, .done (.ok ()))
    else
      some (v, .goOn .load)
  | .load, .load readable =>
    some (v, .goOn (loadLatest config.maxCachedPeers v.files.latest readable))
  | .loadOlder found, .loadOlder iterated =>
    (loadOlder config.maxCachedPeers found v.files.older iterated).map fun point =>
      (v, .goOn point)
  | .merge found data, .merge iterated =>
    if iterated.Perm (v.memory.leftPeers data config.maxAddrsPerCachedPeer) then
      some ({ v with
        memory :=
          v.memory.sync data config.maxAddrsPerCachedPeer config.maxCachedPeers iterated },
        .goOn (.drain found))
    else
      none
  | .drain found, .drain => some ({ v with toRemove := [] }, .goOn (.remove found v.toRemove))
  | .remove found [], .remove => some (v, .goOn (.write found))
  | .remove found (peerId :: queue), .remove =>
    some ({ v with memory := v.memory.removePeer peerId }, .goOn (.remove found queue))
  -- The memory stays locked while the file is written, so that it is the memory that is written.
  | .write _, .write .succeeded =>
    some ({ v with files := { v.files with latest := some v.memory } },
      .goOn (if config.backwardsCompatibleWrites = true then .writeOlder v.memory
        else .clear v.memory))
  | .write _, .write (.failed left error) =>
    some ({ v with files := { v.files with latest := left } }, .done (.error error))
  -- The older file is replaced as a whole, or not at all.
  | .writeOlder written, .writeOlder (.ok _) =>
    some ({ v with files := { v.files with older := some v.memory.peerMap } },
      .goOn (.clear written))
  | .writeOlder _, .writeOlder (.error error) => some (v, .done (.error error))
  | .clear _, .clear => some ({ v with memory := ⟨[]⟩ }, .done (.ok ()))
  | _, _ => none

/-! ### The processes of a machine -/

/-- `add_addr`: relayed addresses and those that are not proper ones are not cached.  The peer that
is added, and the cache then. -/
def CacheData.addAddr (config : BootstrapConfig Multiaddr) (data : CacheData) (addr : Multiaddr) :
    Option (PeerId × CacheData) :=
  if MultiaddrProtocol.p2pCircuit ∈ addr then
    none
  else do
    let crafted ← craftValidMultiaddr addr false
    let peerId ← multiaddrGetPeerId crafted
    return (peerId,
      data.addPeer peerId [crafted] config.maxAddrsPerCachedPeer config.maxCachedPeers)

structure RunningFlush (I : Type) where
  process : I
  point : FlushPoint
deriving DecidableEq

/-- The processes, by the caches in their memories, with the files they share. -/
structure CacheState (I : Type) where
  memory : I → CacheData
  toRemove : I → List PeerId
  files : CacheFiles
  flushes : List (RunningFlush I)
  /-- History: the peers that were added and by whom, and how the flushes went. -/
  added : List (I × PeerId)
  results : List (Except BootstrapError Unit)

inductive CacheLabel (I : Type)
  | addAddr (i : I) (addr : Multiaddr)
  | queueRemovePeer (i : I) (peerId : PeerId)
  /-- `sync_and_flush_to_disk` is called. -/
  | flush (i : I)
  | step (k : Nat) (action : FlushAction)

variable {I : Type} [DecidableEq I]

def CacheState.flushed (s : CacheState I) (k : Nat) (i : I) (v : FlushView) :
    FlushNext → CacheState I
  | .goOn point =>
    { s with
      memory := Function.update s.memory i v.memory
      toRemove := Function.update s.toRemove i v.toRemove
      files := v.files
      flushes := s.flushes.set k ⟨i, point⟩ }
  | .done result =>
    { s with
      memory := Function.update s.memory i v.memory
      toRemove := Function.update s.toRemove i v.toRemove
      files := v.files
      flushes := s.flushes.eraseIdx k
      results := s.results ++ [result] }

def CacheState.view (s : CacheState I) (i : I) : FlushView := ⟨s.memory i, s.toRemove i, s.files⟩

def cacheStep (config : I → BootstrapConfig Multiaddr) (s : CacheState I) :
    CacheLabel I → Option (CacheState I)
  | .addAddr i addr =>
    match (s.memory i).addAddr (config i) addr with
    | none => some s
    | some (peerId, data) =>
      some { s with
        memory := Function.update s.memory i data
        added := s.added ++ [(i, peerId)] }
  | .queueRemovePeer i peerId =>
    some { s with
      toRemove := Function.update s.toRemove i ((s.toRemove i).insert peerId) }
  | .flush i => some { s with flushes := s.flushes ++ [⟨i, .check⟩] }
  | .step k action =>
    (s.flushes[k]?).bind fun flush =>
      (flushStep (config flush.process) (s.view flush.process) flush.point action).map
        fun outcome => s.flushed k flush.process outcome.1 outcome.2

end Autonomi
