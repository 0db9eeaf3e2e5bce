/-
Where a node gets the addresses of its first peers from.

Addresses that are given are queued at once.  When the queue is empty the cache file is
read, once, and then one contacts endpoint after the other is asked, each in a task of
its own that sends its addresses over a channel.  `next_addr` takes what has arrived,
hands out the front of the queue, and starts the next fetch when there is nothing to
hand out and nothing under way.

The tasks run beside the calls.  `BootstrapRun` is a node with its tasks and its
channel, and `bootstrapStep` lets one of them take a step: a call looks at the channel
once, or decides what to do with an empty channel, a task sends its event, or `new` goes
on.  Addresses are of any type; nothing is asked of one but the peer in it.
-/
import Autonomi.Bootstrap.Multiaddr
import Autonomi.Lib.Checks
import Autonomi.Lib.Transition

namespace Autonomi

/-- Minimum number of initial addresses to fetch before returning from `new`. -/
def minInitialAddrs : Nat := 5

abbrev Url := String

inductive FetchKind
  | cache
  | contacts
deriving DecidableEq

/-- What a task fetches: the cache, or the contacts at one endpoint. -/
inductive FetchTarget
  | cache
  | contacts (endpoint : Url)
deriving DecidableEq

inductive FetchEvent (A : Type)
  | cache (addrs : List A)
  | contacts (addrs : List A)
deriving DecidableEq

def FetchEvent.addrs {A : Type} : FetchEvent A → List A
  | cache addrs => addrs
  | contacts addrs => addrs

/-- The event a task ends with; a failed or timed out fetch has no addresses. -/
def FetchTarget.event {A : Type} (addrs : List A) : FetchTarget → FetchEvent A
  | cache => .cache addrs
  | contacts _ => .contacts addrs

structure Bootstrap (A : Type) where
  addrs : List A
  cachePending : Bool
  /-- The endpoints that remain to be asked. -/
  contactsProgress : Option (List Url)
  fetchInProgress : Option FetchKind
  bootstrapPeerIds : List PeerId
deriving DecidableEq

/-- The rest of the crate and of the machine. -/
structure BootstrapEnv (A : Type) where
  multiaddrGetPeerId : A → Option PeerId
  /-- `craft_valid_multiaddr(addr, false)` and the same from a text. -/
  craftValidMultiaddr : A → Option A
  craftValidMultiaddrFromStr : String → Option A
  parseUrl : String → Option Url
  /-- The variable `ANT_PEERS`. -/
  antPeers : Option String
  networkId : UInt8
  /-- How `BootstrapCacheStore::new` and, for a first node, clearing the cache go. -/
  cacheStore : Except BootstrapError Unit
  clearCache : Except BootstrapError Unit

/-- The environment over multiaddresses, given how texts are parsed. -/
def BootstrapEnv.ofMultiaddr (parseMultiaddr : String → Option Multiaddr)
    (parseUrl : String → Option Url) (antPeers : Option String) (networkId : UInt8)
    (cacheStore clearCache : Except BootstrapError Unit) : BootstrapEnv Multiaddr where
  multiaddrGetPeerId := Autonomi.multiaddrGetPeerId
  craftValidMultiaddr := fun addr => Autonomi.craftValidMultiaddr addr false
  craftValidMultiaddrFromStr := fun text =>
    (parseMultiaddr text).bind fun addr => Autonomi.craftValidMultiaddr addr false
  parseUrl
  antPeers
  networkId
  cacheStore
  clearCache

def mainnetId : UInt8 := 1

def alphanetId : UInt8 := 2

def mainnetContacts : List String :=
  ["https://sn-testnet.s3.eu-west-2.amazonaws.com/network-contacts",
    "http://159.89.251.80/bootstrap_cache.json",
    "http://159.65.210.89/bootstrap_cache.json",
    "http://159.223.246.45/bootstrap_cache.json",
    "http://139.59.201.153/bootstrap_cache.json",
    "http://139.59.200.27/bootstrap_cache.json"]

def alphanetContacts : List String :=
  ["http://188.166.133.208/bootstrap_cache.json",
    "http://188.166.133.125/bootstrap_cache.json",
    "http://178.128.137.64/bootstrap_cache.json",
    "http://159.223.242.7/bootstrap_cache.json",
    "http://143.244.197.147/bootstrap_cache.json"]

variable {A : Type}

section Endpoints

variable (env : BootstrapEnv A)

def contactsProgressNew (urls : List Url) : Option (List Url) :=
  if urls = [] then none else some urls

/-- `ContactsProgress::from_static`: an endpoint that does not parse is left out. -/
def contactsProgressFromStatic (urls : List String) : Option (List Url) :=
  contactsProgressNew (urls.filterMap env.parseUrl)

def buildContactsProgress (config : BootstrapConfig A) :
    Except BootstrapError (Option (List Url)) :=
  if config.first = true then
    .ok none
  else if config.localNetwork = true then
    .ok none
  else if config.networkContactsUrl ≠ [] then do
    let endpoints ← config.networkContactsUrl.mapM fun endpoint =>
      Lib.Checks.okOr (env.parseUrl endpoint) .failedToParseUrl
    return contactsProgressNew endpoints
  else if env.networkId = mainnetId then
    .ok (contactsProgressFromStatic env mainnetContacts)
  else if env.networkId = alphanetId then
    .ok (contactsProgressFromStatic env alphanetContacts)
  else
    .ok none

/-- The valid addresses in `ANT_PEERS`, which are separated by commas. -/
def fetchFromEnv : List A :=
  match env.antPeers with
  | some addrs => (addrs.splitOn ",").filterMap env.craftValidMultiaddrFromStr
  | none => []

/-- What a node is given: the environment's addresses and those of the command line. -/
def givenAddrs (config : BootstrapConfig A) : List A :=
  if config.first = true then
    []
  else
    (if config.disableEnvPeers = true then [] else fetchFromEnv env)
      ++ config.initialPeers.filterMap env.craftValidMultiaddr

end Endpoints

/-! ### The queue and the fetches -/

namespace Bootstrap

section Queue

variable (peerIdOf : A → Option PeerId)

variable (b : Bootstrap A)

def pushAddr (addr : A) : Bootstrap A :=
  { b with
    addrs := b.addrs ++ [addr]
    bootstrapPeerIds := match peerIdOf addr with
      | some peerId => b.bootstrapPeerIds.insert peerId
      | none => b.bootstrapPeerIds }

def extendWithAddrs (addrs : List A) : Bootstrap A :=
  addrs.foldl (pushAddr peerIdOf) b

/-- One round of `process_events`, with the event that was received. -/
def processEvent (event : FetchEvent A) : Bootstrap A :=
  let b' : Bootstrap A := match event with
    | .cache addrs => if addrs.isEmpty = true then b else b.extendWithAddrs peerIdOf addrs
    | .contacts addrs =>
      let extended := b.extendWithAddrs peerIdOf addrs
      if extended.contactsProgress.all List.isEmpty = true then
        { extended with contactsProgress := none }
      else
        extended
  { b' with fetchInProgress := none }

/-- Put the collected addresses into the queue, if there are enough of them. -/
def tryFinalizeInitialAddrs (collected : List A) (minAddress : Nat) : Option (Bootstrap A) :=
  if collected.length < minAddress then none else some (b.extendWithAddrs peerIdOf collected)

end Queue

def startCacheFetch (b : Bootstrap A) : Bootstrap A × Option FetchTarget :=
  if b.fetchInProgress = some .cache then
    (b, none)
  else
    ({ b with cachePending := false, fetchInProgress := some .cache }, some .cache)

def startContactsFetch (b : Bootstrap A) : Bootstrap A × Option FetchTarget :=
  if b.fetchInProgress = some .contacts then
    (b, none)
  else
    match b.contactsProgress with
    | none => (b, none)
    | some [] => ({ b with contactsProgress := none }, none)
    | some (endpoint :: rest) =>
      ({ b with contactsProgress := some rest, fetchInProgress := some .contacts },
        some (.contacts endpoint))

end Bootstrap

inductive Turn (A : Type)
  | again
  | done (result : Except BootstrapError (Option A))

/-- A round of the loop in `next_addr` once there is no event left: the state after it, the fetch
it spawned, and how it ends. -/
def Bootstrap.nextAddrTurn (b : Bootstrap A) : Bootstrap A × Option FetchTarget × Turn A :=
  match b.addrs with
  | addr :: rest => ({ b with addrs := rest }, none, .done (.ok (some addr)))
  | [] =>
    if b.fetchInProgress.isSome = true then
      (b, none, .done (.ok none))
    else if b.cachePending = true ∧ b.fetchInProgress ≠ some .cache then
      let (started, spawned) := b.startCacheFetch
      (started, spawned, .again)
    else if b.contactsProgress.isSome = true ∧ b.fetchInProgress ≠ some .contacts then
      let (started, spawned) := b.startContactsFetch
      if started.fetchInProgress.isSome = true then
        (started, spawned, .done (.ok none))
      else
        (started, spawned, .again)
    else
      (b, none, .done (.error .noBootstrapPeersFound))

/-! ### The node, its tasks and its channel -/

inductive CallPoint
  /-- About to look at the channel. -/
  | draining
  /-- The channel was empty. -/
  | deciding
deriving DecidableEq

/-- Who called `next_addr`: `new`, with the addresses it has collected, or someone else. -/
inductive Caller (A : Type)
  | new (collected : List A)
  | user
deriving DecidableEq

inductive BootstrapPhase (A : Type)
  | calling (caller : Caller A) (point : CallPoint)
  /-- `new` tries to finalize; without enough addresses it goes on, or fails with an error. -/
  | finalizing (collected : List A) (refused : Option BootstrapError)
  /-- `new` has nothing to go on with and waits. -/
  | waiting (collected : List A)
  | failed (error : BootstrapError)
  /-- `new` is over and no call is running. -/
  | idle
deriving DecidableEq

/-- How many addresses `new` asks for: the minimum while it can go on, or else any. -/
def minAddress : Option BootstrapError → Nat
  | none => minInitialAddrs
  | some _ => 1

structure BootstrapRun (A : Type) where
  bootstrap : Bootstrap A
  /-- The fetches whose event has not been sent. -/
  inFlight : List FetchTarget
  channel : List (FetchEvent A)
  phase : BootstrapPhase A
  /-- History: every address a source has come up with, every fetch that was started, and what the
  calls after `new` have returned. -/
  delivered : List A
  tried : List FetchTarget
  results : List (Except BootstrapError (Option A))
deriving DecidableEq

inductive BootstrapLabel (A : Type)
  /-- `next_addr` is called. -/
  | call
  /-- The running call takes its next step. -/
  | advance
  /-- A task sends its event. -/
  | finish (i : Nat) (addrs : List A)
  /-- `new` looks whether it has enough addresses. -/
  | finalize
  /-- `new` has waited, for too long or not. -/
  | wake (timedOut : Bool)

namespace BootstrapRun

def answer (s : BootstrapRun A) (result : Except BootstrapError (Option A)) :
    Caller A → BootstrapRun A
  | .user => { s with phase := .idle, results := s.results ++ [result] }
  | .new collected =>
    match result with
    | .ok (some addr) =>
      { s with phase := .finalizing (collected ++ [addr]) none }
    | .ok none => { s with phase := .waiting collected }
    | .error e => { s with phase := .finalizing collected (some e) }

/-- The channel was empty: the rest of the round. -/
def decideTurn (s : BootstrapRun A) (caller : Caller A) : BootstrapRun A :=
  let (bootstrap, spawned, turn) := s.bootstrap.nextAddrTurn
  let s' : BootstrapRun A := { s with
    bootstrap
    inFlight := s.inFlight ++ spawned.toList
    tried := s.tried ++ spawned.toList }
  match turn with
  | .again => { s' with phase := .calling caller .draining }
  | .done result => s'.answer result caller

def returned (s : BootstrapRun A) : List A :=
  s.results.filterMap fun result => match result with
    | .ok addr => addr
    | .error _ => none

end BootstrapRun

def bootstrapStep (peerIdOf : A → Option PeerId) (s : BootstrapRun A) :
    BootstrapLabel A → Option (BootstrapRun A)
  | .call =>
    match s.phase with
    | .idle => some { s with phase := .calling .user .draining }
    | _ => none
  | .advance =>
    match s.phase with
    | .calling caller .draining =>
      match s.channel with
      | event :: rest =>
        some { s with channel := rest, bootstrap := s.bootstrap.processEvent peerIdOf event }
      | [] => some { s with phase := .calling caller .deciding }
    | .calling caller .deciding => some (s.decideTurn caller)
    | _ => none
  | .finish i addrs =>
    (s.inFlight[i]?).map fun target =>
      { s with
        inFlight := s.inFlight.eraseIdx i
        channel := s.channel ++ [target.event addrs]
        delivered := s.delivered ++ addrs }
  | .finalize =>
    match s.phase with
    | .finalizing collected refused =>
      match s.bootstrap.tryFinalizeInitialAddrs peerIdOf collected (minAddress refused) with
      | some bootstrap => some { s with bootstrap, phase := .idle }
      | none =>
        match refused with
        | none => some { s with phase := .calling (.new collected) .draining }
        | some e => some { s with phase := .failed e }
    | _ => none
  | .wake timedOut =>
    match s.phase with
    | .waiting collected =>
      if timedOut = true then
        some { s with phase := .finalizing collected (some .noBootstrapPeersFound) }
      else
        some { s with phase := .calling (.new collected) .draining }
    | _ => none

/-- `new` with everything given queued; with too few addresses it goes on to collect more. -/
def bootstrapStarted (env : BootstrapEnv A) (config : BootstrapConfig A)
    (contactsProgress : Option (List Url)) : BootstrapRun A :=
  let given := givenAddrs env config
  let empty : Bootstrap A :=
    { addrs := []
      cachePending := !config.first && !config.disableCacheReading
      contactsProgress
      fetchInProgress := none
      bootstrapPeerIds := [] }
  let bootstrap := empty.extendWithAddrs env.multiaddrGetPeerId given
  { bootstrap
    inFlight := []
    channel := []
    phase :=
      if config.first = true ∨ ¬ bootstrap.addrs.length < minInitialAddrs then .idle
      else .calling (.new []) .draining
    delivered := given
    tried := []
    results := [] }

/-- `new`, up to where it starts to collect addresses. -/
def bootstrapNew (env : BootstrapEnv A) (config : BootstrapConfig A) :
    Except BootstrapError (BootstrapRun A) := do
  let contactsProgress ← buildContactsProgress env config
  env.cacheStore
  if config.first = true then
    env.clearCache
  return bootstrapStarted env config contactsProgress

/-- The fetches that remain to be made: the cache, and then the endpoints. -/
def Bootstrap.pendingTargets (b : Bootstrap A) : List FetchTarget :=
  (if b.cachePending = true then [.cache] else []) ++ (b.contactsProgress.getD []).map .contacts

/-- The fetches a node that is not the first is configured for. -/
def fetchTargets (env : BootstrapEnv A) (config : BootstrapConfig A) : List FetchTarget :=
  (if config.disableCacheReading = true then [] else [.cache]) ++
    match buildContactsProgress env config with
    | .ok endpoints => (endpoints.getD []).map .contacts
    | .error _ => []

end Autonomi
