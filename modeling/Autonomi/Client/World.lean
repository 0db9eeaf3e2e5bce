/-
The network as one store.

Seen from a client that is alone with its data, a network whose nodes agree is a table:
under each key there is what was put there.  `World` is that table, together with what
the client has drawn at random so far.

Everything the code cannot know beforehand is a field of `Network`: which peers answer a
query, in which order, what they quote, how the chain answers, which puts fail and what
the random numbers are.  Four fields say what a working network owes its clients: a
query finds the record, the closest peers are enough of them, quotes pass the client's
checks, and none of them goes without a price.

A put takes effect as in the nodes' store functions.  What comes without a payment is
refused unless there is something for it to replace; a payment that comes with a value
is taken to be good.
-/
import Autonomi.Client.Writes
import Autonomi.Lib.BTreeSet
import Autonomi.Lib.Environment

namespace Autonomi.Client

open Lib

/-! ### The store -/

structure World where
  store : RecordKey → Option RecordValue
  /-- What was drawn at random, latest last. -/
  drawn : List Bytes32
  /-- The number of requests answered. -/
  clock : Nat

/-- What is stored after an item has been put. -/
def Item.takenIn (old : Option RecordValue) : Item → RecordValue
  | .graphEntry entry => .ofGraphEntries
      (BTreeSet.extend GraphEntry.le [entry] ((old.bind RecordValue.asGraphEntries).getD []))
  | .pointer pointer => .ofPointer pointer
  | .scratchpad scratchpad => .ofScratchpad scratchpad
  | .chunk chunk => .ofChunk chunk

/-- The item in a value that is sent, with or without a payment. -/
def sentItem (value : RecordValue) : Option Item :=
  match value.body with
  | .paid _ item => some item
  | .merklePaid _ item => some item
  | .pointer pointer => some (.pointer pointer)
  | .scratchpad scratchpad => some (.scratchpad scratchpad)
  | _ => none

def isPaid (value : RecordValue) : Bool :=
  match value.body with
  | .paid _ _ => true
  | .merklePaid _ _ => true
  | _ => false

namespace World

def tick (w : World) : World := { w with clock := w.clock + 1 }

def record (c : Crypto) (w : World) (address : NetworkAddress) : Option Record :=
  (w.store (address.toRecordKey c)).map fun value => ⟨address.toRecordKey c, value⟩

/-- What is stored under an owner's key, of whatever type. -/
def under (c : Crypto) (w : World) (owner : PublicKey) : Option RecordValue :=
  w.store (ownerName c owner).toList

/-- Without a payment a value is accepted only in place of another. -/
def accepts (w : World) (record : Record) : Bool :=
  isPaid record.value || (w.store record.key).isSome

/-- A put takes effect; a value that is no item does not have one. -/
def put (w : World) (record : Record) : World :=
  match sentItem record.value with
  | some item =>
    let value := Item.takenIn (w.store record.key) item
    { w with store := Function.update w.store record.key (some value) }
  | none => w

def draw (w : World) (number : Bytes32) : World := { w with drawn := w.drawn ++ [number] }

end World

/-! ### The network -/

/-- What a client finds around it, besides the store. -/
structure Network (client : Client) where
  /-- The events of a query, by what is stored. -/
  query : Nat → NetworkAddress → Quorum → Option Record → KadQuery
  query_finds : ∀ time address quorum stored,
    updateGetRecord quorum (query time address quorum stored).finish
      (query time address quorum stored).found [] = .ok stored
  closestPeers : Nat → NetworkAddress → Nat → List PeerId
  closestPeers_enough : ∀ time address count,
    closeGroupSize ≤ (closestPeers time address count).length
  /-- The quote of a peer that does not hold the record. -/
  quote : Nat → NetworkAddress → PeerId → UInt32 → Nat → QuoteResponse
  quote_accepted : ∀ time address peer dataType size, ∃ accepted,
    client.verifyQuote (quote time address peer dataType size) dataType = .ok (some accepted)
  marketPrice : Nat → List QuotingMetrics → Except String (List Amount)
  /-- One price for each of the metrics, or one for all. -/
  marketPrice_complete : ∀ time metrics amounts, marketPrice time metrics = .ok amounts →
    amounts.length = metrics.length ∨ amounts.length = 1
  /-- The error a put fails with, if it does. -/
  putFails : Nat → Option NetworkError
  /-- The error of a put that is not accepted. -/
  refusal : Nat → NetworkError
  /-- The random numbers, in the order in which they are drawn. -/
  random : Nat → Bytes32
  /-- All other answers: of the chain, the disk and the clock, and the orders left open. -/
  other : Nat → (request : ClientRequest) → request.Response

namespace Network

variable {client : Client} (net : Network client)

def answer : Environment ClientRequest ClientRequest.Response World
  | w, .getRecord address quorum =>
    (.ok (net.query w.clock address quorum (w.record client.crypto address)), w.tick)
  | w, .getClosestPeers address count => (.ok (net.closestPeers w.clock address count), w.tick)
  | w, .getRecordFromPeer address _ => (.ok (w.record client.crypto address), w.tick)
  | w, .getQuote address peer dataType size =>
    (.ok (if (w.record client.crypto address).isSome then ⟨.error .recordExists, .peerId peer⟩
      else net.quote w.clock address peer dataType size), w.tick)
  | w, .getMarketPrice metrics => (net.marketPrice w.clock metrics, w.tick)
  | w, .putRecord record _ _ =>
    if w.accepts record then match net.putFails w.clock with
      | none => (.ok (), (w.put record).tick)
      | some error => (.error error, w.tick)
    else (.error (net.refusal w.clock), w.tick)
  | w, .random => (net.random w.drawn.length, (w.draw (net.random w.drawn.length)).tick)
  | w, request => (net.other w.clock request, w.tick)

def run {ε α : Type} (p : ClientM ε α) (w : World) : Except ε α × World :=
  Fallible.runIn net.answer p w

/-- The world a program leaves when it is cut off after some requests. -/
def stopped {ε α : Type} (requests : Nat) (p : ClientM ε α) (w : World) : World :=
  Fallible.stopped net.answer requests p w

end Network

end Autonomi.Client
