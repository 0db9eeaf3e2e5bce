/-
The record queries a client's driver has under way.

The handler has the queries that are open, what each of them has gathered, and the
answers sent to those who asked.

Peers send records with fields this code never sets, a publisher and an expiry.  The
handler compares records by all their fields at one place and by their values alone at
another, so what a record consists of besides its value is left open: `R` is the type of
records, and `value` gives the value of one.
-/
import Autonomi.Client.Network
import Autonomi.Lib.Table

namespace Autonomi.Client

open Lib

abbrev QueryId := Nat

/-- A record as `libp2p` hands it on. -/
structure PeerRecord extends Record where
  publisher : Option PeerId
  expires : Option Nat
deriving DecidableEq

inductive TaskHandlerError
  | unknownQuery (id : QueryId)
  | networkClientDropped (id : QueryId)
deriving DecidableEq

/-- What a caller is told if it gets no record. -/
inductive GetRecordError (R : Type)
  | splitRecord (holders : List (PeerId × R))
  | getRecordQuorumFailed (gotHolders expectedHolders : Nat) (holders : List (PeerId × R))
  | getRecordTimeout (peers : List PeerId)
deriving DecidableEq

/-- What a caller gets: the record if there is one, and who sent records. -/
abbrev GetRecordAnswer (R : Type) := Except (GetRecordError R) (Option R × List PeerId)

inductive GetRecordEvent (R : Type)
  | foundRecord (peer : Option PeerId) (record : R)
  | finished (finish : KadEnd)

structure TaskHandler (R : Type) where
  /-- The open queries, and how many peers have to agree. -/
  getRecord : Table QueryId Quorum
  getRecordAccumulator : Table QueryId (List (PeerId × R))
  /-- What callers have been sent, in order. -/
  answers : List (QueryId × GetRecordAnswer R)

namespace TaskHandler

variable {R V : Type} [DecidableEq R] [DecidableEq V] (value : R → V)

/-- `insert_task` for a record query -/
def insertTask (handler : TaskHandler R) (id : QueryId) (quorum : Quorum) : TaskHandler R :=
  { handler with getRecord := handler.getRecord.insert id quorum }

def insertHolder (holders : List (PeerId × R)) (peer : PeerId) (record : R) :
    List (PeerId × R) :=
  (holders.filter fun holder => holder.1 ≠ peer) ++ [(peer, record)]

/-- A record is kept if it is known who sent it. -/
def gather (holders : List (PeerId × R)) : Option PeerId → R → List (PeerId × R)
  | some peer, record => insertHolder holders peer record
  | none, _ => holders

def getMaxContentHoldersCount (holders : List (PeerId × R)) : Option Nat :=
  (holders.map fun holder =>
    holders.countP fun other => value other.2 = value holder.2).max?

variable (listens : QueryId → Bool)

/-- Send an answer; the caller may have gone away. -/
def respond (handler : TaskHandler R) (id : QueryId)
    (answer : GetRecordAnswer R) : TaskHandler R × Except TaskHandlerError Unit :=
  if listens id then ({ handler with answers := handler.answers ++ [(id, answer)] }, .ok ())
  else (handler, .error (.networkClientDropped id))

def consumeGetRecordTaskAndHolders (handler : TaskHandler R) (id : QueryId) :
    Except TaskHandlerError (Quorum × List (PeerId × R) × TaskHandler R) :=
  match handler.getRecord.lookup id with
  | none => .error (.unknownQuery id)
  | some quorum =>
    .ok (quorum, (handler.getRecordAccumulator.lookup id).getD [],
      { handler with
        getRecord := handler.getRecord.erase id
        getRecordAccumulator := handler.getRecordAccumulator.erase id })

def resultOf (quorum : Quorum) (holders : List (PeerId × R)) : GetRecordAnswer R :=
  if holders.length < quorum.amount then
    .error (.getRecordQuorumFailed holders.length quorum.amount holders)
  else
    match (holders.map Prod.snd).dedup with
    | [] => .ok (none, holders.map Prod.fst)
    | [one] => .ok (some one, holders.map Prod.fst)
    | _ => .error (.splitRecord holders)

def sendGetRecordResult (handler : TaskHandler R) (id : QueryId) :
    TaskHandler R × Except TaskHandlerError Unit :=
  match handler.consumeGetRecordTaskAndHolders id with
  | .error e => (handler, .error e)
  | .ok (quorum, holders, handler) => handler.respond listens id (resultOf quorum holders)

def endQuery (handler : TaskHandler R) (id : QueryId)
    (answer : List PeerId → GetRecordAnswer R) : TaskHandler R × Except TaskHandlerError Unit :=
  match handler.consumeGetRecordTaskAndHolders id with
  | .error e => (handler, .error e)
  | .ok (_, holders, handler) => handler.respond listens id (answer (holders.map Prod.fst))

/-- `update_get_record`; tells whether the query can be finished. -/
def updateGetRecord (handler : TaskHandler R) (id : QueryId) :
    GetRecordEvent R → TaskHandler R × Except TaskHandlerError Bool
  | .foundRecord peer record =>
    let holders := gather ((handler.getRecordAccumulator.lookup id).getD []) peer record
    let gathered := { handler with
      getRecordAccumulator := handler.getRecordAccumulator.insert id holders }
    match handler.getRecord.lookup id with
    | none => (gathered, .ok false)
    | some quorum =>
      -- enough holders with the same content finish the task
      if (getMaxContentHoldersCount value holders).any fun count => quorum.amount ≤ count then
        let (handler, result) := gathered.sendGetRecordResult listens id
        (handler, result.map fun _ => true)
      else (gathered, .ok false)
  | .finished .finishedWithNoAdditionalRecord =>
    let (handler, result) := handler.sendGetRecordResult listens id
    (handler, result.map fun _ => true)
  | .finished .notFound =>
    let (handler, result) := handler.endQuery listens id fun peers => .ok (none, peers)
    (handler, result.map fun _ => false)
  | .finished .quorumFailed =>
    let (handler, result) := handler.endQuery listens id fun peers => .ok (none, peers)
    (handler, result.map fun _ => false)
  | .finished .timeout =>
    let (handler, result) :=
      handler.endQuery listens id fun peers => .error (.getRecordTimeout peers)
    (handler, result.map fun _ => false)

def run (id : QueryId) (handler : TaskHandler R)
    (events : List (GetRecordEvent R)) : TaskHandler R :=
  events.foldl (fun handler event => (handler.updateGetRecord value listens id event).1) handler

def foundRecords (id : QueryId) (handler : TaskHandler R)
    (found : List (PeerId × R)) : TaskHandler R :=
  handler.run value listens id (found.map fun e => .foundRecord (some e.1) e.2)

end TaskHandler

end Autonomi.Client
