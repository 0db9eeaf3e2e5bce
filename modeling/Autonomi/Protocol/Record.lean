/-
Records: what is stored under a key, and what clients send.

A record's value is a two byte header naming its kind, and a MessagePack body.  The
body is decoded by type, and the encodings of the types are told apart by their
shape, so a body decodes as at most one of them.  A value is therefore modelled by
what its header and its body read as; a body that reads as nothing keeps its bytes.
-/
import Autonomi.Evm.DataPayments
import Autonomi.Evm.MerklePayment
import Autonomi.Protocol.Storage

namespace Autonomi

open Lib

/-- One item as a client sends it along with a payment. -/
inductive Item
  | chunk (chunk : Chunk)
  | scratchpad (scratchpad : Scratchpad)
  | graphEntry (entry : GraphEntry)
  | pointer (pointer : Pointer)
deriving DecidableEq

namespace Item

def asChunk : Item → Option Chunk
  | .chunk ch => some ch
  | _ => none

def asScratchpad : Item → Option Scratchpad
  | .scratchpad s => some s
  | _ => none

def asGraphEntry : Item → Option GraphEntry
  | .graphEntry e => some e
  | _ => none

def asPointer : Item → Option Pointer
  | .pointer p => some p
  | _ => none

end Item

/-- What a record's body decodes as. -/
inductive Body
  | chunk (chunk : Chunk)
  | scratchpad (scratchpad : Scratchpad)
  | graphEntries (entries : List GraphEntry)
  | pointer (pointer : Pointer)
  | paid (payment : ProofOfPayment) (item : Item)
  | merklePaid (proof : MerklePaymentProof) (item : Item)
  | unreadable (bytes : Bytes)
deriving DecidableEq

structure RecordValue where
  /-- The kind in the header; `none` if the header does not parse. -/
  kind : Option RecordKind
  body : Body
deriving DecidableEq

/-- A Kademlia record; publisher and expiry are never set. -/
structure Record where
  key : RecordKey
  value : RecordValue
deriving DecidableEq

namespace RecordValue

/-- The value as raw bytes are hashed: header and body serialised. -/
def contentHash (c : Crypto) (serialize : RecordValue → Bytes) (v : RecordValue) : XorName :=
  c.fromContent (serialize v)

variable (v : RecordValue)

def getDataType : Option DataTypes := v.kind.map RecordKind.dataType

def asScratchpad : Option Scratchpad :=
  match v.body with
  | .scratchpad s => some s
  | _ => none

def asGraphEntries : Option (List GraphEntry) :=
  match v.body with
  | .graphEntries es => some es
  | _ => none

def asPointer : Option Pointer :=
  match v.body with
  | .pointer p => some p
  | _ => none

def asChunk : Option Chunk :=
  match v.body with
  | .chunk chunk => some chunk
  | _ => none

def paidAs {α : Type} (proj : Item → Option α) (v : RecordValue) : Option (ProofOfPayment × α) :=
  match v.body with
  | .paid payment item => (proj item).map fun a => (payment, a)
  | _ => none

def merklePaidAs {α : Type} (proj : Item → Option α) (v : RecordValue) :
    Option (MerklePaymentProof × α) :=
  match v.body with
  | .merklePaid proof item => (proj item).map fun a => (proof, a)
  | _ => none

/-! The values a node writes: `try_serialize_record` with a `DataOnly` header. -/

def ofChunk (chunk : Chunk) : RecordValue := ⟨some (.dataOnly .chunk), .chunk chunk⟩

def ofScratchpad (s : Scratchpad) : RecordValue := ⟨some (.dataOnly .scratchpad), .scratchpad s⟩

def ofGraphEntries (es : List GraphEntry) : RecordValue :=
  ⟨some (.dataOnly .graphEntry), .graphEntries es⟩

def ofPointer (p : Pointer) : RecordValue := ⟨some (.dataOnly .pointer), .pointer p⟩

end RecordValue

end Autonomi
