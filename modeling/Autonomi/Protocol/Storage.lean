/-
The data types of the network and where they are stored.

There are four: chunks, addressed by their content, and three kinds of data owned
by a key and addressed by it.  A record key is derived from an address, and the
derivation forgets which kind of address it was: the pointer, the scratchpad and
the graph entries of one owner share a key, and so does a chunk that holds the
owner's public key.
-/
import Autonomi.Protocol.Crypto

namespace Autonomi

open Lib

inductive DataTypes
  | chunk | graphEntry | pointer | scratchpad
deriving DecidableEq

def DataTypes.getIndex : DataTypes → UInt32
  | chunk => 0
  | graphEntry => 1
  | pointer => 2
  | scratchpad => 3

/-- How a record's value is wrapped: bare, with a payment, or with a Merkle payment. -/
inductive RecordKind
  | dataOnly (dataType : DataTypes)
  | dataWithPayment (dataType : DataTypes)
  | dataWithMerklePayment (dataType : DataTypes)
deriving DecidableEq

def RecordKind.dataType : RecordKind → DataTypes
  | dataOnly t => t
  | dataWithPayment t => t
  | dataWithMerklePayment t => t

/-- What a stored record is compared by: chunks by presence, others by content. -/
inductive ValidationType
  | chunk
  | nonChunk (contentHash : XorName)
deriving DecidableEq

abbrev RecordKey := Bytes

/-! ### Chunks -/

/-- A chunk; its address is recomputed from the value whenever one is decoded. -/
structure Chunk where
  value : Bytes
deriving DecidableEq

namespace Chunk

def maxRawSize : Nat := 4 * 1024 * 1024

/-- Raw size, plus compression overhead and encryption padding. -/
def maxSize : Nat := maxRawSize + 16 + 16

def size (chunk : Chunk) : Nat := chunk.value.length

def name (c : Crypto) (chunk : Chunk) : XorName := c.fromContent chunk.value

end Chunk

/-! ### Addresses -/

def ownerName (c : Crypto) (owner : PublicKey) : XorName := c.fromContent owner.toList

inductive NetworkAddress
  | peerId (bytes : Bytes)
  | chunkAddress (name : XorName)
  | graphEntryAddress (owner : PublicKey)
  | scratchpadAddress (owner : PublicKey)
  | pointerAddress (owner : PublicKey)
  | recordKey (bytes : Bytes)
deriving DecidableEq

namespace NetworkAddress

def asBytes (c : Crypto) : NetworkAddress → Bytes
  | peerId bytes => bytes
  | recordKey bytes => bytes
  | chunkAddress name => name.toList
  | graphEntryAddress owner => (ownerName c owner).toList
  | scratchpadAddress owner => (ownerName c owner).toList
  | pointerAddress owner => (ownerName c owner).toList

def toRecordKey (c : Crypto) : NetworkAddress → RecordKey
  | recordKey bytes => bytes
  | chunkAddress name => name.toList
  | graphEntryAddress owner => (ownerName c owner).toList
  | pointerAddress owner => (ownerName c owner).toList
  | scratchpadAddress owner => (ownerName c owner).toList
  | peerId bytes => bytes

def asPeerId (c : Crypto) : NetworkAddress → Option PeerId
  | peerId bytes => c.peerIdFromBytes bytes
  | _ => none

/-- The XOR metric on hashed bytes. -/
def distance (c : Crypto) (a b : NetworkAddress) : Nat :=
  ofBeBytes (c.sha256 (a.asBytes c)).toList ^^^ ofBeBytes (c.sha256 (b.asBytes c)).toList

end NetworkAddress

/-! ### Pointers -/

inductive PointerTarget
  | chunkAddress (name : XorName)
  | graphEntryAddress (owner : PublicKey)
  | pointerAddress (owner : PublicKey)
  | scratchpadAddress (owner : PublicKey)
deriving DecidableEq

structure Pointer where
  owner : PublicKey
  counter : UInt64
  target : PointerTarget
  signature : Signature
deriving DecidableEq

namespace Pointer

/-- Counters that fit 32 bits are signed as such, for the sake of old pointers. -/
def counterBytes (counter : UInt64) : Bytes :=
  if counter.toNat > 2 ^ 32 - 1 then toLeBytes 8 counter.toNat else toLeBytes 4 counter.toNat

def bytesForSignature (rmpTarget : PointerTarget → Bytes) (p : Pointer) : Bytes :=
  p.owner.toList ++ counterBytes p.counter ++ rmpTarget p.target

def verifySignature (c : Crypto) (rmpTarget : PointerTarget → Bytes) (p : Pointer) : Bool :=
  c.blsVerify p.owner p.signature (p.bytesForSignature rmpTarget)

def address (p : Pointer) : NetworkAddress := .pointerAddress p.owner

end Pointer

/-! ### Scratchpads -/

structure Scratchpad where
  /-- The owner; the address is the owner's key. -/
  owner : PublicKey
  dataEncoding : UInt64
  encryptedData : Bytes
  counter : UInt64
  signature : Signature
deriving DecidableEq

namespace Scratchpad

def maxSize : Nat := 4 * 1024 * 1024

def addressHexBytes (owner : PublicKey) : Bytes :=
  (hexEncode owner.toList).toList.map fun ch => UInt8.ofNat ch.toNat

def bytesForSignature (s : Scratchpad) : Bytes :=
  toBeBytes 8 s.dataEncoding.toNat ++ addressHexBytes s.owner ++ toBeBytes 8 s.counter.toNat
    ++ s.encryptedData

def verifySignature (c : Crypto) (s : Scratchpad) : Bool :=
  c.blsVerify s.owner s.signature s.bytesForSignature

def size (structSize : Nat) (s : Scratchpad) : Nat := structSize + s.encryptedData.length

def isTooBig (structSize : Nat) (s : Scratchpad) : Bool := s.size structSize > maxSize

def networkAddress (s : Scratchpad) : NetworkAddress := .scratchpadAddress s.owner

end Scratchpad

/-! ### Graph entries -/

structure GraphEntry where
  owner : PublicKey
  parents : List PublicKey
  content : Bytes32
  descendants : List (PublicKey × Bytes32)
  signature : Signature
deriving DecidableEq

namespace GraphEntry

def bytesForSignature (e : GraphEntry) : Bytes :=
  e.owner.toList ++ "parent".toUTF8.toList ++ blocks e.parents
    ++ "content".toUTF8.toList ++ e.content.toList
    ++ "descendants".toUTF8.toList
    ++ (e.descendants.map fun d => d.1.toList ++ d.2.toList).flatten

def verifySignature (c : Crypto) (e : GraphEntry) : Bool :=
  c.blsVerify e.owner e.signature e.bytesForSignature

def address (e : GraphEntry) : NetworkAddress := .graphEntryAddress e.owner

def compareBytes {n : Nat} (a b : Vector UInt8 n) : Ordering :=
  List.compareLex compare a.toList b.toList

/-- The derived order: field by field. -/
def cmp (a b : GraphEntry) : Ordering :=
  (compareBytes a.owner b.owner).then <|
  (List.compareLex compareBytes a.parents b.parents).then <|
  (compareBytes a.content b.content).then <|
  (List.compareLex (fun x y => (compareBytes x.1 y.1).then (compareBytes x.2 y.2))
    a.descendants b.descendants).then <|
  compareBytes a.signature b.signature

def le (a b : GraphEntry) : Bool := a.cmp b ≠ .gt

end GraphEntry

end Autonomi
