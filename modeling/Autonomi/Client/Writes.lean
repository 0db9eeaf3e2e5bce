/-
How a client writes pointers, scratchpads and graph entries.

What is new is paid for.  The nodes that made the quotes are sent the item with the
proof of its payment; if nothing had to be paid, a pointer or a scratchpad is sent
without one, while a graph entry is taken to exist already.  Updates of pointers and
scratchpads are free: the version found is replaced by one with the next counter.
-/
import Autonomi.Client.Payment
import Autonomi.Client.Reads
import Mathlib.Order.Lattice.Nat

namespace Autonomi

open Lib
open Fallible (attempt fromExcept mapError)

/-! ### Signed data -/

def Pointer.new (c : Crypto) (rmpTarget : PointerTarget → Bytes) (owner : SecretKey)
    (counter : UInt64) (target : PointerTarget) : Pointer :=
  let unsigned : Pointer := ⟨c.blsPublicKey owner, counter, target, Vector.replicate 96 0⟩
  { unsigned with signature := c.blsSign owner (unsigned.bytesForSignature rmpTarget) }

def GraphEntry.new (c : Crypto) (owner : SecretKey) (parents : List PublicKey) (content : Bytes32)
    (descendants : List (PublicKey × Bytes32)) : GraphEntry :=
  let unsigned : GraphEntry :=
    ⟨c.blsPublicKey owner, parents, content, descendants, Vector.replicate 96 0⟩
  { unsigned with signature := c.blsSign owner unsigned.bytesForSignature }

/-- Size of the struct itself and of the keys and contents in its lists. -/
def GraphEntry.size (structSize : Nat) (e : GraphEntry) : Nat :=
  structSize + e.descendants.length * (48 + 32) + e.parents.length * 48

/-- `Scratchpad::new`, with what encryption draws at random. -/
def Scratchpad.new (c : Crypto) (drawn : Bytes32) (owner : SecretKey) (dataEncoding : UInt64)
    (unencryptedData : Bytes) (counter : UInt64) : Scratchpad :=
  let key := c.blsPublicKey owner
  let unsigned : Scratchpad :=
    ⟨key, dataEncoding, c.blsEncrypt key drawn unencryptedData, counter, Vector.replicate 96 0⟩
  { unsigned with signature := c.blsSign owner unsigned.bytesForSignature }

inductive DecryptionError
  | scratchpadCipherTextFailed
  | scratchpadCipherTextInvalid
deriving DecidableEq

def Scratchpad.decryptData (c : Crypto) (s : Scratchpad) (key : SecretKey) :
    Except DecryptionError Bytes :=
  if c.blsIsCiphertext s.encryptedData then
    Checks.okOr (c.blsDecrypt key s.encryptedData) .scratchpadCipherTextInvalid
  else .error .scratchpadCipherTextFailed

namespace Client

/-! ### Errors -/

/-- `PutError::Network`, with the payment that was made for it to be used again. -/
structure PutFailure where
  address : NetworkAddress
  networkError : NetworkError
  payment : Option Receipt

inductive GraphPutError
  | read (error : GraphError)
  | putError (failure : PutFailure)
  | pay (error : PayError)
  | alreadyExists (owner : PublicKey)

inductive PointerPutError
  | read (error : PointerError)
  | putError (failure : PutFailure)
  | pay (error : PayError)
  | pointerAlreadyExists (owner : PublicKey)
  | cannotUpdateNewPointer

inductive ScratchpadPutError
  | read (error : ScratchpadError)
  | putError (failure : PutFailure)
  | pay (error : PayError)
  | scratchpadAlreadyExists (owner : PublicKey)
  | cannotUpdateNewScratchpad

variable (client : Client)

/-! ### Puts -/

/-- Send an item with the proof of its payment to those who were paid. -/
def putPaid (address : NetworkAddress) (dataType : DataTypes) (item : Item) (receipt : Receipt)
    (proof : ProofOfPayment) (strategy : Strategy) : ClientM PutFailure Unit :=
  let record : Record := ⟨address.toRecordKey client.crypto,
    ⟨some (.dataWithPayment dataType), .paid proof item⟩⟩
  mapError (fun err => ⟨address, err, some receipt⟩)
    (putRecordWithRetries record (proof.payees client.crypto) strategy)

def putUnpaid (address : NetworkAddress) (value : RecordValue) (payment : Option Receipt)
    (strategy : Strategy) : ClientM PutFailure Unit := do
  let targetNodes ← mapError (fun err => ⟨address, err, none⟩)
    (getClosestPeersWithRetries address quotingCandidates)
  mapError (fun err => ⟨address, err, payment⟩)
    (putRecordWithRetries ⟨address.toRecordKey client.crypto, value⟩ targetNodes strategy)

/-- What `pointer_put` and `scratchpad_put` do once the item is paid for: what has no proof of
payment was paid for before. -/
def putItem (address : NetworkAddress) (name : XorName) (dataType : DataTypes) (item : Item)
    (value : RecordValue) (receipt : Receipt) (strategy : Strategy) :
    ClientM PutFailure Amount :=
  match receipt.lookup name with
  | some (proof, price) => do
    client.putPaid address dataType item receipt proof strategy
    return price
  | none => do
    client.putUnpaid address value (some receipt) strategy
    return 0

/-- What the `check_existence` functions do: a split record is a record. -/
def checkExistence (address : NetworkAddress) (strategy : Strategy) :
    ClientM NetworkError Bool := do
  match ← attempt (getRecord address strategy.verificationQuorum) with
  | .ok none => return false
  | .ok (some _) => return true
  | .error (.splitRecord _) => return true
  | .error err => throw err

/-! ### Graph entries -/

def graphEntryPut (entry : GraphEntry) (paymentOption : PaymentOption) :
    ClientM GraphPutError (Amount × PublicKey) := do
  let xorName := ownerName client.crypto entry.owner
  let (paymentProofs, _) ← mapError .pay (client.payForContentAddrs .graphEntry
    [(xorName, entry.size client.graphEntryStructSize)] paymentOption)
  match paymentProofs.lookup xorName with
  -- skipped, meaning that it was already paid for
  | none => throw (.alreadyExists entry.owner)
  | some (proof, price) =>
    mapError .putError (client.putPaid (.graphEntryAddress entry.owner) .graphEntry
      (.graphEntry entry) paymentProofs proof client.graphEntry)
    return (price, entry.owner)

/-! ### Pointers -/

def pointerCheckExistence (owner : PublicKey) : ClientM PointerPutError Bool :=
  mapError (fun err => .read (.getError (.network err)))
    (checkExistence (.pointerAddress owner) client.pointer)

def pointerPut (pointer : Pointer) (paymentOption : PaymentOption) :
    ClientM PointerPutError (Amount × PublicKey) := do
  let xorName := ownerName client.crypto pointer.owner
  let (paymentProofs, _) ← mapError .pay (client.payForContentAddrs .pointer
    [(xorName, client.pointerStructSize)] paymentOption)
  let totalCost ← mapError .putError (client.putItem (.pointerAddress pointer.owner) xorName
    .pointer (.pointer pointer) (.ofPointer pointer) paymentProofs client.pointer)
  return (totalCost, pointer.owner)

def pointerCreate (owner : SecretKey) (target : PointerTarget) (paymentOption : PaymentOption) :
    ClientM PointerPutError (Amount × PublicKey) := do
  let address := client.crypto.blsPublicKey owner
  if ← client.pointerCheckExistence address then throw (.pointerAlreadyExists address)
  else client.pointerPut (.new client.crypto client.rmpTarget owner 0 target) paymentOption

def latestPointer : List Pointer → Option Pointer
  | [] => none
  | pointer :: pointers => match latestPointer pointers with
      | none => some pointer
      | some later =>
        if pointer.counter.toNat ≤ later.counter.toNat then some later else some pointer

def pointerUpdateFrom (current : Pointer) (owner : SecretKey) (newTarget : PointerTarget) :
    ClientM PointerPutError Pointer := do
  let pointer := Pointer.new client.crypto client.rmpTarget owner (current.counter + 1) newTarget
  mapError .putError (client.putUnpaid (.pointerAddress (client.crypto.blsPublicKey owner))
    (.ofPointer pointer) none client.pointer)
  return pointer

def pointerUpdate (owner : SecretKey) (target : PointerTarget) :
    ClientM PointerPutError Unit := do
  let address := client.crypto.blsPublicKey owner
  let current ← match ← attempt (client.pointerGet address) with
    | .ok pointer => pure (some pointer)
    | .error (.getError (.network (.splitRecord holders))) => do
      let records ← inAnyOrder (holders.map Prod.snd)
      pure (latestPointer (records.filterMap fun record => record.value.asPointer))
    | .error err => throw (.read err)
  match current with
  | some pointer => do
    let _ ← client.pointerUpdateFrom pointer owner target
    return ()
  | none => throw .cannotUpdateNewPointer

/-! ### Scratchpads -/

def scratchpadCheckExistence (owner : PublicKey) : ClientM ScratchpadPutError Bool :=
  mapError (fun err => .read (.getError err))
    (checkExistence (.scratchpadAddress owner) client.scratchpad)

def scratchpadPut (scratchpad : Scratchpad) (paymentOption : PaymentOption) :
    ClientM ScratchpadPutError (Amount × PublicKey) := do
  mapError .read (fromExcept (client.scratchpadVerify scratchpad))
  let xorName := ownerName client.crypto scratchpad.owner
  let (paymentProofs, _) ← mapError .pay (client.payForContentAddrs .scratchpad
    [(xorName, scratchpad.size client.scratchpadStructSize)] paymentOption)
  let totalCost ← mapError .putError (client.putItem (.scratchpadAddress scratchpad.owner) xorName
    .scratchpad (.scratchpad scratchpad) (.ofScratchpad scratchpad) paymentProofs
    client.scratchpad)
  return (totalCost, scratchpad.owner)

def scratchpadCreate (owner : SecretKey) (contentType : UInt64) (initialData : Bytes)
    (paymentOption : PaymentOption) : ClientM ScratchpadPutError (Amount × PublicKey) := do
  let address := client.crypto.blsPublicKey owner
  if ← client.scratchpadCheckExistence address then throw (.scratchpadAlreadyExists address)
  else
    let scratchpad := Scratchpad.new client.crypto (← random) owner contentType initialData 0
    client.scratchpadPut scratchpad paymentOption

def scratchpadPutUpdate (scratchpad : Scratchpad) : ClientM ScratchpadPutError Unit := do
  mapError .read (fromExcept (client.scratchpadVerify scratchpad))
  mapError .putError (client.putUnpaid (.scratchpadAddress scratchpad.owner)
    (.ofScratchpad scratchpad) none client.scratchpad)

/-- `scratchpad_update_from`; of the current scratchpad only the counter is used. -/
def scratchpadUpdateFrom (currentCounter : UInt64) (owner : SecretKey) (contentType : UInt64)
    (data : Bytes) : ClientM ScratchpadPutError Scratchpad := do
  let scratchpad := Scratchpad.new client.crypto (← random) owner contentType data
    (currentCounter + 1)
  client.scratchpadPutUpdate scratchpad
  return scratchpad

def latestCounter (scratchpads : Finset Scratchpad) : Option UInt64 :=
  if scratchpads = ∅ then none
  else some (UInt64.ofNat (scratchpads.sup fun scratchpad => scratchpad.counter.toNat))

def scratchpadUpdate (owner : SecretKey) (contentType : UInt64) (data : Bytes) :
    ClientM ScratchpadPutError Unit := do
  let address := client.crypto.blsPublicKey owner
  let current ← match ← attempt (client.scratchpadGet address) with
    | .ok scratchpad => pure (some scratchpad.counter)
    | .error (.notFound _) => pure none
    -- updates are there to resolve forks
    | .error (.fork scratchpads) => pure (latestCounter scratchpads)
    | .error err => throw (.read err)
  match current with
  | some counter => do
    let _ ← client.scratchpadUpdateFrom counter owner contentType data
    return ()
  | none => throw .cannotUpdateNewScratchpad

end Client

end Autonomi
