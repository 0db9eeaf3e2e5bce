/-
Registers: a value that can be changed, with its history.

A register is a chain of graph entries under keys derived from the owner's.  Each entry
holds one value and names, as its one descendant, the key of the next entry and the
index that key is derived with; the index is drawn at random.

Walking through a history ends when there is no next entry; the number of steps is
bounded here by an argument, and `none` means that it was not enough.
-/
import Autonomi.Client.Writes

namespace Autonomi.Client

open Lib
open Fallible (attempt fromExcept mapError)

abbrev RegisterValue := Bytes32

inductive Corruption
  | noValidDescendants (graphEntryAddr : PublicKey)
  | expectedOneDescendant (graphEntryAddr : PublicKey) (descendants : List (PublicKey × Bytes32))
  /-- The pointer was not at the head and has been moved on; the operation is to be retried. -/
  | pointerNotAtLatest (nextEntry : PublicKey)
deriving DecidableEq

inductive RegisterError
  | graphError (error : GraphPutError)
  | pointerError (error : PointerPutError)
  | invalidCost
  | invalidHeadPointer (target : PointerTarget)
  | fork (values : List RegisterValue)
  | corrupt (corruption : Corruption)
  | cannotUpdateNewRegister

def registerHeadDerivationIndex : DerivationIndex := Vector.replicate 32 0

variable (client : Client)

def registerHeadPointerPk (owner : PublicKey) : PublicKey :=
  client.crypto.blsDerivePublic owner registerHeadDerivationIndex

def registerHeadPointerSk (registerOwner : SecretKey) : SecretKey :=
  client.crypto.blsDeriveSecret registerOwner registerHeadDerivationIndex

def getDerivationFromGraphEntry (entry : GraphEntry) : Except RegisterError DerivationIndex :=
  match entry.descendants with
  | [d] => .ok d.2
  | descendants => .error (.corrupt (.expectedOneDescendant entry.owner descendants))

/-- The first of the entries with the smallest derivation index, among those that have one. -/
def smallestDerivation : List GraphEntry → Option (GraphEntry × DerivationIndex)
  | [] => none
  | entry :: entries =>
    match getDerivationFromGraphEntry entry, smallestDerivation entries with
    | .error _, rest => rest
    | .ok derivation, none => some (entry, derivation)
    | .ok derivation, some (other, smallest) =>
      if GraphEntry.compareBytes derivation smallest = .gt then some (other, smallest)
      else some (entry, derivation)

/-- The entry at an address, or of a fork the one with the smallest derivation index. -/
def registerGetGraphEntryAndNextDerivationIndex (graphEntryAddr : PublicKey) :
    ClientM RegisterError (GraphEntry × DerivationIndex) := do
  let entry ← match ← attempt (client.graphEntryGet graphEntryAddr) with
    | .ok entry => pure entry
    | .error (.fork entries) => match smallestDerivation entries with
        | some (entry, _) => pure entry
        | none => throw (.corrupt (.noValidDescendants graphEntryAddr))
    | .error err => throw (.graphError (.read err))
  let newDerivation ← fromExcept (getDerivationFromGraphEntry entry)
  return (entry, newDerivation)

def headEntry (pointer : Pointer) : Except RegisterError PublicKey :=
  match pointer.target with
  | .graphEntryAddress address => .ok address
  | other => .error (.invalidHeadPointer other)

def checkedAdd (a b : Amount) : Option Amount :=
  if a.toNat + b.toNat < 2 ^ 256 then some (a + b) else none

/-! ### Writing -/

/-- The last part of `register_create`: put the first entry and a pointer to it. -/
def registerPutFirst (owner : SecretKey) (rootEntry : GraphEntry) (paymentOption : PaymentOption) :
    ClientM RegisterError (Amount × PublicKey) := do
  let (graphCost, addr) ← mapError .graphError (client.graphEntryPut rootEntry paymentOption)
  let (pointerCost, _) ← mapError .pointerError (client.pointerCreate
    (client.registerHeadPointerSk owner) (.graphEntryAddress addr) paymentOption)
  let totalCost ← fromExcept (Checks.okOr (checkedAdd graphCost pointerCost) .invalidCost)
  return (totalCost, client.crypto.blsPublicKey owner)

def registerCreate (owner : SecretKey) (initialValue : RegisterValue)
    (paymentOption : PaymentOption) : ClientM RegisterError (Amount × PublicKey) := do
  let publicKey := client.crypto.blsPublicKey owner
  -- the first entry decides on the next key
  let index ← random
  let nextKey := client.crypto.blsDerivePublic publicKey index
  let rootEntry := GraphEntry.new client.crypto owner [] initialValue [(nextKey, index)]
  client.registerPutFirst owner rootEntry paymentOption

/-- The last part of `register_update`: put the new entry and move the head pointer to it. -/
def registerPutHead (owner : SecretKey) (newEntry : GraphEntry) (paymentOption : PaymentOption) :
    ClientM RegisterError Amount := do
  match ← attempt (client.graphEntryPut newEntry paymentOption) with
  | .ok (cost, newGraphEntryAddr) => do
    mapError .pointerError (client.pointerUpdate (client.registerHeadPointerSk owner)
      (.graphEntryAddress newGraphEntryAddr))
    return cost
  -- the pointer is apparently not at the head
  | .error (.alreadyExists address) => do
    mapError .pointerError (client.pointerUpdate (client.registerHeadPointerSk owner)
      (.graphEntryAddress address))
    throw (.corrupt (.pointerNotAtLatest address))
  | .error err => throw (.graphError err)

def registerUpdate (owner : SecretKey) (newValue : RegisterValue)
    (paymentOption : PaymentOption) : ClientM RegisterError Amount := do
  let publicKey := client.crypto.blsPublicKey owner
  let pointer ← match ← attempt (client.pointerGet (client.registerHeadPointerPk publicKey)) with
    | .ok pointer => pure pointer
    | .error (.getError .recordNotFound) => throw .cannotUpdateNewRegister
    | .error err => throw (.pointerError (.read err))
  let graphEntryAddr ← fromExcept (headEntry pointer)
  let (parentEntry, newDerivation) ←
    client.registerGetGraphEntryAndNextDerivationIndex graphEntryAddr
  -- the new entry, and the key of the one after it
  let newKey := client.crypto.blsDeriveSecret owner newDerivation
  let nextDerivation ← random
  let nextPk := client.crypto.blsDerivePublic publicKey nextDerivation
  let newEntry := GraphEntry.new client.crypto newKey [parentEntry.owner] newValue
    [(nextPk, nextDerivation)]
  client.registerPutHead owner newEntry paymentOption

/-! ### Reading -/

def registerGet (addr : PublicKey) : ClientM RegisterError RegisterValue := do
  let pointer ← mapError (fun err => .pointerError (.read err))
    (client.pointerGet (client.registerHeadPointerPk addr))
  let graphEntryAddr ← fromExcept (headEntry pointer)
  match ← attempt (client.graphEntryGet graphEntryAddr) with
  | .ok entry => return entry.content
  | .error (.fork entries) => throw (.fork (entries.map GraphEntry.content))
  | .error err => throw (.graphError (.read err))

structure RegisterHistory where
  registerOwner : PublicKey
  currentIter : PublicKey

def registerHistory (addr : PublicKey) : RegisterHistory := ⟨addr, addr⟩

/-- The next value, if there is one, and where the history is then. -/
def RegisterHistory.next (history : RegisterHistory) :
    ClientM RegisterError (Option RegisterValue × RegisterHistory) := do
  match ← attempt (client.registerGetGraphEntryAndNextDerivationIndex history.currentIter) with
  | .ok (entry, nextDerivation) =>
    let nextEntryPk := client.crypto.blsDerivePublic history.registerOwner nextDerivation
    return (some entry.content, { history with currentIter := nextEntryPk })
  | .error (.graphError (.read (.getError .recordNotFound))) => return (none, history)
  | .error err => throw err

def RegisterHistory.collectFrom : Nat → RegisterHistory →
    ClientM RegisterError (Option (List RegisterValue))
  | 0, _ => return none
  | steps + 1, history => do
    let (value, history) ← RegisterHistory.next client history
    match value with
    | none => return some []
    | some value =>
      let values ← collectFrom steps history
      return values.map (value :: ·)

def RegisterHistory.collect (steps : Nat) (history : RegisterHistory) :
    ClientM RegisterError (Option (List RegisterValue)) :=
  collectFrom client steps { history with currentIter := history.registerOwner }

end Autonomi.Client
