/-
Vaults: private data of any size, in place.

A vault is a chain of graph entries under keys derived from the owner's.  Each entry
names the key of the next one first, and after it the keys of a thousand scratchpads;
all of these keys are derived with indices drawn at random when the entry is made, and
the first entry is under the key derived with index zero.

To put data into a vault it is cut into pieces, more entries are added if there are
fewer scratchpads than pieces, and one piece after the other is written to the
scratchpads in their order, encrypted with the scratchpad's key.

Nothing says how many pieces there are: the first scratchpad whose encrypted content is
below the maximum is taken to be the last.

A put and a get walk along the chain until it ends; the number of steps is bounded here
by an argument, and `none` means that it was not enough.
-/
import Autonomi.Client.Writes

namespace Autonomi.Client

open Lib
open Fallible (attempt each fromExcept mapError reject)

abbrev VaultContentType := UInt64

def maxContentPerScratchpad : Nat := Scratchpad.maxSize - 1024

instance : NeZero maxContentPerScratchpad := ⟨by decide⟩

def numOfScratchpadsPerGraphEntry : Nat := 1000

def vaultHeadDerivationIndex : DerivationIndex := Vector.replicate 32 0

inductive VaultError
  | scratchpad (error : ScratchpadPutError)
  | graphEntry (error : GraphPutError)
  | protocol (error : DecryptionError)
  | vaultNotEnoughGraphDescendants (graphEntryAddr : PublicKey) (descendants : Nat)
  | vaultWithZeroContentSize

def vaultSplitBytes (input : Bytes) : List Bytes := batches maxContentPerScratchpad input

variable (client : Client)

def derivedKey (mainSecretKey : SecretKey) (index : DerivationIndex) : PublicKey × Bytes32 :=
  (client.crypto.blsPublicKey (client.crypto.blsDeriveSecret mainSecretKey index), index)

/-! ### Capacity -/

/-- The index of the first free graph entry, and the scratchpads that are claimed already. -/
def vaultClaimedCapacity (mainSecretKey : SecretKey) :
    Nat → DerivationIndex → List (PublicKey × Bytes32) →
      ClientM VaultError (Option (DerivationIndex × List (PublicKey × Bytes32)))
  | 0, _, _ => return none
  | steps + 1, curFreeGraphentryDerivation, scratchpadDerivations => do
    let curGraphEntryAddr := (client.derivedKey mainSecretKey curFreeGraphentryDerivation).1
    match ← attempt (client.graphEntryGet curGraphEntryAddr) with
    | .ok entry => match entry.descendants with
        | first :: rest =>
          -- the first descendant points to the next entry, the others to scratchpads
          if entry.descendants.length ≤ numOfScratchpadsPerGraphEntry then
            throw (.vaultNotEnoughGraphDescendants curGraphEntryAddr entry.descendants.length)
          else
            vaultClaimedCapacity mainSecretKey steps first.2 (scratchpadDerivations ++ rest)
        | [] => throw (.vaultNotEnoughGraphDescendants curGraphEntryAddr 0)
    | .error (.getError .recordNotFound) =>
      return some (curFreeGraphentryDerivation, scratchpadDerivations)
    | .error err => throw (.graphEntry (.read err))

/-- Put one more graph entry; the index of the one after it, its scratchpads and its cost. -/
def vaultExpandCapacity (mainSecretKey : SecretKey) (curGraphentryDerivation : DerivationIndex)
    (paymentOption : PaymentOption) :
    ClientM VaultError (DerivationIndex × List (PublicKey × Bytes32) × Amount) := do
  let ownSecretKey := client.crypto.blsDeriveSecret mainSecretKey curGraphentryDerivation
  let newGraphentryDerivation ← random
  let indices ← each (fun _ => random) (List.range numOfScratchpadsPerGraphEntry)
  let scratchpadDerivations := indices.map (client.derivedKey mainSecretKey)
  let graphEntry := GraphEntry.new client.crypto ownSecretKey [] (Vector.replicate 32 0)
    (client.derivedKey mainSecretKey newGraphentryDerivation :: scratchpadDerivations)
  let (graphCost, _) ← mapError .graphEntry (client.graphEntryPut graphEntry paymentOption)
  return (newGraphentryDerivation, scratchpadDerivations, graphCost)

/-- Claim more capacity until there is enough, with the cost so far; each round adds some. -/
def vaultExpandUntil (mainSecretKey : SecretKey) (paymentOption : PaymentOption)
    (required : Nat) : (rounds : Nat) → DerivationIndex → List (PublicKey × Bytes32) → Amount →
      ClientM VaultError (List (PublicKey × Bytes32) × Amount)
  | 0, _, scratchpadDerivations, totalCost => return (scratchpadDerivations, totalCost)
  | rounds + 1, curFreeGraphentryDerivation, scratchpadDerivations, totalCost => do
    if scratchpadDerivations.length < required then
      let (newFreeGraphentryDerivation, newScratchpadDerivations, graphCost) ←
        client.vaultExpandCapacity mainSecretKey curFreeGraphentryDerivation paymentOption
      vaultExpandUntil mainSecretKey paymentOption required rounds newFreeGraphentryDerivation
        (scratchpadDerivations ++ newScratchpadDerivations) (totalCost + graphCost)
    else
      return (scratchpadDerivations, totalCost)

/-! ### Putting -/

/-- One of the tasks of `vault_put`: update a scratchpad or create it, and what that cost. -/
def vaultWriteScratchpad (mainSecretKey : SecretKey) (contentType : VaultContentType)
    (paymentOption : PaymentOption) (task : (PublicKey × Bytes32) × Bytes) :
    ClientM VaultError (Option Amount) := do
  let spSecretKey := client.crypto.blsDeriveSecret mainSecretKey task.1.2
  let targetAddr := client.crypto.blsPublicKey spSecretKey
  if ← mapError .scratchpad (client.scratchpadCheckExistence targetAddr) then
    mapError .scratchpad (client.scratchpadUpdate spSecretKey contentType task.2)
    return none
  else
    let (price, _) ← mapError .scratchpad
      (client.scratchpadCreate spSecretKey contentType task.2 paymentOption)
    return some price

/-- The costs in the results of the tasks, or the first error. -/
def addPrices : List (Except VaultError (Option Amount)) → Amount → Except VaultError Amount
  | [], totalCost => .ok totalCost
  | .ok (some price) :: results, totalCost => addPrices results (totalCost + price)
  | .ok none :: results, totalCost => addPrices results totalCost
  | .error e :: _, _ => .error e

def vaultPut (steps : Nat) (data : Bytes) (paymentOption : PaymentOption) (secretKey : SecretKey)
    (contentType : VaultContentType) : ClientM VaultError (Option Amount) := do
  reject (data = []) .vaultWithZeroContentSize
  match ← client.vaultClaimedCapacity secretKey steps vaultHeadDerivationIndex [] with
  | none => return none
  | some (curFreeGraphentryDerivation, claimed) =>
    let contents := vaultSplitBytes data
    let (scratchpadDerivations, graphCost) ← client.vaultExpandUntil secretKey paymentOption
      contents.length contents.length curFreeGraphentryDerivation claimed 0
    let results ← inAnyOrder (← each (fun task => attempt
      (client.vaultWriteScratchpad secretKey contentType paymentOption task))
        (scratchpadDerivations.zip contents))
    let totalCost ← fromExcept (addPrices results graphCost)
    return some totalCost

/-! ### Getting -/

/-- The content of the scratchpads of one graph entry, with its type, and whether it ends there;
after what was read before. -/
def fetchScratchpadsOfOneGraphEntryAndDecrypt (mainSecretKey : SecretKey) :
    List (PublicKey × Bytes32) → Bytes → VaultContentType →
      ClientM VaultError (Bytes × VaultContentType × Bool)
  | [], decryptedFullText, contentType => return (decryptedFullText, contentType, false)
  | (pubKey, deriveBytes) :: scratchpadAddresses, decryptedFullText, _ => do
    let secretKey := client.crypto.blsDeriveSecret mainSecretKey deriveBytes
    let sp ← mapError (fun err => .scratchpad (.read err)) (client.scratchpadGet pubKey)
    let decryptData ← mapError .protocol (fromExcept (sp.decryptData client.crypto secretKey))
    -- anything but a scratchpad of the maximal size is the end
    if sp.encryptedData.length < maxContentPerScratchpad then
      return (decryptedFullText ++ decryptData, sp.dataEncoding, true)
    else
      fetchScratchpadsOfOneGraphEntryAndDecrypt mainSecretKey scratchpadAddresses
        (decryptedFullText ++ decryptData) sp.dataEncoding

def vaultGetFrom (mainSecretKey : SecretKey) :
    Nat → PublicKey → Bytes → ClientM VaultError (Option (Bytes × VaultContentType))
  | 0, _, _ => return none
  | steps + 1, curGraphEntryAddr, decryptedFullText => do
    let graphEntry ← mapError (fun err => .graphEntry (.read err))
      (client.graphEntryGet curGraphEntryAddr)
    match graphEntry.descendants with
    | first :: scratchpadAddresses => do
      let (decryptData, contentType, hasEndReached) ←
        client.fetchScratchpadsOfOneGraphEntryAndDecrypt mainSecretKey scratchpadAddresses [] 0
      let decryptedFullText := decryptedFullText ++ decryptData
      if hasEndReached then return some (decryptedFullText, contentType)
      else vaultGetFrom mainSecretKey steps first.1 decryptedFullText
    | [] => throw (.vaultNotEnoughGraphDescendants curGraphEntryAddr 0)

def vaultGet (steps : Nat) (secretKey : SecretKey) :
    ClientM VaultError (Option (Bytes × VaultContentType)) :=
  client.vaultGetFrom secretKey steps (client.derivedKey secretKey vaultHeadDerivationIndex).1 []

end Autonomi.Client
