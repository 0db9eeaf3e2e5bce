/-
How a client reads the four types of data.

Pointers and scratchpads carry a counter.  Of the versions that came in, those with
the highest counter are kept, and of these the content with the most copies; a tie
is a fork.  What is left is checked by its own signature.  Graph entries are chosen
by the number of copies alone.  A chunk is the first record that came in, and goes
into a cache on disk under the address it was asked for.
-/
import Autonomi.Client.Config
import Autonomi.Lib.Plurality

namespace Autonomi

open Lib
open Fallible (attempt fromExcept)

namespace Client

inductive GetError
  | network (error : NetworkError)
  | protocol
  | recordNotFound
  | recordKindMismatch (expected : RecordKind)
  | configuration (message : String)
deriving DecidableEq

variable (client : Client)

/-! ### Resolving versions -/

section Resolve

variable {T ε : Type} [DecidableEq T]

/-- `resolve_records_from_peers`; the set of tied versions has no order. -/
def resolveRecordsFromPeers (deserialize : Record → Except ε T) (counterOf : T → UInt64)
    (sameContent : T → T → Bool) (forkError : Finset T → ε) (corruptError : ε)
    (records : List Record) : Except ε T :=
  let items := records.filterMap fun record => (deserialize record).toOption
  let sorted := items.mergeSort fun a b => (counterOf a).toNat ≤ (counterOf b).toNat
  match sorted.getLast? with
  | none => .error corruptError
  | some last =>
    let itemsAtMax := sorted.filter fun item => (counterOf item).toNat = (counterOf last).toNat
    match Plurality.leaders sameContent itemsAtMax with
    | [] => .error corruptError
    | [one] => .ok one
    | best => .error (forkError best.toFinset)

/-- What `pointer_get` and `scratchpad_get` do: fetch, resolve what came in, verify. -/
def getResolved (key : NetworkAddress) (strategy : Strategy)
    (resolve : List Record → Except ε T) (notFound : ε) (networkError : NetworkError → ε)
    (verify : T → Except ε Unit) : ClientM ε T := do
  let item ←
    match ← attempt (getRecordWithRetries key strategy) with
    | .ok (some records) => fromExcept (resolve records)
    | .ok none => throw notFound
    | .error (.splitRecord holders) => do
      let records ← inAnyOrder (holders.map Prod.snd)
      fromExcept (resolve records)
    | .error e => throw (networkError e)
  fromExcept (verify item)
  return item

end Resolve

/-! ### Pointers -/

inductive PointerError
  | getError (error : GetError)
  | corrupt
  | badSignature
  | fork (pointers : Finset Pointer)
deriving DecidableEq

def pointerFromRecord (record : Record) : Except PointerError Pointer := do
  let kind ← Checks.okOr record.value.kind .corrupt
  Checks.reject (kind ≠ .dataOnly .pointer) (.getError (.recordKindMismatch (.dataOnly .pointer)))
  Checks.okOr record.value.asPointer .corrupt

def resolvePointers (records : List Record) : Except PointerError Pointer :=
  resolveRecordsFromPeers pointerFromRecord (fun p => p.counter) (fun a b => a = b)
    .fork .corrupt records

def pointerVerify (pointer : Pointer) : Except PointerError Unit :=
  Checks.reject (¬ pointer.verifySignature client.crypto client.rmpTarget) .badSignature

def pointerGet (owner : PublicKey) : ClientM PointerError Pointer :=
  getResolved (.pointerAddress owner) client.pointer resolvePointers
    (.getError .recordNotFound) (fun e => .getError (.network e)) (pointerVerify client)

/-! ### Scratchpads -/

inductive ScratchpadError
  | getError (error : NetworkError)
  | notFound (owner : PublicKey)
  | corrupt (owner : PublicKey)
  | scratchpadTooBig (size : Nat)
  | badSignature
  | fork (scratchpads : Finset Scratchpad)
deriving DecidableEq

/-- The record's body as a scratchpad; the kind in the header is not looked at. -/
def scratchpadFromRecord (owner : PublicKey) (record : Record) :
    Except ScratchpadError Scratchpad :=
  Checks.okOr record.value.asScratchpad (.corrupt owner)

def resolveScratchpads (owner : PublicKey) (records : List Record) :
    Except ScratchpadError Scratchpad :=
  resolveRecordsFromPeers (scratchpadFromRecord owner) (fun s => s.counter)
    (fun a b => a.dataEncoding = b.dataEncoding ∧ a.encryptedData = b.encryptedData)
    .fork (.corrupt owner) records

def scratchpadVerify (scratchpad : Scratchpad) : Except ScratchpadError Unit := do
  Checks.reject (¬ scratchpad.verifySignature client.crypto) .badSignature
  Checks.reject (scratchpad.isTooBig client.scratchpadStructSize)
    (.scratchpadTooBig (scratchpad.size client.scratchpadStructSize))

def scratchpadGet (owner : PublicKey) : ClientM ScratchpadError Scratchpad :=
  getResolved (.scratchpadAddress owner) client.scratchpad (resolveScratchpads owner)
    (.notFound owner) .getError (scratchpadVerify client)

/-! ### Graph entries -/

inductive GraphError
  | getError (error : GetError)
  | serialization
  | fork (entries : List GraphEntry)
deriving DecidableEq

def getGraphEntryFromRecord (record : Record) : Except GraphError (List GraphEntry) := do
  let kind ← Checks.okOr record.value.kind .serialization
  Checks.reject (kind ≠ .dataOnly .graphEntry) .serialization
  Checks.okOr record.value.asGraphEntries .serialization

def allEntries (records : List Record) : List GraphEntry :=
  (records.filterMap fun record => (getGraphEntryFromRecord record).toOption).flatten

def resolveEntries (entries : List GraphEntry) : Except GraphError GraphEntry :=
  match Plurality.leaders (fun a b => a = b) entries with
  | [] => .error (.getError .recordNotFound)
  | [best] => .ok best
  | entriesWithMax => .error (.fork entriesWithMax)

def graphEntryGet (owner : PublicKey) : ClientM GraphError GraphEntry := do
  let key := NetworkAddress.graphEntryAddress owner
  match ← attempt (getRecordWithRetries key client.graphEntry) with
  | .error e => throw (.getError (.network e))
  | .ok none => throw (.getError .recordNotFound)
  | .ok (some records) => fromExcept (resolveEntries (allEntries records))

/-! ### Chunks -/

def getChunkCacheDir : Except GetError Unit :=
  Checks.reject (¬ client.hasChunkCacheDir)
    (.configuration ("Chunk caching is enabled but no cache directory is specified. " ++
      "Please set a cache directory in the client config or disable chunk caching."))

def tryLoadChunkFromCache (address : XorName) : ClientM GetError (Option Chunk) := do
  if client.chunkCacheEnabled then
    fromExcept (getChunkCacheDir client)
    return (← loadChunk address).map Chunk.mk
  else
    return none

/-- A chunk that could not be cached is handed on all the same. -/
def tryCacheChunk (address : XorName) (chunk : Chunk) : ClientM GetError Unit := do
  if client.chunkCacheEnabled then
    fromExcept (getChunkCacheDir client)
    let _ ← storeChunk address chunk.value
    return ()
  else
    return ()

def deleteChunks : List XorName → ClientM GetError Unit
  | [] => return ()
  | address :: addresses => do
    if ← deleteChunk address then deleteChunks addresses else return ()

/-- Failures are logged and forgotten. -/
def cleanupCachedChunks (addresses : List XorName) : ClientM GetError Unit :=
  if client.chunkCacheEnabled ∧ client.hasChunkCacheDir then deleteChunks addresses
  else return ()

def chunkFromRecords : List Record → Except GetError Chunk
  | [] => .error .recordNotFound
  | record :: _ => do
    let kind ← Checks.okOr record.value.kind .protocol
    if kind = .dataOnly .chunk then
      Checks.okOr record.value.asChunk .protocol
    else
      .error (.recordKindMismatch (.dataOnly .chunk))

def fetchChunkFromNetwork (address : XorName) : ClientM GetError Chunk := do
  let key := NetworkAddress.chunkAddress address
  match ← attempt (getRecordWithRetries key client.chunks) with
  | .error e => throw (.network e)
  | .ok none => throw .recordNotFound
  | .ok (some records) => fromExcept (chunkFromRecords records)

def chunkGet (address : XorName) : ClientM GetError Chunk := do
  match ← tryLoadChunkFromCache client address with
  | some cachedChunk => return cachedChunk
  | none =>
    let chunk ← fetchChunkFromNetwork client address
    tryCacheChunk client address chunk
    return chunk

end Client

end Autonomi
