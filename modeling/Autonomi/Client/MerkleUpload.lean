/-
Uploading the files of a directory, paid for in Merkle trees.

The files are encrypted twice: for the names of their chunks, which are put into batches
that fit a tree, and for the chunks themselves.  Nothing makes sure that the chunks
taken for a batch are those it was made of.

Where the code mutates a set or a vector it is handed, the set or vector is returned.
-/
import Autonomi.Client.MerklePayments
import Autonomi.Lib.Unique

namespace Autonomi.Client

open Lib
open Fallible (attempt fromExcept mapError reject each)

/-- What is handed back for a file: its relative path, its data map and its metadata. -/
abbrev CompletedFile := String × Chunk × Metadata

inductive MerklePutError
  /-- The chunks that failed, each with its error, which is always one of the network. -/
  | batch (failed : List (Chunk × NetworkError))
  | missingPaymentProofFor (name : XorName)
  | streamShouldHaveDatamap

inductive MerkleUploadError
  | encryption (message : String)
  | payment (error : MerklePaymentError)
  | upload (error : MerklePutError)

structure MerkleUploadErrorWithReceipt where
  /-- Nothing if no payment was made before the error. -/
  receipt : Option MerklePaymentReceipt
  error : MerkleUploadError

namespace MerkleUploadErrorWithReceipt

variable (receipt : MerklePaymentReceipt)

def new (kind : MerkleUploadError) : MerkleUploadErrorWithReceipt :=
  ⟨if receipt.proofs.entries = [] then none else some receipt, kind⟩

def encryption (msg : String) : MerkleUploadErrorWithReceipt :=
  new receipt (.encryption msg)

def payment (err : MerklePaymentError) : MerkleUploadErrorWithReceipt :=
  new receipt (.payment err)

def upload (err : MerklePutError) : MerkleUploadErrorWithReceipt :=
  new receipt (.upload err)

end MerkleUploadErrorWithReceipt

inductive MerklePaymentOption
  /-- Pay for all chunks. -/
  | wallet (wallet : Wallet)
  /-- All proofs are assumed to be there. -/
  | receipt (receipt : MerklePaymentReceipt)
  /-- Use the proofs that are there and pay for what is missing. -/
  | continueWithReceipt (wallet : Wallet) (receipt : MerklePaymentReceipt)

def uploadMaxRetries : Nat := 3

variable (client : Client)

/-! ### Uploading with proofs -/

/-- The peers of a plain Kademlia query, which does not verify them. -/
def kadOnlyPeers (networkAddr : NetworkAddress) : ClientM NetworkError (List PeerId) := do
  fromExcept (← getClosestPeersKadOnly networkAddr nClosestPeers)

/-- The peers to try first: verified ones, if there are any to be had. -/
def storingNodes (networkAddr : NetworkAddress) : ClientM NetworkError (List PeerId) := do
  match ← (attempt (getClosestPeersWithRetries networkAddr nClosestPeers) :
    ClientM NetworkError (Except NetworkError (List PeerId))) with
  | .ok peers => return peers
  | .error _ => kadOnlyPeers networkAddr

def uploadRecordWithMerkleProof (networkAddr : NetworkAddress) (dataType : DataTypes)
    (data : Item) (proof : MerklePaymentProof) : ClientM NetworkError Unit := do
  let record : Record :=
    ⟨networkAddr.toRecordKey client.crypto,
      ⟨some (.dataWithMerklePayment dataType), .merklePaid proof data⟩⟩
  let nodes ← storingNodes networkAddr
  match ← (attempt (putRecordWithRetries record nodes client.chunks) :
    ClientM NetworkError (Except NetworkError Unit)) with
  | .ok () => return ()
  | .error _ =>
    let fallbackNodes ← kadOnlyPeers networkAddr
    putRecordWithRetries record fallbackNodes client.chunks

def uploadChunkWithMerkleProof (chunk : Chunk) (proof : MerklePaymentProof) :
    ClientM NetworkError XorName := do
  client.uploadRecordWithMerkleProof (.chunkAddress (chunk.name client.crypto)) .chunk
    (.chunk chunk) proof
  return chunk.name client.crypto

def merkleTask (receipt : MerklePaymentReceipt) (chunk : Chunk) :
    Except MerklePutError (Chunk × MerklePaymentProof) :=
  match receipt.proofs.lookup (chunk.name client.crypto) with
  | some proof => .ok (chunk, proof)
  | none => .error (.missingPaymentProofFor (chunk.name client.crypto))

/-- The chunks to upload, each with its proof; the first without one is an error. -/
def merkleTasks (receipt : MerklePaymentReceipt) (dontReupload : Finset XorName)
    (chunks : List Chunk) : Except MerklePutError (List (Chunk × MerklePaymentProof)) :=
  (chunks.filter fun chunk => chunk.name client.crypto ∉ dontReupload).mapM
    (client.merkleTask receipt)

abbrev ChunkResult := Chunk × Except NetworkError XorName

/-- Run the tasks, which finish in any order. -/
def runMerkleTasks (tasks : List (Chunk × MerklePaymentProof)) :
    ClientM MerklePutError (List ChunkResult) := do
  inAnyOrder (← each (fun task => do
    let result ← attempt (client.uploadChunkWithMerkleProof task.1 task.2)
    return (task.1, result)) tasks)

def uploadedNames (results : List ChunkResult) : Finset XorName :=
  (results.filterMap fun result => result.2.toOption).toFinset

def failedChunks (results : List ChunkResult) : List (Chunk × NetworkError) :=
  results.filterMap fun
    | (chunk, .error err) => some (chunk, err)
    | (_, .ok _) => none

/-- Where the upload of a batch is; at its end, its result and what not to upload again. -/
structure MerkleBatchUpload where
  streams : List EncryptionStream
  dontReupload : Finset XorName
  completedFiles : List CompletedFile
  failedChunks : List (Chunk × NetworkError)

namespace MerkleBatchUpload

def addResults (upload : MerkleBatchUpload) (streams : List EncryptionStream)
    (results : List ChunkResult) : MerkleBatchUpload :=
  { upload with
    streams
    dontReupload := upload.dontReupload ∪ uploadedNames results
    failedChunks := upload.failedChunks ++ Client.failedChunks results }

def complete (upload : MerkleBatchUpload) (exhausted : EncryptionStream) (datamap : Chunk)
    (streams : List EncryptionStream) : MerkleBatchUpload :=
  { upload with
    streams
    completedFiles := upload.completedFiles ++
      [(exhausted.relativePath, datamap, exhausted.metadata)] }

/-- The chunks that are still to come, and one step for each stream. -/
def size (streams : List EncryptionStream) : Nat :=
  (streams.map fun stream => stream.produced.length + 1).sum

theorem size_nextBatch_lt {stream : EncryptionStream} {streams : List EncryptionStream} {n : Nat}
    (h : (stream.nextBatch n).1.getD [] ≠ []) :
    size ((stream.nextBatch n).2 :: streams) < size (stream :: streams) := by
  obtain ⟨hbatch, hrest, -⟩ := stream.nextBatch_spec n
  rw [hbatch, ne_eq, List.take_eq_nil_iff, not_or] at h
  have hpos := List.length_pos_iff.mpr h.2
  simp only [size, List.map_cons, List.sum_cons, hrest, List.length_drop]
  omega

end MerkleBatchUpload

/-- The loop of `upload_batch_with_merkle`, with so many chunks left to attempt. -/
def uploadBatchRemaining (receipt : MerklePaymentReceipt) (limit : Nat)
    (upload : MerkleBatchUpload) : ClientM MerklePutError MerkleBatchUpload :=
  if limit = 0 then return upload
  else
    match _hstreams : upload.streams with
    | [] => return upload
    | stream :: streams =>
      let batchToGet := min client.uploadFlowBatchSize limit
      let chunks := (stream.nextBatch batchToGet).1.getD []
      let rest := (stream.nextBatch batchToGet).2
      if _hchunks : chunks = [] then do
        let datamap ← fromExcept (Checks.okOr rest.dataMapChunk .streamShouldHaveDatamap)
        uploadBatchRemaining receipt limit (upload.complete rest datamap streams)
      else do
        let tasks ← fromExcept (client.merkleTasks receipt upload.dontReupload chunks)
        let results ← client.runMerkleTasks tasks
        uploadBatchRemaining receipt (limit - tasks.length)
          (upload.addResults (rest :: streams) results)
termination_by MerkleBatchUpload.size upload.streams
decreasing_by
  · rw [_hstreams]
    simp only [MerkleBatchUpload.size, MerkleBatchUpload.complete, List.map_cons, List.sum_cons]
    omega
  · rw [_hstreams]
    exact MerkleBatchUpload.size_nextBatch_lt _hchunks

def uploadBatchWithMerkle (streams : List EncryptionStream) (receipt : MerklePaymentReceipt)
    (dontReupload : Finset XorName) (limit : Nat) : ClientM MerklePutError MerkleBatchUpload :=
  client.uploadBatchRemaining receipt limit ⟨streams, dontReupload, [], []⟩

/-- `retry_failed_merkle_chunks`: what failed to the end, and what exists by then. -/
def retryFailedMerkleChunks (receipt : MerklePaymentReceipt) :
    Nat → List (Chunk × NetworkError) → Finset XorName →
      ClientM MerklePutError (List (Chunk × NetworkError) × Finset XorName)
  | 0, failed, alreadyExist => return (failed, alreadyExist)
  | retries + 1, failed, alreadyExist =>
    if failed = [] then return (failed, alreadyExist)
    else do
      let tasks ← fromExcept (client.merkleTasks receipt alreadyExist (failed.map Prod.fst))
      let results ← client.runMerkleTasks tasks
      retryFailedMerkleChunks receipt retries (failedChunks results)
        (alreadyExist ∪ uploadedNames results)

/-! ### The names of the chunks -/

instance (m n : Nat) [NeZero m] : NeZero (max m n) :=
  ⟨Nat.ne_of_gt ((Nat.pos_of_ne_zero (NeZero.ne m)).trans_le (Nat.le_max_left m n))⟩

/-- `encrypt_directory_files`, with the first file that fails as an error -/
def openDirectory (path : String) (isPublic : Bool) : ClientM String (List EncryptionStream) := do
  let streams ← fromExcept (← encryptDirectoryFiles path isPublic)
  fromExcept (streams.mapM id)

def collectXorNamesFromStream (stream : EncryptionStream) :
    Except String (List XorName × CompletedFile) :=
  let (chunks, drained) := stream.drain (max 32 client.chunkUploadBatchSize)
  match drained.dataMapChunk with
  | none => .error ("No datamap available for " ++ stream.filePath)
  | some datamap =>
    .ok (chunks.map fun chunk => chunk.name client.crypto,
      (drained.relativePath, datamap, drained.metadata))

/-- All names, the number of them for each file, and what is handed back if they all exist. -/
def collectXornamesFromDir (path : String) (isPublic : Bool) :
    ClientM String
      (List XorName × (AList fun _ : String => Nat) × List CompletedFile) := do
  let streams ← openDirectory path isPublic
  let files ← fromExcept (streams.mapM fun stream => do
    return (stream.filePath, ← client.collectXorNamesFromStream stream))
  return (files.flatMap fun file => file.2.1,
    files.foldl (fun counts file => counts.insert file.1 file.2.1.length) ∅,
    files.map fun file => file.2.2)

/-! ### Which chunks exist -/

/-- Whether an answer means that there is a record; a split is one with conflicts. -/
def showsRecord : Except NetworkError (Option Record) → Bool
  | .ok (some _) => true
  | .error (.splitRecord _) => true
  | _ => false

variable {ε : Type}

def checkRecordExists (name : XorName) : ClientM ε (Option XorName) := do
  let answer ← attempt (getRecord (.chunkAddress name) .one)
  return if showsRecord answer then some name else none

/-- `check_records_exist_batch`, for chunks -/
def checkRecordsExistBatch (names : List XorName) (batchSize : Nat) [NeZero batchSize] :
    ClientM ε (Finset XorName) := do
  let found ← each (fun batch => do inAnyOrder (← each checkRecordExists batch))
    (batches batchSize names)
  return found.flatten.reduceOption.toFinset

/-- The existing chunks, and the new ones in their order without repetitions. -/
def splitExistingAndNewChunks (xornames : List XorName) (receipt : MerklePaymentReceipt) :
    ClientM ε (Finset XorName × List XorName) := do
  let uniqueOrdered := unique ∅ xornames
  let knownExisting := uniqueOrdered.filter fun name =>
    name ∈ receipt.alreadyExisted ∨ name ∈ receipt.uploaded
  -- what is paid for is not asked for: it has to be uploaded in any case
  let needCheck := uniqueOrdered.filter fun name =>
    ¬ (name ∈ receipt.alreadyExisted ∨ name ∈ receipt.uploaded) ∧ name ∉ receipt.proofs
  let newlyFoundExisting ← checkRecordsExistBatch needCheck (max 16 client.chunkUploadBatchSize)
  let allExisting := knownExisting.toFinset ∪ newlyFoundExisting
  return (allExisting, uniqueOrdered.filter fun name => name ∉ allExisting)

/-! ### Paying and uploading -/

variable (maxChunkSize : Nat)

/-- `pay_for_merkle_tree_batch`: the merged receipt. -/
def payForMerkleTreeBatch (wallet : Option Wallet) (batchXornames : List XorName)
    (receipt : MerklePaymentReceipt) : ClientM MerkleUploadError MerklePaymentReceipt := do
  let wallet ← fromExcept (Checks.okOr wallet (.upload (.missingPaymentProofFor
    ((batchXornames.find? fun name => name ∉ receipt.proofs).getD (bytes32 0)))))
  let batchReceipt ← mapError .payment
    (client.payForSingleMerkleBatch .chunk batchXornames maxChunkSize wallet)
  return receipt.merge batchReceipt

structure MerkleUpload where
  receipt : MerklePaymentReceipt
  alreadyExist : Finset XorName
  streams : List EncryptionStream
  results : List CompletedFile

def maxRetries : Nat :=
  if client.retryFailed = 0 then uploadMaxRetries else client.retryFailed.toNat

/-- The receipt with which a batch is uploaded: it is paid for if a proof is missing. -/
def receiptForBatch (wallet : Option Wallet) (batchXornames : List XorName)
    (receipt : MerklePaymentReceipt) :
    ClientM MerkleUploadErrorWithReceipt MerklePaymentReceipt :=
  if batchXornames.any (fun name => name ∉ receipt.proofs) then
    mapError (.new receipt) (client.payForMerkleTreeBatch maxChunkSize wallet batchXornames receipt)
  else return receipt

/-- One batch: pay for it, upload as many chunks as it has, and retry those that failed. -/
def payAndUploadMerkleBatch (wallet : Option Wallet) (batchXornames : List XorName)
    (state : MerkleUpload) : ClientM MerkleUploadErrorWithReceipt MerkleUpload := do
  let receipt ← client.receiptForBatch maxChunkSize wallet batchXornames state.receipt
  let uploaded ← mapError (.upload receipt)
    (client.uploadBatchWithMerkle state.streams receipt state.alreadyExist batchXornames.length)
  -- without failed chunks there is nothing to do here
  let (remainingFailures, alreadyExist) ← mapError (.upload receipt)
    (client.retryFailedMerkleChunks receipt client.maxRetries uploaded.failedChunks
      uploaded.dontReupload)
  reject (remainingFailures ≠ []) (.upload receipt (.batch remainingFailures))
  return ⟨receipt.addUploaded (alreadyExist \ state.alreadyExist), alreadyExist,
    uploaded.streams, state.results ++ uploaded.completedFiles⟩

def payAndUploadMerkleBatches (wallet : Option Wallet) :
    List (List XorName) → MerkleUpload → ClientM MerkleUploadErrorWithReceipt MerkleUpload
  | [], state => return state
  | batch :: rest, state => do
    let state ← client.payAndUploadMerkleBatch maxChunkSize wallet batch state
    payAndUploadMerkleBatches wallet rest state

/-- A stream that is left over: its data map, after flushing it if need be. -/
def finishStream (receipt : MerklePaymentReceipt) (stream : EncryptionStream) :
    Except MerkleUploadErrorWithReceipt CompletedFile :=
  match stream.dataMapChunk with
  | some datamap => .ok (stream.relativePath, datamap, stream.metadata)
  | none =>
    let flushed := (stream.drain 16).2
    match flushed.dataMapChunk with
    | some datamap => .ok (flushed.relativePath, datamap, flushed.metadata)
    | none => .error (.upload receipt .streamShouldHaveDatamap)

/-- The second pass: all batches, then what is left of the streams. -/
def payAndUploadStreams (wallet : Option Wallet) (xorToPayOrdered : List XorName)
    (state : MerkleUpload) :
    ClientM MerkleUploadErrorWithReceipt (Amount × List CompletedFile) := do
  let state ← client.payAndUploadMerkleBatches maxChunkSize wallet
    (batches maxLeaves xorToPayOrdered) state
  let leftOver ← fromExcept (state.streams.mapM (finishStream state.receipt))
  return (state.receipt.amountPaid, state.results ++ leftOver)

/-- `files_put_with_merkle_payment_internal`: what was paid, and the files. -/
def filesPutWithMerklePaymentInternal (path : String) (isPublic : Bool) (wallet : Option Wallet)
    (receipt : MerklePaymentReceipt) :
    ClientM MerkleUploadErrorWithReceipt (Amount × List CompletedFile) := do
  reject (wallet.any fun wallet => wallet.network ≠ client.evmNetwork)
    (.payment receipt .evmWalletNetworkMismatch)
  let (allXorNames, fileChunkCounts, firstPassResults) ← mapError (.encryption receipt)
    (client.collectXornamesFromDir path isPublic)
  let receipt := { receipt with fileChunkCounts }
  let (alreadyExist, xorToPayOrdered) ← client.splitExistingAndNewChunks allXorNames receipt
  let receipt := receipt.addAlreadyExisted alreadyExist
  if xorToPayOrdered = [] then
    return (receipt.amountPaid, firstPassResults)
  else
    let streams ← mapError (.encryption receipt) (openDirectory path isPublic)
    client.payAndUploadStreams maxChunkSize wallet xorToPayOrdered
      ⟨receipt, alreadyExist, streams, []⟩

def filesPutWithMerklePayment (path : String) (isPublic : Bool) :
    MerklePaymentOption →
      ClientM MerkleUploadErrorWithReceipt (Amount × List CompletedFile)
  | .wallet wallet =>
    client.filesPutWithMerklePaymentInternal maxChunkSize path isPublic (some wallet) .empty
  | .receipt receipt =>
    client.filesPutWithMerklePaymentInternal maxChunkSize path isPublic none receipt
  | .continueWithReceipt wallet receipt =>
    client.filesPutWithMerklePaymentInternal maxChunkSize path isPublic (some wallet) receipt

end Autonomi.Client
