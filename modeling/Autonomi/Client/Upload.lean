/-
Uploading the chunks of files, batch by batch.

A batch is quoted, paid for and sent to the nodes that were paid.  A chunk that is
not in the receipt is taken to exist already and left out.  What could not be stored
stays in the batch and is tried again together with the chunks that come next, until
too many uploads have been attempted: from then on the first failure ends it all.
-/
import Autonomi.Client.Payment

namespace Autonomi.Client

open Lib
open Fallible (attempt fromExcept mapError reject each)

inductive ChunkUploadError
  | payeesMissing
  /-- With the payment that was made, for it to be used again. -/
  | network (address : NetworkAddress) (networkError : NetworkError) (payment : Option Receipt)

/-- Which chunks of a batch were stored and which were not, with the reason. -/
structure ChunkBatchUploadState where
  successful : List XorName
  failed : List (XorName × ChunkUploadError)
  payment : Option Receipt

namespace ChunkBatchUploadState

def empty : ChunkBatchUploadState := ⟨[], [], none⟩

def pushError (state : ChunkBatchUploadState) (address : XorName) :
    ChunkUploadError → ChunkBatchUploadState
  | .network (.chunkAddress chunkAddr) networkError payment =>
    { state with
      failed := state.failed ++ [(chunkAddr, .network (.chunkAddress chunkAddr) networkError
        payment)]
      payment := match state.payment with
        | some ours => some (payment.getD ∅ ∪ ours)
        | none => payment }
  -- not the address of a chunk
  | .network _ _ _ => state
  | err => { state with failed := state.failed ++ [(address, err)] }

end ChunkBatchUploadState

inductive PutError
  | payError (error : PayError)
  | upload (error : ChunkUploadError)
  | batch (state : ChunkBatchUploadState)

variable (client : Client)

/-! ### A batch of chunks -/

def paidChunkRecord (chunk : Chunk) (payment : ProofOfPayment) : Record where
  key := (NetworkAddress.chunkAddress (chunk.name client.crypto)).toRecordKey client.crypto
  value := ⟨some (.dataWithPayment .chunk), .paid payment (.chunk chunk)⟩

def chunkUploadWithPayment (chunk : Chunk) (payment : ProofOfPayment) (price : Amount) :
    ClientM ChunkUploadError XorName := do
  let storingNodes := payment.payees client.crypto
  reject (storingNodes = []) .payeesMissing
  let receipt : Receipt := (∅ : Receipt).insert (chunk.name client.crypto) (payment, price)
  mapError (fun err => .network (.chunkAddress (chunk.name client.crypto)) err (some receipt))
    (putRecordWithRetries (client.paidChunkRecord chunk payment) storingNodes client.chunks)
  return chunk.name client.crypto

/-- The chunks with a proof of payment; the others are skipped as existing already. -/
def paidChunks (receipt : Receipt) (chunks : List Chunk) :
    List (Chunk × ProofOfPayment × Amount) :=
  chunks.filterMap fun chunk =>
    (receipt.lookup (chunk.name client.crypto)).map fun paid => (chunk, paid)

def uploadPaidChunk (task : Chunk × ProofOfPayment × Amount) :
    ClientM PutError (Chunk × Except ChunkUploadError XorName) := do
  let result ← attempt (client.chunkUploadWithPayment task.1 task.2.1 task.2.2)
  return (task.1, result)

def addUpload (state : ChunkBatchUploadState) :
    Chunk × Except ChunkUploadError XorName → ChunkBatchUploadState
  | (_, .ok addr) => { state with successful := state.successful ++ [addr] }
  | (chunk, .error err) => state.pushError (chunk.name client.crypto) err

def chunkBatchUpload (chunks : List Chunk) (receipt : Receipt) : ClientM PutError Unit := do
  let uploads ← inAnyOrder (← each client.uploadPaidChunk (client.paidChunks receipt chunks))
  reject (uploads.any fun upload => !upload.2.isOk)
    (.batch (uploads.foldl client.addUpload .empty))

structure ProcessedBatch (retryOnFailure : Bool) where
  retryChunks : List Chunk
  receipts : List Receipt
  freeChunks : Nat
  putError : Option PutError
  /-- Nothing is left to be tried again unless failures are. -/
  retry_only : retryOnFailure = false → retryChunks = []

def ProcessedBatch.final {retryOnFailure : Bool} (receipts : List Receipt) (freeChunks : Nat)
    (putError : Option PutError) : ProcessedBatch retryOnFailure :=
  ⟨[], receipts, freeChunks, putError, fun _ => rfl⟩

def ProcessedBatch.retry {retryOnFailure : Bool} (h : retryOnFailure = true)
    (retryChunks : List Chunk) (receipts : List Receipt) (freeChunks : Nat) :
    ProcessedBatch retryOnFailure :=
  ⟨retryChunks, receipts, freeChunks, none, fun hfalse => by rw [h] at hfalse; cases hfalse⟩

def processChunkBatch (batch : List Chunk) (paymentOption : PaymentOption)
    (retryOnFailure : Bool) : ClientM PutError (ProcessedBatch retryOnFailure) := do
  let paymentInfo := batch.map fun chunk => (chunk.name client.crypto, chunk.size)
  match ← attempt (client.payForContentAddrs .chunk paymentInfo paymentOption) with
  | .error (.evmWalletError (.insufficientTokensForQuotes got need)) =>
    return .final [] 0 (some (.payError (.evmWalletError (.insufficientTokensForQuotes got need))))
  | .error err =>
    return if h : retryOnFailure = true then .retry h batch [] 0
      else .final [] 0 (some (.payError err))
  | .ok (receipt, freeChunks) =>
    match ← (attempt (client.chunkBatchUpload batch receipt) :
      ClientM PutError (Except PutError Unit)) with
    | .ok () => return .final [receipt] freeChunks none
    | .error err =>
      return if h : retryOnFailure = true then
          match err with
          | .batch state => .retry h (batch.filter fun chunk =>
            chunk.name client.crypto ∈ state.failed.map Prod.fst) [receipt] freeChunks
          | err => .final [receipt] freeChunks (some err)
        else .final [receipt] freeChunks (some err)

/-! ### A file -/

structure FileUpload where
  file : EncryptionStream
  currentBatch : List Chunk
  retryOnFailure : Bool
  attemptedUploads : Nat
  processedChunks : Nat
  freeChunks : Nat
  receipts : List Receipt

variable (upload : FileUpload)

def FileUpload.remaining : List Chunk :=
  upload.currentBatch ++ upload.file.produced

def FileUpload.fill (batchSize : Nat) : FileUpload :=
  let (next, file) := upload.file.nextBatch (batchSize - upload.currentBatch.length)
  let nextBatch := next.getD []
  let currentBatch := upload.currentBatch ++ nextBatch
  { upload with
    file
    currentBatch
    attemptedUploads := upload.attemptedUploads + currentBatch.length
    processedChunks := upload.processedChunks + nextBatch.length }

def FileUpload.next (allowedAttempts : Nat) (processed : ProcessedBatch upload.retryOnFailure) :
    FileUpload :=
  { upload with
    currentBatch := processed.retryChunks
    retryOnFailure := upload.retryOnFailure && !(decide (processed.retryChunks ≠ []) &&
      decide (allowedAttempts < upload.attemptedUploads))
    freeChunks := upload.freeChunks + processed.freeChunks
    receipts := upload.receipts ++ processed.receipts }

theorem FileUpload.fill_remaining (batchSize : Nat) :
    (upload.fill batchSize).remaining = upload.remaining := by
  obtain ⟨hbatch, hrest, -⟩ := upload.file.nextBatch_spec (batchSize - upload.currentBatch.length)
  simp only [FileUpload.remaining, FileUpload.fill]
  rw [hbatch, hrest, List.append_assoc, List.take_append_drop]

/-- A batch that stays empty means that nothing remains. -/
theorem FileUpload.remaining_eq_nil {upload : FileUpload} {batchSize : Nat} (hsize : 0 < batchSize)
    (h : (upload.fill batchSize).currentBatch = []) : upload.remaining = [] := by
  have hbatch := (upload.file.nextBatch_spec (batchSize - upload.currentBatch.length)).1
  simp only [FileUpload.fill, hbatch, List.append_eq_nil_iff, List.take_eq_nil_iff] at h
  obtain ⟨hcurrent, htaken⟩ := h
  rw [hcurrent, List.length_nil] at htaken
  rw [FileUpload.remaining, hcurrent, htaken.resolve_left (by omega)]
  rfl

/-- What the loop goes down in: being allowed to try again, the attempts left, the chunks left. -/
def FileUpload.measure (allowedAttempts : Nat) (upload : FileUpload) : Nat × Nat × Nat :=
  (upload.retryOnFailure.toNat, allowedAttempts + 1 - upload.attemptedUploads,
    upload.remaining.length)

theorem FileUpload.measure_next_lt {upload filled : FileUpload} {batchSize : Nat}
    (hfilled : filled = upload.fill batchSize) (allowedAttempts : Nat)
    (hne : filled.currentBatch ≠ []) (processed : ProcessedBatch filled.retryOnFailure) :
    Prod.Lex (· < ·) (Prod.Lex (· < ·) (· < ·))
      ((filled.next allowedAttempts processed).measure allowedAttempts)
      (upload.measure allowedAttempts) := by
  have hlength : 0 < filled.currentBatch.length := List.length_pos_iff.mpr hne
  have hremaining : filled.remaining.length = upload.remaining.length := by
    rw [hfilled, upload.fill_remaining batchSize]
  simp only [FileUpload.remaining, List.length_append] at hremaining
  have hattempted : filled.attemptedUploads
      = upload.attemptedUploads + filled.currentBatch.length := by
    rw [hfilled]
    rfl
  have hsame : upload.retryOnFailure = filled.retryOnFailure := by
    rw [hfilled]
    rfl
  rw [Prod.lex_def, Prod.lex_def]
  by_cases hempty : processed.retryChunks = []
  · simp only [FileUpload.measure, FileUpload.next, FileUpload.remaining, hempty, hsame, hattempted,
      List.nil_append, List.length_append, ne_eq, not_true_eq_false, decide_false, Bool.false_and,
      Bool.not_false, Bool.and_true, true_and]
    omega
  · -- Something is tried again, so that was allowed.
    have htrue : filled.retryOnFailure = true := by
      by_contra hfalse
      exact hempty (processed.retry_only (Bool.not_eq_true _ ▸ hfalse))
    by_cases hover : allowedAttempts < filled.attemptedUploads
    · simp [FileUpload.measure, FileUpload.next, hempty, hover, hsame, htrue]
    · simp [FileUpload.measure, FileUpload.next, hover, hsame, htrue]
      omega

/-- `pay_and_upload_file`, from somewhere within its loop. -/
def payAndUploadRemaining (paymentOption : PaymentOption) (allowedAttempts : Nat)
    (upload : FileUpload) : ClientM PutError (Nat × Nat × List Receipt) :=
  let filled := upload.fill client.uploadFlowBatchSize
  if filled.currentBatch = [] then
    return (filled.processedChunks, filled.freeChunks, filled.receipts)
  else do
    let processed ← client.processChunkBatch filled.currentBatch paymentOption
      filled.retryOnFailure
    match processed.putError with
    | some err => throw err
    | none =>
      payAndUploadRemaining paymentOption allowedAttempts
        (filled.next allowedAttempts processed)
termination_by upload.measure allowedAttempts
decreasing_by exact FileUpload.measure_next_lt rfl allowedAttempts (by assumption) processed

/-- How many uploads may be attempted; the machine's arithmetic wraps around. -/
def allowedAttempts (retryFailed : UInt64) (estTotalTodo : Nat) : Nat :=
  (estTotalTodo + max 20 (estTotalTodo * retryFailed.toNat % 2 ^ 64)) % 2 ^ 64

/-- `pay_and_upload_file`: chunks processed, chunks that were free, and the receipts. -/
def payAndUploadFile (paymentOption : PaymentOption) (file : EncryptionStream) :
    ClientM PutError (Nat × Nat × List Receipt) :=
  client.payAndUploadRemaining paymentOption (allowedAttempts client.retryFailed file.totalChunks)
    ⟨file, [], true, 0, 0, 0, []⟩

/-! ### Many files -/

def calculateTotalCost (receipts : List Receipt) : Amount :=
  (receipts.flatMap fun receipt => receipt.entries.map fun entry => entry.2.2).sum

/-- `pay_and_upload`: what it cost. -/
def payAndUpload (paymentOption : PaymentOption) (encryptionStreams : List EncryptionStream) :
    ClientM PutError Amount := do
  let files ← each (client.payAndUploadFile paymentOption) encryptionStreams
  return calculateTotalCost (files.flatMap fun file => file.2.2)

end Autonomi.Client
