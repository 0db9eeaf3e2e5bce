/-
Which chunks an upload leaves behind.

A chunk leaves the current batch only by being stored, or by being left out for want
of an entry in the receipt.  A wallet pays for what is not reported to exist, so that
there the two cases are all there is.  A receipt that is handed in is taken as it is:
what it does not cover is left out without anyone having been asked.
-/
import Autonomi.Client.Upload
import Autonomi.Proofs.Payments

namespace Autonomi.Client

open Lib Lib.Fallible List

/-! ### What is stored -/

def carriedChunk (record : Record) : Option Chunk :=
  match record.value.body with
  | .paid _ (.chunk chunk) => some chunk
  | .merklePaid _ (.chunk chunk) => some chunk
  | _ => none

def storedChunk : ClientExchange → Option Chunk
  | ⟨.putRecord record _ _, .ok _⟩ => carriedChunk record
  | _ => none

def Stored (chunk : Chunk) (es : List ClientExchange) : Prop := ∃ e ∈ es, storedChunk e = some chunk

variable {part : List ClientExchange} {chunk : Chunk}

theorem Stored.mono {es : List ClientExchange} (h : Stored chunk part)
    (hsub : part ⊆ es) : Stored chunk es := by
  obtain ⟨e, he, hstored⟩ := h
  exact ⟨e, hsub he, hstored⟩

variable {client : Client} {es : List ClientExchange}

theorem stored_of_putRecordWithRetries {record : Record} {targets : List PeerId}
    {strategy : Strategy} (hcarried : carriedChunk record = some chunk)
    (h : Runs (putRecordWithRetries record targets strategy) es (.ok ())) : Stored chunk es := by
  obtain ⟨before, last, rfl, hlast⟩ := runs_withRetries_ok h
  obtain ⟨answer, rest, rfl, hrest⟩ := runs_request_bind_iff.mp hlast
  obtain ⟨rfl, hanswer⟩ := runs_fromExcept.mp hrest
  obtain rfl := hanswer
  exact ⟨_, mem_append_right before mem_cons_self, hcarried⟩

/-! ### A batch -/

/-- The error for a chunk carries its own address, where it carries one. -/
def ErrorFor (client : Client) (chunk : Chunk) (err : ChunkUploadError) : Prop :=
  err = .payeesMissing ∨
    ∃ networkError paid, err = .network (.chunkAddress (chunk.name client.crypto)) networkError paid

theorem runs_chunkUploadWithPayment {payment : ProofOfPayment} {price : Amount}
    {r : Except ChunkUploadError XorName}
    (h : Runs (client.chunkUploadWithPayment chunk payment price) es r) :
    Stored chunk es ∧ r.isOk = true ∨ ∃ err, r = .error err ∧ ErrorFor client chunk err := by
  rcases runs_reject_bind_iff.mp h with ⟨-, -, rfl⟩ | ⟨-, hput⟩
  · exact .inr ⟨_, rfl, .inl rfl⟩
  · rcases runs_bind.mp hput with ⟨e, herror, rfl⟩ | ⟨first, second, _, rfl, hok, hrest⟩
    · obtain ⟨x, -, hx⟩ := runs_mapError.mp herror
      cases x with
      | ok _ => cases hx
      | error err => exact .inr ⟨e, rfl, .inr ⟨err, _, Except.error.inj hx⟩⟩
    · obtain ⟨rfl, rfl⟩ := runs_pure.mp hrest
      rw [append_nil]
      exact .inl ⟨stored_of_putRecordWithRetries rfl (runs_mapError_ok.mp hok), rfl⟩

variable {state : ChunkBatchUploadState}

theorem failed_subset_pushError {address : XorName} {err : ChunkUploadError} :
    state.failed ⊆ (state.pushError address err).failed := by
  cases err with
  | payeesMissing => exact subset_append_left _ _
  | network errAddress networkError payment =>
    cases errAddress with
    | chunkAddress chunkAddr => exact subset_append_left _ _
    | peerId _ | graphEntryAddress _ | pointerAddress _ | scratchpadAddress _ | recordKey _ =>
      exact List.Subset.refl _

theorem mem_failed_addUpload {name : XorName} {upload : Chunk × Except ChunkUploadError XorName}
    (h : name ∈ state.failed.map Prod.fst ∨ ∃ chunk err, upload = (chunk, .error err) ∧
      ErrorFor client chunk err ∧ chunk.name client.crypto = name) :
    name ∈ (client.addUpload state upload).failed.map Prod.fst := by
  obtain ⟨chunk, result⟩ := upload
  cases result with
  | ok addr =>
    rcases h with h | ⟨_, _, heq, -⟩
    · exact h
    · cases heq
  | error err =>
    rcases h with h | ⟨_, _, heq, herr, rfl⟩
    · exact map_subset Prod.fst failed_subset_pushError h
    · obtain ⟨rfl, herrEq⟩ := Prod.mk.inj heq
      cases herrEq
      rcases herr with rfl | ⟨networkError, paid, rfl⟩
      · simp [addUpload, ChunkBatchUploadState.pushError]
      · simp [addUpload, ChunkBatchUploadState.pushError]

theorem mem_failed_uploads {uploads : List (Chunk × Except ChunkUploadError XorName)}
    {name : XorName}
    (h : name ∈ state.failed.map Prod.fst ∨ ∃ chunk err, (chunk, .error err) ∈ uploads ∧
      ErrorFor client chunk err ∧ chunk.name client.crypto = name) :
    name ∈ (uploads.foldl client.addUpload state).failed.map Prod.fst := by
  induction uploads generalizing state with
  | nil =>
    rcases h with h | ⟨_, _, hmem, -⟩
    · exact h
    · cases hmem
  | cons first uploads ih =>
    refine ih ?_
    rcases h with h | ⟨chunk, err, hmem, herr, hname⟩
    · exact .inl (mem_failed_addUpload (.inl h))
    · rcases mem_cons.mp hmem with rfl | hmem
      · exact .inl (mem_failed_addUpload (.inr ⟨chunk, err, rfl, herr, hname⟩))
      · exact .inr ⟨chunk, err, hmem, herr, hname⟩

variable {receipt : Receipt}

theorem runs_chunkBatchUpload {chunks : List Chunk} {r : Except PutError Unit}
    (h : Runs (client.chunkBatchUpload chunks receipt) es r) :
    (r = .ok () ∧ ∀ chunk ∈ chunks, chunk.name client.crypto ∈ receipt → Stored chunk es) ∨
      ∃ state, r = .error (.batch state) ∧ ∀ chunk ∈ chunks, chunk.name client.crypto ∈ receipt →
        Stored chunk es ∨ chunk.name client.crypto ∈ state.failed.map Prod.fst := by
  rcases runs_bind.mp h with ⟨e, herror, -⟩ | ⟨first, _, results, rfl, hresults, h₁⟩
  · refine absurd herror (not_runs_each_error fun task part e hpart => ?_)
    obtain ⟨_, _, x, rfl, -, hpure⟩ := runs_attempt_bind_iff.mp hpart
    cases (runs_pure.mp hpure).2
  obtain ⟨order, _, rfl, h₂⟩ := runs_inAnyOrder_bind_iff.mp h₁
  have hperm := arrange_perm results order
  -- A chunk with an entry has a task, and a result.
  have htask : ∀ chunk ∈ chunks, chunk.name client.crypto ∈ receipt →
      ∃ result, (chunk, result) ∈ arrange results order ∧
        (Stored chunk first ∧ result.isOk = true ∨
          ∃ err, result = .error err ∧ ErrorFor client chunk err) := by
    intro chunk hchunk hentry
    obtain ⟨paid, hpaid⟩ := Table.mem_iff_lookup.mp hentry
    have hmem : (chunk, paid) ∈ client.paidChunks receipt chunks :=
      mem_filterMap.mpr ⟨chunk, hchunk, by rw [hpaid]; rfl⟩
    obtain ⟨upload, hupload, part, hsub, hpart⟩ :=
      exists_right_of_forall₂ (forall₂_of_runs_each hresults) hmem
    obtain ⟨_, _, x, rfl, hrun, hpure⟩ := runs_attempt_bind_iff.mp hpart
    obtain ⟨rfl, hx⟩ := runs_pure.mp hpure
    cases hx
    refine ⟨x, hperm.mem_iff.mpr hupload, (runs_chunkUploadWithPayment hrun).imp_left ?_⟩
    rw [append_nil] at hsub
    exact fun hstored => ⟨hstored.1.mono hsub.subset, hstored.2⟩
  rcases runs_reject.mp h₂ with ⟨rfl, ⟨-, rfl⟩ | ⟨hall, rfl⟩⟩
  · refine .inr ⟨_, rfl, fun chunk hchunk hentry => ?_⟩
    obtain ⟨result, hmem, ⟨hstored, -⟩ | ⟨err, rfl, herr⟩⟩ := htask chunk hchunk hentry
    · exact .inl (hstored.mono (subset_append_left _ _))
    · exact .inr (mem_failed_uploads (.inr ⟨chunk, err, hmem, herr, rfl⟩))
  · refine .inl ⟨rfl, fun chunk hchunk hentry => ?_⟩
    obtain ⟨result, hmem, ⟨hstored, -⟩ | ⟨err, rfl, herr⟩⟩ := htask chunk hchunk hentry
    · exact hstored.mono (subset_append_left _ _)
    · exact absurd (any_eq_true.mpr ⟨_, hmem, rfl⟩) hall

/-! ### What leaves a batch -/

/-- Why a chunk that is left out is left out: peers reported it, or the given receipt lacks it. -/
def LeftOut (client : Client) (chunk : Chunk) (es : List ClientExchange) : PaymentOption → Prop
  | .wallet _ => ReportedExisting (chunk.name client.crypto) es
  | .receipt receipt => chunk.name client.crypto ∉ receipt

def Settled (client : Client) (chunk : Chunk) (es : List ClientExchange)
    (paymentOption : PaymentOption) : Prop :=
  Stored chunk es ∨ LeftOut client chunk es paymentOption

variable {chunk : Chunk} {paymentOption : PaymentOption}

theorem LeftOut.mono (h : LeftOut client chunk part paymentOption) (hsub : part.Sublist es) :
    LeftOut client chunk es paymentOption := by
  cases paymentOption with
  | wallet wallet => exact ReportedExisting.mono h hsub
  | receipt receipt => exact h

theorem Settled.mono (h : Settled client chunk part paymentOption) (hsub : part.Sublist es) :
    Settled client chunk es paymentOption :=
  h.imp (fun hstored => hstored.mono hsub.subset) fun hleft => hleft.mono hsub

theorem runs_payForContentAddrs {contentAddrs : List (XorName × Nat)} {free : Nat}
    (hprices : PricesComplete es)
    (h : Runs (client.payForContentAddrs .chunk contentAddrs paymentOption) es
      (.ok (receipt, free))) (hchunk : (chunk.name client.crypto, chunk.size) ∈ contentAddrs) :
    chunk.name client.crypto ∈ receipt ∨ LeftOut client chunk es paymentOption := by
  cases paymentOption with
  | wallet wallet => exact (runs_pay_ok hprices h).1 _ hchunk
  | receipt given =>
    have hgiven := congrArg Prod.fst (Except.ok.inj (runs_pure.mp h).2)
    simp only at hgiven
    rw [hgiven]
    exact Decidable.em _

section Processed

variable {batch : List Chunk} {retryOnFailure : Bool} {processed : ProcessedBatch retryOnFailure}
  (h : Runs (client.processChunkBatch batch paymentOption retryOnFailure) es (.ok processed))
  (hgoesOn : processed.putError = none)

include h hgoesOn

/-- A batch after which the upload goes on: it was not paid for and is tried again, or it was, and
what has an entry was stored or is tried again. -/
theorem processChunkBatch_cases :
    processed.retryChunks <+ batch ∧ (processed.retryChunks = batch ∧ processed.receipts = [] ∨
      ∃ first second receipt free, es = first ++ second ∧
        Runs (client.payForContentAddrs .chunk
          (batch.map fun chunk => (chunk.name client.crypto, chunk.size)) paymentOption) first
          (.ok (receipt, free)) ∧
        processed.receipts = [receipt] ∧
        ∀ chunk ∈ batch, chunk.name client.crypto ∈ receipt →
          chunk ∈ processed.retryChunks ∨ Stored chunk second) := by
  obtain ⟨first, _, paid, rfl, hpaid, h₁⟩ := runs_attempt_bind_iff.mp h
  split at h₁
  · obtain rfl := Except.ok.inj (runs_pure.mp h₁).2
    cases hgoesOn
  · obtain rfl := Except.ok.inj (runs_pure.mp h₁).2
    by_cases hretry : retryOnFailure = true
    · rw [dif_pos hretry]
      exact ⟨Sublist.refl _, .inl ⟨rfl, rfl⟩⟩
    · rw [dif_neg hretry] at hgoesOn
      cases hgoesOn
  · obtain ⟨second, _, uploaded, rfl, huploaded, h₂⟩ := runs_attempt_bind_iff.mp h₁
    rcases runs_chunkBatchUpload huploaded with ⟨rfl, hall⟩ | ⟨state, rfl, hall⟩
    · obtain ⟨rfl, hprocessed⟩ := runs_pure.mp h₂
      obtain rfl := Except.ok.inj hprocessed
      rw [append_nil]
      exact ⟨nil_sublist _, .inr ⟨_, _, _, _, rfl, hpaid, rfl, fun chunk hchunk hentry =>
        .inr (hall chunk hchunk hentry)⟩⟩
    · obtain ⟨rfl, hprocessed⟩ := runs_pure.mp h₂
      obtain rfl := Except.ok.inj hprocessed
      by_cases hretry : retryOnFailure = true
      · rw [dif_pos hretry, append_nil]
        refine ⟨filter_sublist, .inr ⟨_, _, _, _, rfl, hpaid, rfl, fun chunk hchunk hentry => ?_⟩⟩
        refine (hall chunk hchunk hentry).symm.imp_left fun hfailed => ?_
        exact mem_filter.mpr ⟨hchunk, decide_eq_true hfailed⟩
      · rw [dif_neg hretry] at hgoesOn
        cases hgoesOn

theorem runs_processChunkBatch (hprices : PricesComplete es) (hchunk : chunk ∈ batch) :
    chunk ∈ processed.retryChunks ∨ Settled client chunk es paymentOption := by
  rcases (processChunkBatch_cases h hgoesOn).2 with
    ⟨hall, -⟩ | ⟨first, second, receipt, free, rfl, hpaid, -, hentries⟩
  · exact .inl (hall ▸ hchunk)
  · rcases runs_payForContentAddrs (hprices.mono (subset_append_left _ _)) hpaid
      (mem_map.mpr ⟨chunk, hchunk, rfl⟩) with hentry | hleft
    · refine (hentries chunk hchunk hentry).imp_right fun hstored => ?_
      exact .inl (hstored.mono (subset_append_right _ _))
    · exact .inr (.inr (hleft.mono (sublist_append_left _ _)))

end Processed

/-! ### A file and many of them -/

theorem runs_payAndUploadRemaining {allowedAttempts : Nat} {upload : FileUpload}
    {r : Nat × Nat × List Receipt} (hsize : 0 < client.uploadFlowBatchSize)
    (hprices : PricesComplete es)
    (h : Runs (client.payAndUploadRemaining paymentOption allowedAttempts upload) es (.ok r))
    (hchunk : chunk ∈ upload.remaining) : Settled client chunk es paymentOption := by
  induction upload using payAndUploadRemaining.induct client allowedAttempts generalizing es with
  | case1 upload filled =>
    rename_i hempty
    rw [FileUpload.remaining_eq_nil hsize hempty] at hchunk
    cases hchunk
  | case2 upload filled hne =>
    rename_i ih
    rw [payAndUploadRemaining, if_neg hne] at h
    obtain ⟨first, second, processed, rfl, hprocessed, hrest⟩ := runs_bind_eq_ok.mp h
    match herror : processed.putError with
    | some err =>
      rw [herror] at hrest
      cases (runs_throw.mp hrest).2
    | none =>
      rw [herror] at hrest
      have hlater : chunk ∈ (filled.next allowedAttempts processed).remaining →
          Settled client chunk (first ++ second) paymentOption := fun hmem =>
        (ih processed (hprices.mono (subset_append_right _ _)) hrest hmem).mono
          (sublist_append_right _ _)
      rw [← upload.fill_remaining client.uploadFlowBatchSize, FileUpload.remaining,
        mem_append] at hchunk
      rcases hchunk with hbatch | hproduced
      · rcases runs_processChunkBatch hprocessed herror
          (hprices.mono (subset_append_left _ _)) hbatch with hretry | hsettled
        · exact hlater (mem_append_left _ hretry)
        · exact hsettled.mono (sublist_append_left _ _)
      · exact hlater (mem_append_right _ hproduced)

variable {streams : List EncryptionStream}

theorem runs_payAndUpload {cost : Amount} (hsize : 0 < client.uploadFlowBatchSize)
    (hprices : PricesComplete es)
    (h : Runs (client.payAndUpload paymentOption streams) es (.ok cost)) :
    ∀ stream ∈ streams, ∀ chunk ∈ stream.produced, Settled client chunk es paymentOption := by
  obtain ⟨first, second, files, rfl, hfiles, -⟩ := runs_bind_eq_ok.mp h
  intro stream hstream chunk hchunk
  obtain ⟨file, -, part, hsub, hpart⟩ :=
    exists_right_of_forall₂ (forall₂_of_runs_each hfiles) hstream
  have hpartSub : part.Sublist (first ++ second) := hsub.trans (sublist_append_left _ _)
  exact (runs_payAndUploadRemaining hsize (hprices.mono hpartSub.subset) hpart hchunk).mono hpartSub

/-! ### The loop ends -/

/-- A round of the loop after which it goes on, with whatever outcome the batch had. -/
def GoesOn (client : Client) (paymentOption : PaymentOption) (allowedAttempts : Nat)
    (upload next : FileUpload) : Prop :=
  let filled := upload.fill client.uploadFlowBatchSize
  filled.currentBatch ≠ [] ∧ ∃ es processed,
    Runs (client.processChunkBatch filled.currentBatch paymentOption filled.retryOnFailure) es
      (.ok processed) ∧
    processed.putError = none ∧ next = filled.next allowedAttempts processed

/-- Requests of an upload with a receipt: chunks with an entry are sent, and nothing is quoted. -/
def WithReceipt (client : Client) (receipt : Receipt) : ClientRequest → Prop
  | .putRecord record _ _ => ∃ chunk, carriedChunk record = some chunk ∧
      chunk.name client.crypto ∈ receipt
  | .getQuote _ _ _ _ | .getMarketPrice _ => False
  | _ => True

theorem WithReceipt.mem_of_stored {e : ClientExchange} (h : WithReceipt client receipt e.request)
    (hstored : storedChunk e = some chunk) : chunk.name client.crypto ∈ receipt := by
  unfold storedChunk at hstored
  split at hstored
  · obtain ⟨carried, hcarried, hentry⟩ := h
    rw [hstored] at hcarried
    rw [Option.some.inj hcarried]
    exact hentry
  · cases hstored

theorem WithReceipt.not_reportsExisting {e : ClientExchange} {address : NetworkAddress}
    (h : WithReceipt client receipt e.request) : ¬ reportsExisting address e = true := by
  intro hreports
  unfold reportsExisting at hreports
  split at hreports
  · exact h
  · cases hreports

theorem pricesComplete_of_withReceipt (h : ∀ e ∈ es, WithReceipt client receipt e.request) :
    PricesComplete es :=
  fun _ _ hmem => absurd (h _ hmem) id

theorem asks_chunkBatchUpload {chunks : List Chunk} :
    Asks (WithReceipt client receipt) (client.chunkBatchUpload chunks receipt) := by
  refine asks_bind (asks_each fun task htask => ?_) fun _ =>
    asks_bind (asks_inAnyOrder (fun _ => trivial) _) fun _ => asks_reject
  -- A task comes from an entry of the receipt.
  obtain ⟨chunk, -, hpaid⟩ := mem_filterMap.mp htask
  obtain ⟨paid, hlookup, rfl⟩ := Option.map_eq_some_iff.mp hpaid
  have hentry : chunk.name client.crypto ∈ receipt := Table.mem_iff_lookup.mpr ⟨_, hlookup⟩
  refine asks_bind (asks_attempt ?_) fun _ => asks_pure
  refine asks_bind asks_reject fun _ =>
    asks_bind (asks_mapError (asks_withRetries ?_ _)) fun _ => asks_pure
  exact asks_call ⟨chunk, rfl, hentry⟩

theorem asks_payAndUpload :
    Asks (WithReceipt client receipt) (client.payAndUpload (.receipt receipt) streams) := by
  have hbatch : ∀ batch retryOnFailure, Asks (WithReceipt client receipt)
      (client.processChunkBatch batch (.receipt receipt) retryOnFailure) := by
    intro batch retryOnFailure
    rw [processChunkBatch, payForContentAddrs, attempt_pure_bind]
    refine asks_bind (asks_attempt asks_chunkBatchUpload) fun uploaded => ?_
    split
    · exact asks_pure
    · exact asks_pure
  have hfile : ∀ allowedAttempts upload, Asks (WithReceipt client receipt)
      (client.payAndUploadRemaining (.receipt receipt) allowedAttempts upload) := by
    intro allowedAttempts upload
    induction upload using payAndUploadRemaining.induct client allowedAttempts with
    | case1 upload filled =>
      rename_i hempty
      rw [payAndUploadRemaining, if_pos hempty]
      exact asks_pure
    | case2 upload filled hne =>
      rename_i ih
      rw [payAndUploadRemaining, if_neg hne]
      refine asks_bind (hbatch _ _) fun processed => ?_
      split
      · exact asks_throw
      · exact ih processed
  exact asks_bind (asks_each fun stream _ => hfile _ _) fun _ => asks_pure

theorem asks_payAndUpload_zero (hsize : client.uploadFlowBatchSize = 0) :
    Asks (fun _ => False) (client.payAndUpload paymentOption streams) := by
  refine asks_bind (asks_each fun stream _ => ?_) fun _ => asks_pure
  have hempty : ((⟨stream, [], true, 0, 0, 0, []⟩ : FileUpload).fill
      client.uploadFlowBatchSize).currentBatch = [] := by
    rw [hsize]
    rfl
  rw [payAndUploadFile, payAndUploadRemaining, if_pos hempty]
  exact asks_pure

/-! ### Nothing is left behind -/

/--
**When an upload leaves no chunk behind.**  After an upload that succeeds, every chunk
of the streams has been stored or reported to exist exactly when there are no chunks
at all, or the batches have room for a chunk and the payment is by wallet or by a
receipt with an entry for each of them.
-/
theorem uploaded_or_existing_iff (client : Client) (paymentOption : PaymentOption)
    (streams : List EncryptionStream) (es : List ClientExchange) (cost : Amount)
    (hprices : PricesComplete es)
    (h : Runs (client.payAndUpload paymentOption streams) es (.ok cost)) :
    (∀ stream ∈ streams, ∀ chunk ∈ stream.produced,
        Stored chunk es ∨ ReportedExisting (chunk.name client.crypto) es) ↔
      (∀ stream ∈ streams, stream.produced = []) ∨
        0 < client.uploadFlowBatchSize ∧ ∀ receipt, paymentOption = .receipt receipt →
          ∀ stream ∈ streams, ∀ chunk ∈ stream.produced, chunk.name client.crypto ∈ receipt := by
  constructor
  · intro hall
    rcases Nat.eq_zero_or_pos client.uploadFlowBatchSize with hzero | hsize
    · have hnone := asks_runs (asks_payAndUpload_zero hzero) h
      refine .inl fun stream hstream => eq_nil_iff_forall_not_mem.mpr fun chunk hchunk => ?_
      rcases hall stream hstream chunk hchunk with ⟨e, he, -⟩ | hreported
      · exact hnone e he
      · obtain ⟨e, he, -⟩ := countP_pos_iff.mp (Nat.lt_of_lt_of_le (by decide) hreported)
        exact hnone e he
    · refine .inr ⟨hsize, fun receipt hreceipt stream hstream chunk hchunk => ?_⟩
      subst hreceipt
      have hasked := asks_runs asks_payAndUpload h
      rcases hall stream hstream chunk hchunk with ⟨e, he, hstored⟩ | hreported
      · exact (hasked e he).mem_of_stored hstored
      · obtain ⟨e, he, hreport⟩ := countP_pos_iff.mp (Nat.lt_of_lt_of_le (by decide) hreported)
        exact absurd hreport (hasked e he).not_reportsExisting
  · intro hcondition
    rcases hcondition with hnone | ⟨hsize, hcovers⟩
    · intro stream hstream chunk hchunk
      rw [hnone stream hstream] at hchunk
      cases hchunk
    · intro stream hstream chunk hchunk
      refine (runs_payAndUpload hsize hprices h stream hstream chunk hchunk).imp_right ?_
      intro hleft
      cases paymentOption with
      | wallet wallet => exact hleft
      | receipt receipt => exact absurd (hcovers receipt rfl stream hstream chunk hchunk) hleft

def sampleStream : EncryptionStream where
  filePath := ""
  relativePath := ""
  metadata := ⟨0, 0, 0, none⟩
  isPublic := false
  state := .inMemory [⟨[1, 2, 3]⟩] ⟨[4]⟩

theorem exists_runs_files_sampleStream {receipt : Receipt}
    (h : ((sampleClient.processChunkBatch [⟨[1, 2, 3]⟩] (.receipt receipt) true).run.trace
      sampleAnswer).2 = .ok (.final [receipt] 0 none)) (n : Nat) :
    ∃ es, Runs (each (sampleClient.payAndUploadFile (.receipt receipt))
      (List.replicate n sampleStream)) es (.ok (List.replicate n (1, 0, [receipt]))) := by
  have hbatch := Program.executes_trace sampleAnswer
    (sampleClient.processChunkBatch [⟨[1, 2, 3]⟩] (.receipt receipt) true).run
  rw [h] at hbatch
  generalize (Program.trace _ _).1 = es at hbatch
  have hfile : Runs (sampleClient.payAndUploadFile (.receipt receipt) sampleStream) es
      (.ok (1, 0, [receipt])) := by
    rw [payAndUploadFile, payAndUploadRemaining, if_neg]
    · refine runs_bind_last hbatch (?_ : Runs (sampleClient.payAndUploadRemaining _ _ _) [] _)
      rw [payAndUploadRemaining, if_pos]
      · exact runs_return
      · rfl
    · exact cons_ne_nil _ _
  induction n with
  | zero => exact ⟨[], runs_each_nil.mpr ⟨rfl, rfl⟩⟩
  | succ n ih =>
    obtain ⟨rest, hrest⟩ := ih
    exact ⟨es ++ rest, runs_each_cons_ok.mpr ⟨es, rest, _, _, rfl, rfl, hfile, hrest⟩⟩

def sampleReceipt : Receipt :=
  (∅ : Receipt).insert ((⟨[1, 2, 3]⟩ : Chunk).name Crypto.simple)
    (⟨[([7], sampleQuote [7])]⟩, 0)

theorem runs_putRecordWithRetries {record : Record} {targets : List PeerId} {strategy : Strategy}
    (h : 0 < strategy.putRetry.backoff) :
    Runs (putRecordWithRetries record targets strategy)
      [⟨.putRecord record targets strategy.putQuorum, .ok ()⟩] (.ok ()) :=
  runs_withRetries_of_ok h (runs_request_bind (runs_fromExcept.mpr ⟨rfl, rfl⟩))

/-- With that receipt the chunk is sent and stored. -/
theorem uploaded_or_existing_sample :
    ∃ es cost, Runs (sampleClient.payAndUpload (.receipt sampleReceipt) [sampleStream]) es
      (.ok cost) ∧ (Stored ⟨[1, 2, 3]⟩ es ∨
        ReportedExisting ((⟨[1, 2, 3]⟩ : Chunk).name Crypto.simple) es) := by
  obtain ⟨es, hfiles⟩ := @exists_runs_files_sampleStream sampleReceipt rfl 1
  have hrun : Runs (sampleClient.payAndUpload (.receipt sampleReceipt) [sampleStream]) es _ :=
    runs_bind_last hfiles runs_return
  have hprices := pricesComplete_of_withReceipt (asks_runs asks_payAndUpload hrun)
  refine ⟨_, _, hrun, ?_⟩
  refine (uploaded_or_existing_iff _ _ _ _ _ hprices hrun).mpr (.inr ⟨by decide, ?_⟩)
    sampleStream mem_cons_self ⟨[1, 2, 3]⟩ mem_cons_self
  intro receipt hreceipt stream hstream chunk hchunk
  cases hreceipt
  rw [mem_singleton.mp hstream] at hchunk
  rw [mem_singleton.mp hchunk]
  exact AList.mem_insert _ |>.mpr (.inl rfl)

/-- With an empty one it is not, and nobody notices. -/
theorem chunk_left_behind :
    ¬ ∀ (client : Client) (paymentOption : PaymentOption) (streams : List EncryptionStream)
      (es : List ClientExchange) (cost : Amount), PricesComplete es →
      Runs (client.payAndUpload paymentOption streams) es (.ok cost) →
      ∀ stream ∈ streams, ∀ chunk ∈ stream.produced,
        Stored chunk es ∨ ReportedExisting (chunk.name client.crypto) es := by
  intro h
  obtain ⟨es, hfiles⟩ := @exists_runs_files_sampleStream ∅ rfl 1
  have hrun : Runs (sampleClient.payAndUpload (.receipt ∅) [sampleStream]) es _ :=
    runs_bind_last hfiles runs_return
  have hasked := asks_runs asks_payAndUpload hrun
  rcases h _ _ _ _ _ (pricesComplete_of_withReceipt hasked) hrun sampleStream
    mem_cons_self ⟨[1, 2, 3]⟩ mem_cons_self with ⟨e, he, hstored⟩ | hreported
  · exact AList.notMem_empty _ ((hasked e he).mem_of_stored hstored)
  · obtain ⟨e, he, hreport⟩ := countP_pos_iff.mp (Nat.lt_of_lt_of_le (by decide) hreported)
    exact (hasked e he).not_reportsExisting hreport

/-! ### What an upload costs -/

/-- With a receipt, whatever is returned of a batch is the receipt. -/
theorem eq_of_mem_receipts {allowedAttempts : Nat} {upload : FileUpload}
    {r : Nat × Nat × List Receipt}
    (h : Runs (client.payAndUploadRemaining (.receipt receipt) allowedAttempts upload) es (.ok r))
    (hbefore : ∀ paid ∈ upload.receipts, paid = receipt) : ∀ paid ∈ r.2.2, paid = receipt := by
  induction upload using payAndUploadRemaining.induct client allowedAttempts generalizing es with
  | case1 upload filled =>
    rename_i hempty
    rw [payAndUploadRemaining, if_pos hempty] at h
    obtain rfl := Except.ok.inj (runs_pure.mp h).2
    exact hbefore
  | case2 upload filled hne =>
    rename_i ih
    rw [payAndUploadRemaining, if_neg hne] at h
    obtain ⟨first, second, processed, rfl, hprocessed, hrest⟩ := runs_bind_eq_ok.mp h
    match herror : processed.putError with
    | some err =>
      rw [herror] at hrest
      cases (runs_throw.mp hrest).2
    | none =>
      rw [herror] at hrest
      refine ih processed hrest fun paid hpaid => ?_
      rcases mem_append.mp hpaid with hpaid | hpaid
      · exact hbefore paid hpaid
      · rcases (processChunkBatch_cases hprocessed herror).2 with
          ⟨-, hnone⟩ | ⟨_, _, own, _, -, hpays, hone, -⟩
        · rw [hnone] at hpaid
          cases hpaid
        · rw [hone] at hpaid
          cases (runs_pure.mp hpays).2
          exact mem_singleton.mp hpaid

theorem calculateTotalCost_replicate (n : Nat) :
    calculateTotalCost (List.replicate n receipt) = n • calculateTotalCost [receipt] := by
  simp [calculateTotalCost, flatMap_replicate, sum_flatten]

/-- Tokens paid for something else than the sample's chunk, which is skipped. -/
def otherReceipt : Receipt := (∅ : Receipt).insert (bytes32 1) (⟨[]⟩, 1)

end Autonomi.Client
