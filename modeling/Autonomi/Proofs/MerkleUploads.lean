/-
Uploads in batches, and whole uploads.

An upload asks for the files twice and, in between, for the chunks it has no payment
for.  What it goes on to do is determined by the two orders in which the files were
opened, by the receipt and by which chunks are present: these tell which names are new,
and so the batches.
-/
import Autonomi.Proofs.MerkleBatches

namespace Autonomi.Client

open Lib Lib.Fallible List

variable {client : Client} {maxChunkSize : Nat} {wallet : Option Wallet}
  {es : List ClientExchange} {receipt : MerklePaymentReceipt}

/-! ### What is asked for -/

/-- Requests that go into the payment for a tree over these leaves. -/
def ForTree (leaves : List XorName) : ClientRequest → Prop
  | .drawSalts drawn => drawn = leaves
  | .unixTime | .getMerkleCandidatePool _ _ _ _ | .estimateMerkleTreeCost _ _ _
  | .balanceOfTokens | .tokenAllowance _ | .approveToSpendTokens _ _ | .payForMerkleTree _ _ _
  | .merklePaymentEvent _ => True
  | _ => False

def ForChunks : ClientRequest → Prop
  | .getClosestPeers _ _ | .getClosestPeersKadOnly _ _ | .putRecord _ _ _ | .order _ => True
  | _ => False

theorem asks_payForMerkleTree (wallet : Wallet) (leaves : List XorName) (depth : UInt8)
    (commitments : List PoolCommitment) (timestamp : UInt64) :
    Asks (ForTree leaves) (wallet.payForMerkleTree depth commitments timestamp) := by
  refine asks_bind asks_reject fun _ => asks_bind asks_fromExcept fun _ =>
    asks_call_bind trivial fun _ =>
      asks_bind (asks_ensureTokens _ _ trivial trivial fun _ => trivial) fun _ => ?_
  exact asks_call_bind trivial fun _ =>
    asks_bind (asks_mapError (asks_getMerklePaymentEvent _ _ trivial)) fun _ => asks_pure

theorem asks_payForSingleMerkleBatch (dataType : DataTypes) (addresses : List XorName)
    (dataSize : Nat) (wallet : Wallet) :
    Asks (ForTree (paddedAddresses addresses))
      (client.payForSingleMerkleBatch dataType addresses dataSize wallet) := by
  refine asks_bind (asks_prepareMerkleBatch _ _ _ _ rfl trivial fun _ _ => trivial)
    fun prepared => ?_
  exact asks_bind (asks_mapError (asks_payForMerkleTree _ _ _ _ _)) fun _ =>
    asks_bind asks_fromExcept fun _ =>
      asks_bind asks_fromExcept fun _ => asks_pure

theorem asks_receiptForBatch (wallet : Option Wallet) (batch : List XorName)
    (receipt : MerklePaymentReceipt) :
    Asks (ForTree (paddedAddresses batch))
      (client.receiptForBatch maxChunkSize wallet batch receipt) := by
  refine asks_ite (asks_mapError ?_) asks_pure
  exact asks_bind asks_fromExcept fun _ =>
    asks_bind (asks_mapError (asks_payForSingleMerkleBatch _ _ _ _)) fun _ =>
      asks_pure

theorem asks_runMerkleTasks (tasks : List (Chunk × MerklePaymentProof)) :
    Asks ForChunks (client.runMerkleTasks tasks) := by
  have hput : ∀ record targets, Asks ForChunks (putRecordWithRetries record targets client.chunks) :=
    fun record targets => asks_withRetries (asks_call trivial) _
  have hchunk : ∀ chunk proof, Asks ForChunks (client.uploadChunkWithMerkleProof chunk proof) := by
    intro chunk proof
    refine asks_bind (asks_bind (asks_storingNodes (fun _ => trivial) fun _ => trivial) fun nodes =>
        asks_bind (asks_attempt (hput _ _)) fun sent => ?_) fun _ =>
          asks_pure
    match sent with
    | .ok () => exact asks_pure
    | .error _ => exact asks_bind (asks_kadOnlyPeers fun _ => trivial) fun _ => hput _ _
  refine asks_bind (asks_each fun task _ => ?_) fun _ =>
    asks_inAnyOrder (fun _ => trivial) _
  exact asks_bind (asks_attempt (hchunk _ _)) fun _ => asks_pure

theorem asks_uploadBatchRemaining (receipt : MerklePaymentReceipt) (limit : Nat)
    (upload : MerkleBatchUpload) :
    Asks ForChunks (client.uploadBatchRemaining receipt limit upload) := by
  induction limit, upload using uploadBatchRemaining.induct client with
  | case1 upload =>
    rw [uploadBatchRemaining_stop (.inl rfl)]
    exact asks_pure
  | case2 limit upload hlimit hnil =>
    rw [uploadBatchRemaining_stop (.inr hnil)]
    exact asks_pure
  | case3 limit upload hlimit stream streams hstreams batchToGet chunks rest hchunks =>
    rename_i ih
    rw [uploadBatchRemaining_cons hlimit hstreams, if_pos hchunks]
    exact asks_bind asks_fromExcept ih
  | case4 limit upload hlimit stream streams hstreams batchToGet chunks rest hchunks =>
    rename_i ih
    rw [uploadBatchRemaining_cons hlimit hstreams, if_neg hchunks]
    exact asks_bind asks_fromExcept fun tasks =>
      asks_bind (asks_runMerkleTasks tasks) (ih tasks)

theorem asks_retryFailedMerkleChunks (receipt : MerklePaymentReceipt) (retries : Nat)
    (failed : List (Chunk × NetworkError)) (alreadyExist : Finset XorName) :
    Asks ForChunks (client.retryFailedMerkleChunks receipt retries failed alreadyExist) := by
  induction retries generalizing failed alreadyExist with
  | zero => exact asks_pure
  | succ retries ih =>
    exact asks_ite asks_pure (asks_bind asks_fromExcept
      fun tasks => asks_bind (asks_runMerkleTasks tasks) fun _ => ih _ _)

/-! ### Proofs for a batch -/

theorem runs_receiptForBatch_ok {batch : List XorName} {paid : MerklePaymentReceipt}
    (h : Runs (client.receiptForBatch maxChunkSize wallet batch receipt) es (.ok paid)) :
    ∀ name, name ∈ paid.proofs ↔ name ∈ receipt.proofs ∨ name ∈ batch := by
  intro name
  unfold receiptForBatch at h
  split at h
  · obtain ⟨owner, -, h₁⟩ := runs_fromExcept_bind_eq_ok.mp (runs_mapError_ok.mp h)
    obtain ⟨first, _, batchReceipt, rfl, hpaid, h₂⟩ := runs_bind_eq_ok.mp h₁
    obtain ⟨-, hmerged⟩ := runs_pure.mp h₂
    cases hmerged
    obtain ⟨-, -, hproofs⟩ := runs_payForSingleMerkleBatch_ok (runs_mapError_ok.mp hpaid)
    rw [MerklePaymentReceipt.merge, AList.mem_union, hproofs, or_comm]
  · rename_i hnone
    obtain ⟨-, hsame⟩ := runs_pure.mp h
    cases hsame
    refine (or_iff_left_of_imp fun hname => ?_).symm
    by_contra hproof
    exact hnone (any_eq_true.mpr ⟨name, hname, decide_eq_true hproof⟩)

/-- The chunk of which an error says that its proof is missing. -/
def MerkleUploadErrorWithReceipt.missingProof (err : MerkleUploadErrorWithReceipt) :
    Option XorName :=
  match err.error with
  | .upload (.missingPaymentProofFor name) => some name
  | _ => none

/-- There are proofs for the names, or a wallet to pay for them. -/
def Funded (wallet : Option Wallet) (receipt : MerklePaymentReceipt) (names : List XorName) :
    Prop :=
  wallet ≠ none ∨ ∀ name ∈ names, name ∈ receipt.proofs

variable {names : List XorName}

theorem Funded.mono {fewer : List XorName} {more : MerklePaymentReceipt}
    (h : Funded wallet receipt names) (hfewer : fewer ⊆ names)
    (hmore : ∀ name ∈ receipt.proofs, name ∈ more.proofs) : Funded wallet more fewer :=
  h.imp_right fun hproofs name hname => hmore name (hproofs name (hfewer hname))

variable {err : MerkleUploadErrorWithReceipt}

theorem runs_receiptForBatch_error {batch : List XorName} (hfunds : Funded wallet receipt batch)
    (h : Runs (client.receiptForBatch maxChunkSize wallet batch receipt) es (.error err)) :
    err.missingProof = none := by
  unfold receiptForBatch at h
  split at h
  · rename_i hneeds
    obtain ⟨needed, hneeded, hproof⟩ := any_eq_true.mp hneeds
    have hwallet : wallet ≠ none :=
      hfunds.resolve_right fun hproofs => of_decide_eq_true hproof (hproofs needed hneeded)
    obtain ⟨x, hx, heq⟩ := runs_mapError.mp h
    rcases runs_fromExcept_bind_iff.mp hx with ⟨e, he, -⟩ | ⟨_, -, hx⟩
    · obtain ⟨owner, rfl⟩ := Option.ne_none_iff_exists'.mp hwallet
      cases he
    rcases runs_bind.mp hx with ⟨e, hpaid, rfl⟩ | ⟨first, _, batchReceipt, rfl, -, h₁⟩
    · obtain ⟨y, -, hy⟩ := runs_mapError.mp hpaid
      match y, hy with
      | .error e, hy =>
        cases hy
        cases heq
        rfl
    · obtain ⟨-, rfl⟩ := runs_pure.mp h₁
      cases heq
  · cases (runs_pure.mp h).2

/-! ### One batch -/

def MerkleUpload.todo (client : Client) (state : MerkleUpload) : List XorName :=
  (client.queued state.streams).filter (· ∉ state.alreadyExist)

structure BatchDone (client : Client) (batch : List XorName) (state next : MerkleUpload)
    (tried : List XorName) : Prop where
  round : Round state.alreadyExist batch.length (client.queued state.streams) tried
    (client.queued next.streams)
  proofs : ∀ name, name ∈ next.receipt.proofs ↔ name ∈ state.receipt.proofs ∨ name ∈ batch
  proved : ∀ name ∈ tried, name ∈ next.receipt.proofs
  tried_iff : ∀ name, name ∈ next.alreadyExist ↔ name ∈ state.alreadyExist ∨ name ∈ tried

variable {batch : List XorName} {state next : MerkleUpload}

section OneBatch

variable
  (h : Runs (client.payAndUploadMerkleBatch maxChunkSize wallet batch state) es (.ok next))

include h

theorem runs_payAndUploadMerkleBatch_parts :
    ∃ first second third paid uploaded, es = first ++ (second ++ third) ∧
      Runs (client.receiptForBatch maxChunkSize wallet batch state.receipt) first (.ok paid) ∧
      Runs (client.uploadBatchWithMerkle state.streams paid state.alreadyExist batch.length) second
        (.ok uploaded) ∧
      Runs (client.retryFailedMerkleChunks paid client.maxRetries uploaded.failedChunks
        uploaded.dontReupload) third (.ok ([], next.alreadyExist)) ∧
      next.receipt.proofs = paid.proofs ∧ next.streams = uploaded.streams := by
  obtain ⟨first, _, paid, rfl, hpaid, h₁⟩ := runs_bind_eq_ok.mp h
  obtain ⟨second, _, uploaded, rfl, huploaded, h₂⟩ := runs_bind_eq_ok.mp h₁
  obtain ⟨third, _, retried, rfl, hretried, h₃⟩ := runs_bind_eq_ok.mp h₂
  obtain ⟨remaining, after⟩ := retried
  obtain ⟨hnone, h₄⟩ := runs_reject_bind_eq_ok.mp h₃
  obtain ⟨rfl, hnext⟩ := runs_pure.mp h₄
  cases hnext
  obtain rfl := not_not.mp hnone
  exact ⟨first, second, third, paid, uploaded, by rw [append_nil], hpaid,
    runs_mapError_ok.mp huploaded, runs_mapError_ok.mp hretried, rfl, rfl⟩

theorem runs_payAndUploadMerkleBatch_stored (name : XorName) :
    (name ∈ next.receipt.proofs ↔ name ∈ state.receipt.proofs ∨ name ∈ batch) ∧
      (name ∈ next.alreadyExist ↔ name ∈ state.alreadyExist ∨ StoredName client name es) := by
  obtain ⟨first, second, third, paid, uploaded, rfl, hpaid, huploaded, hretried, hproofs, -⟩ :=
    runs_payAndUploadMerkleBatch_parts h
  constructor
  · rw [hproofs, runs_receiptForBatch_ok hpaid]
  · have hquiet : ¬ StoredName client name first :=
      not_storedName_of_never (fun _ _ _ => id) (asks_runs (asks_receiptForBatch _ _ _) hpaid)
    obtain ⟨_, _, hok, hafter, -⟩ :=
      runs_retryFailedMerkleChunks (runs_uploadBatchWithMerkle huploaded).2 hretried
    cases hok
    rw [hafter, (runs_uploadBatchWithMerkle huploaded).1, storedName_append, storedName_append,
      or_iff_right hquiet, or_assoc]

theorem runs_payAndUploadMerkleBatch_ok (hsize : 0 < client.uploadFlowBatchSize) :
    ∃ tried, BatchDone client batch state next tried := by
  obtain ⟨first, second, third, paid, uploaded, rfl, hpaid, huploaded, hretried, hproofs,
    hstreams⟩ := runs_payAndUploadMerkleBatch_parts h
  rcases runs_uploadBatchRemaining hsize huploaded with
    ⟨_, tried, hok, hround, htried⟩ | ⟨_, herr, -⟩ | herr
  · cases hok
    have hfailed : ∀ name ∈ client.failedNames uploaded.failedChunks, name ∈ tried :=
      fun name hname => (htried.failed name hname).resolve_left not_mem_nil
    obtain ⟨_, _, hok, hafter, hstored, hall⟩ :=
      runs_retryFailedMerkleChunks (runs_uploadBatchWithMerkle huploaded).2 hretried
    cases hok
    refine ⟨tried, hstreams ▸ hround, fun name =>
      (runs_payAndUploadMerkleBatch_stored h name).1, fun name hname => ?_, fun name => ?_⟩
    · rw [hproofs]
      exact htried.proved name hname
    · constructor
      · rw [hafter, htried.exists_iff, or_assoc]
        exact Or.imp_right fun hname => hname.elim (htried.stored name) fun hlater =>
          hfailed name (hstored name hlater)
      · intro hname
        rcases hname with hname | hname
        · exact (hafter name).mpr (.inl ((htried.exists_iff name).mpr (.inl hname)))
        · rcases htried.ends name hname with hname | hname
          · exact (hafter name).mpr (.inl ((htried.exists_iff name).mpr (.inr hname)))
          · exact hall rfl name hname
  · cases herr
  · cases herr

end OneBatch

theorem runs_payAndUploadMerkleBatch_missing {name : XorName}
    (hfunds : Funded wallet state.receipt batch)
    (h : Runs (client.payAndUploadMerkleBatch maxChunkSize wallet batch state) es (.error err))
    (hmissing : err.missingProof = some name) :
    0 < client.uploadFlowBatchSize ∧ name ∉ state.receipt.proofs ∧ name ∉ batch ∧
      Comes state.alreadyExist batch.length (client.queued state.streams) name := by
  rcases runs_bind.mp h with ⟨e, hfails, he⟩ | ⟨first, _, paid, rfl, hpaid, h₁⟩
  · cases he
    rw [runs_receiptForBatch_error hfunds hfails] at hmissing
    cases hmissing
  rcases runs_bind.mp h₁ with ⟨e, hfails, he⟩ | ⟨second, _, uploaded, rfl, huploaded, h₂⟩
  · obtain ⟨x, hx, heq⟩ := runs_mapError.mp hfails
    match x, heq with
    | .error put, heq =>
      cases he
      cases heq
      match put, hmissing with
      | .missingPaymentProofFor other, hmissing =>
        cases hmissing
        obtain ⟨hsize, hproof, hcomes⟩ := runs_uploadBatchRemaining_missing hx
        rw [runs_receiptForBatch_ok hpaid, not_or] at hproof
        exact ⟨hsize, hproof.1, hproof.2, hcomes⟩
  have hretry : ∀ {part x}, Runs (client.retryFailedMerkleChunks paid client.maxRetries
      uploaded.failedChunks uploaded.dontReupload) part x → ∃ after, x = .ok after := by
    intro part x hx
    obtain ⟨remaining, after, rfl, -⟩ := runs_retryFailedMerkleChunks
      (runs_uploadBatchWithMerkle (runs_mapError_ok.mp huploaded)).2 hx
    exact ⟨_, rfl⟩
  rcases runs_bind.mp h₂ with ⟨e, hfails, -⟩ | ⟨third, _, retried, rfl, -, h₃⟩
  · obtain ⟨x, hx, heq⟩ := runs_mapError.mp hfails
    obtain ⟨after, rfl⟩ := hretry hx
    cases heq
  rcases runs_reject_bind_iff.mp h₃ with ⟨-, -, herr⟩ | ⟨-, h₄⟩
  · cases herr
    cases hmissing
  · cases (runs_pure.mp h₄).2

/-- A batch that comes to no chunk twice uploads the first ones that are to do. -/
theorem BatchDone.todo {tried : List XorName} (h : BatchDone client batch state next tried)
    (hnodup : ((state.todo client).take batch.length).Nodup) :
    next.todo client = leftAfter batch.length (state.todo client) ∧
      ∀ name ∈ (state.todo client).take batch.length, name ∈ tried := by
  have hexists : next.alreadyExist = state.alreadyExist ∪ tried.toFinset := by
    ext name
    rw [h.tried_iff, Finset.mem_union, mem_toFinset]
  rw [MerkleUpload.todo, hexists]
  exact h.round.left hnodup

/-! ### All batches -/

variable {bs : List (List XorName)}

section AllPaid

variable
  (h : Runs (client.payAndUploadMerkleBatches maxChunkSize wallet bs state) es (.ok next))

include h

theorem runs_payAndUploadMerkleBatches_stored (name : XorName) :
    name ∈ next.alreadyExist ↔ name ∈ state.alreadyExist ∨ StoredName client name es := by
  induction bs generalizing state es with
  | nil =>
    obtain ⟨rfl, hnext⟩ := runs_pure.mp h
    cases hnext
    simp
  | cons batch bs ih =>
    obtain ⟨first, second, middle, rfl, hbatch, hrest⟩ := runs_bind_eq_ok.mp h
    rw [ih hrest, (runs_payAndUploadMerkleBatch_stored hbatch name).2, storedName_append, or_assoc]

theorem runs_payAndUploadMerkleBatches_ok (hsize : 0 < client.uploadFlowBatchSize) :
    (∀ name ∈ client.queued state.streams,
      name ∈ next.alreadyExist ∨ name ∈ client.queued next.streams) ∧
    (Spread (bs.map List.length) (state.todo client) →
      next.todo client = remaining (bs.map List.length) (state.todo client)) := by
  induction bs generalizing state es with
  | nil =>
    obtain ⟨rfl, hnext⟩ := runs_pure.mp h
    cases hnext
    exact ⟨fun _ => .inr, fun _ => rfl⟩
  | cons batch bs ih =>
    obtain ⟨first, second, middle, rfl, hbatch, hrest⟩ := runs_bind_eq_ok.mp h
    obtain ⟨tried, hdone⟩ := runs_payAndUploadMerkleBatch_ok hbatch hsize
    obtain ⟨hqueued, hleft⟩ := ih hrest
    refine ⟨fun name hname => ?_, fun hspread => ?_⟩
    · obtain ⟨front, hfront, -, hskipped⟩ := hdone.round.drawn
      rw [hfront] at hname
      rcases mem_append.mp hname with hname | hname
      · refine .inl ((runs_payAndUploadMerkleBatches_stored hrest name).mpr (.inl ?_))
        exact (hdone.tried_iff name).mpr (hskipped name hname)
      · exact hqueued name hname
    · obtain ⟨hnodup, hspread⟩ := hspread
      rw [← (hdone.todo hnodup).1] at hspread
      rw [hleft hspread, (hdone.todo hnodup).1]
      rfl

/-- Batches that come to no chunk twice and go through have proofs for what they come to. -/
theorem proved_of_runs (hsize : 0 < client.uploadFlowBatchSize) {given : XorName → Prop}
    (hspread : Spread (bs.map List.length) (state.todo client))
    (hgiven : ∀ name ∈ state.receipt.proofs, given name) (k : Nat) :
    ∀ name ∈ (unique ∅ (state.todo client)).take (bs.take k).flatten.length,
      given name ∨ name ∈ (bs.take k).flatten := by
  induction bs generalizing state es given k with
  | nil =>
    intro name hname
    rw [take_nil] at hname
    cases hname
  | cons batch bs ih =>
    intro name hname
    match k with
    | 0 => cases hname
    | k + 1 =>
      obtain ⟨first, second, middle, rfl, hbatch, hrest⟩ := runs_bind_eq_ok.mp h
      obtain ⟨tried, hdone⟩ := runs_payAndUploadMerkleBatch_ok hbatch hsize
      obtain ⟨hnodup, hspread⟩ := hspread
      obtain ⟨hleft, htried⟩ := hdone.todo hnodup
      rw [← hleft] at hspread
      have hproofs : ∀ name ∈ middle.receipt.proofs, given name ∨ name ∈ batch := fun name hname =>
        ((hdone.proofs name).mp hname).imp_left (hgiven name)
      rw [take_succ_cons, flatten_cons, length_append,
        unique_eq_take_append hnodup, take_append, mem_append] at hname
      rw [take_succ_cons, flatten_cons, mem_append, ← or_assoc]
      rcases hname with hname | hname
      · exact .inl (hproofs name (hdone.proved name (htried name (mem_of_mem_take hname))))
      · refine ih hrest hspread hproofs k name ?_
        rw [hleft]
        rw [length_take] at hname
        by_cases hshort : (state.todo client).length < batch.length
        · rw [leftAfter, drop_of_length_le (le_of_lt hshort)] at hname
          simp at hname
        · rwa [Nat.min_eq_left (Nat.not_lt.mp hshort), Nat.add_sub_cancel_left] at hname

end AllPaid

theorem dataMaps_of_noRoom (hsize : client.uploadFlowBatchSize = 0) (hne : batch ≠ [])
    (h : Runs (client.payAndUploadMerkleBatches maxChunkSize wallet (batch :: bs) state) es
      (.ok next)) : ∀ stream ∈ state.streams, stream.dataMapChunk ≠ none := by
  obtain ⟨_, _, middle, rfl, hbatch, -⟩ := runs_bind_eq_ok.mp h
  obtain ⟨_, _, _, paid, uploaded, rfl, -, huploaded, -⟩ := runs_payAndUploadMerkleBatch_parts hbatch
  rcases runs_uploadBatchRemaining_noRoom hsize huploaded with
    ⟨herr, -⟩ | ⟨_, -, -, -, -, -, hmaps⟩
  · cases herr
  · exact hmaps (length_pos_iff.mpr hne).ne'

/-- Where the second pass is, after the first so many batches: what came up so far. -/
structure Passed (client : Client) (all : List XorName) (existing : Finset XorName)
    (before : List (List XorName)) (state : MerkleUpload) : Prop where
  queue : ∃ (front : List XorName) (tried : Finset XorName),
    all = front ++ client.queued state.streams ∧ tried.card ≤ before.flatten.length ∧
    (∀ name ∈ front, name ∈ existing ∨ name ∈ tried) ∧
    ∀ name ∈ state.alreadyExist, name ∈ existing ∨ name ∈ tried
  existing : existing ⊆ state.alreadyExist

theorem Passed.afterBatch {all : List XorName} {existing : Finset XorName}
    {before : List (List XorName)} {tried : List XorName}
    (h : Passed client all existing before state)
    (hdone : BatchDone client batch state next tried) :
    Passed client all existing (before ++ [batch]) next := by
  obtain ⟨⟨front, earlier, hall, hcard, hfront, hexist⟩, hexisting⟩ := h
  obtain ⟨drawn, hdrawn, -, hskipped⟩ := hdone.round.drawn
  have hnext : ∀ name ∈ next.alreadyExist, name ∈ existing ∨ name ∈ earlier ∪ tried.toFinset := by
    intro name hname
    rw [Finset.mem_union, mem_toFinset, ← or_assoc]
    exact ((hdone.tried_iff name).mp hname).imp_left (hexist name)
  refine ⟨⟨front ++ drawn, earlier ∪ tried.toFinset, ?_, ?_, fun name hname => ?_, hnext⟩, ?_⟩
  · rw [hall, hdrawn, append_assoc]
  · have hunion := Finset.card_union_le earlier tried.toFinset
    have htried := toFinset_card_le tried
    have hquota := hdone.round.length_le
    rw [flatten_append, length_append, flatten_singleton]
    omega
  · rcases mem_append.mp hname with hname | hname
    · exact (hfront name hname).imp_right (Finset.mem_union_left _)
    · exact hnext name ((hdone.tried_iff name).mpr (hskipped name hname))
  · exact fun name hname => (hdone.tried_iff name).mpr (.inl (hexisting hname))

theorem Funded.afterBatch (hfunds : Funded wallet state.receipt (batch :: bs).flatten)
    (h : Runs (client.payAndUploadMerkleBatch maxChunkSize wallet batch state) es (.ok next)) :
    Funded wallet next.receipt bs.flatten :=
  hfunds.mono (subset_append_right _ _) fun name hname =>
    (runs_payAndUploadMerkleBatch_stored h name).1.mpr (.inl hname)

theorem pos_of_missing (hfunds : Funded wallet state.receipt bs.flatten)
    (h : Runs (client.payAndUploadMerkleBatches maxChunkSize wallet bs state) es (.error err))
    (hmissing : err.missingProof ≠ none) : 0 < client.uploadFlowBatchSize := by
  induction bs generalizing state es with
  | nil => cases (runs_pure.mp h).2
  | cons batch bs ih =>
    rcases runs_bind.mp h with
      ⟨e, hbatch, he⟩ | ⟨first, second, middle, rfl, hbatch, hrest⟩
    · cases he
      obtain ⟨name, hname⟩ := Option.ne_none_iff_exists'.mp hmissing
      exact (runs_payAndUploadMerkleBatch_missing
        (hfunds.mono (subset_append_left _ _) fun _ => id) hbatch hname).1
    · exact ih (hfunds.afterBatch hbatch) hrest

/--
No proof is missing if, after each batch, there are proofs for as many of the chunks
that come first as there are names in the batches so far.
-/
theorem not_missing_of_proved {all : List XorName} {existing : Finset XorName}
    {before : List (List XorName)} {given : XorName → Prop}
    (hfunds : Funded wallet state.receipt bs.flatten)
    (hpassed : Passed client all existing before state)
    (hproofs : ∀ name, given name ∨ name ∈ before.flatten → name ∈ state.receipt.proofs)
    (hproved : ∀ k, ∀ name ∈ (unique existing all).take ((before ++ bs).take k).flatten.length,
      given name ∨ name ∈ ((before ++ bs).take k).flatten)
    (h : Runs (client.payAndUploadMerkleBatches maxChunkSize wallet bs state) es (.error err)) :
    err.missingProof = none := by
  by_contra hmissing
  have hsize := pos_of_missing hfunds h hmissing
  induction bs generalizing before state es with
  | nil => cases (runs_pure.mp h).2
  | cons batch bs ih =>
    have hsplit : before ++ batch :: bs = before ++ [batch] ++ bs := by simp
    rcases runs_bind.mp h with
      ⟨e, hbatch, he⟩ | ⟨first, second, middle, rfl, hbatch, hrest⟩
    · cases he
      obtain ⟨name, hname⟩ := Option.ne_none_iff_exists'.mp hmissing
      obtain ⟨-, hproof, hbatchName, hcomes⟩ := runs_payAndUploadMerkleBatch_missing
        (hfunds.mono (subset_append_left _ _) fun _ => id) hbatch hname
      obtain ⟨⟨front, tried, hall, hcard, hfront, hexist⟩, hexisting⟩ := hpassed
      have hcome := hcomes.mem_take hall hexisting hfront hexist
      have hsofar : (before ++ batch :: bs).take (before.length + 1) = before ++ [batch] := by
        rw [hsplit, take_append_of_le_length (by simp), take_of_length_le (by simp)]
      have hbound : tried.card + batch.length ≤ (before ++ [batch]).flatten.length := by
        rw [flatten_append, length_append, flatten_singleton]
        omega
      have hknown := hproved (before.length + 1) name
      rw [hsofar, flatten_append, mem_append, ← flatten_append,
        flatten_singleton, ← or_assoc] at hknown
      rcases hknown (take_subset_take_left _ hbound hcome) with hknown | hknown
      · exact hproof (hproofs name hknown)
      · exact hbatchName hknown
    · obtain ⟨tried, hdone⟩ := runs_payAndUploadMerkleBatch_ok hbatch hsize
      refine ih (hfunds.afterBatch hbatch) (hpassed.afterBatch hdone) (fun name hname => ?_)
        (hsplit ▸ hproved) hrest
      rw [hdone.proofs]
      rw [flatten_append, mem_append, flatten_singleton, ← or_assoc] at hname
      exact hname.imp_left (hproofs name)

/-! ### Batches that go through -/

/-- Names can be paid for: by a wallet that is able to, or because the proofs are there. -/
def Payable (client : Client) (maxChunkSize : Nat) (receipt : MerklePaymentReceipt)
    (names : List XorName) : Option Wallet → Prop
  | some wallet => wallet.network = client.evmNetwork ∧
      ∀ batch, batch ≠ [] → batch.length ≤ maxLeaves → ∃ es paid,
        Runs (client.payForSingleMerkleBatch .chunk batch maxChunkSize wallet) es (.ok paid)
  | none => ∀ name ∈ names, name ∈ receipt.proofs

theorem Payable.funded (h : Payable client maxChunkSize receipt names wallet) :
    Funded wallet receipt names := by
  cases wallet with
  | some wallet => exact .inl (Option.some_ne_none wallet)
  | none => exact .inr h

theorem Payable.mono {fewer : List XorName} {more : MerklePaymentReceipt}
    (h : Payable client maxChunkSize receipt names wallet) (hfewer : fewer ⊆ names)
    (hmore : ∀ name ∈ receipt.proofs, name ∈ more.proofs) :
    Payable client maxChunkSize more fewer wallet := by
  cases wallet with
  | some wallet => exact h
  | none => exact fun name hname => hmore name (h name (hfewer hname))

theorem exists_runs_receiptForBatch (h : Payable client maxChunkSize receipt batch wallet)
    (hne : batch ≠ []) (hmax : batch.length ≤ maxLeaves) :
    ∃ es paid, Runs (client.receiptForBatch maxChunkSize wallet batch receipt) es (.ok paid) := by
  unfold receiptForBatch
  split
  · rename_i hneeds
    cases wallet with
    | some wallet =>
      obtain ⟨es, paid, hpaid⟩ := h.2 batch hne hmax
      refine ⟨es, receipt.merge paid, runs_mapError_ok.mpr (runs_fromExcept_bind ?_)⟩
      exact runs_bind_last (runs_mapError_ok.mpr hpaid) runs_return
    | none =>
      obtain ⟨name, hname, hproof⟩ := any_eq_true.mp hneeds
      exact absurd (h name hname) (of_decide_eq_true hproof)
  · exact ⟨[], receipt, runs_return⟩

theorem maxRetries_pos (client : Client) : 0 < client.maxRetries := by
  unfold maxRetries
  split
  · decide
  · rename_i hne
    exact Nat.pos_of_ne_zero fun hzero => hne (UInt64.toNat_inj.mp hzero)

theorem exists_runs_payAndUploadMerkleBatch (hput : 0 < client.chunks.putRetry.backoff)
    {first second : List ClientExchange} {paid : MerklePaymentReceipt}
    {uploaded : MerkleBatchUpload}
    (hpaid : Runs (client.receiptForBatch maxChunkSize wallet batch state.receipt) first (.ok paid))
    (hrun : Runs (client.uploadBatchWithMerkle state.streams paid state.alreadyExist batch.length)
      second (.ok uploaded)) :
    ∃ es next, Runs (client.payAndUploadMerkleBatch maxChunkSize wallet batch state) es (.ok next) ∧
      next.streams = uploaded.streams ∧
      ∀ name, name ∈ next.alreadyExist ↔
        name ∈ uploaded.dontReupload ∨ name ∈ client.failedNames uploaded.failedChunks := by
  obtain ⟨third, after, hretried, hafter⟩ := exists_runs_retryFailedMerkleChunks hput
    client.maxRetries_pos uploaded.dontReupload (runs_uploadBatchWithMerkle hrun).2
  refine ⟨first ++ (second ++ third), ⟨paid.addUploaded (after \ state.alreadyExist), after,
    uploaded.streams, state.results ++ uploaded.completedFiles⟩, ?_, rfl, hafter⟩
  refine runs_bind_ok hpaid (runs_bind_ok (runs_mapError_ok.mpr hrun)
    (runs_bind_last (runs_mapError_ok.mpr hretried) ?_))
  exact runs_reject_bind (fun hremain => hremain rfl) runs_return

variable (hput : 0 < client.chunks.putRetry.backoff)
  (hpay : Payable client maxChunkSize state.receipt bs.flatten wallet)
  (hbs : ∀ batch ∈ bs, batch ≠ [] ∧ batch.length ≤ maxLeaves)

include hput hpay hbs

theorem exists_runs_payAndUploadMerkleBatches (hsize : 0 < client.uploadFlowBatchSize)
    (hmaps : ∀ stream ∈ state.streams, stream.finalDataMap ≠ none) :
    ∃ es r, Runs (client.payAndUploadMerkleBatches maxChunkSize wallet bs state) es r ∧
      ((∃ err, r = .error err ∧ err.missingProof ≠ none) ∨
        ∃ next, r = .ok next ∧
          next.todo client = remaining (bs.map List.length) (state.todo client) ∧
          ∀ stream ∈ next.streams, stream.finalDataMap ≠ none) := by
  induction bs generalizing state with
  | nil => exact ⟨[], _, runs_return, .inr ⟨state, rfl, rfl, hmaps⟩⟩
  | cons batch bs ih =>
    obtain ⟨⟨hne, hmax⟩, hbs⟩ := forall_mem_cons.mp hbs
    obtain ⟨paying, paid, hpaid⟩ := exists_runs_receiptForBatch
      (hpay.mono (subset_append_left _ _) fun _ => id) hne hmax
    obtain ⟨loop, r, hloop, ⟨name, rfl⟩ | ⟨uploaded, rfl, hdont, hfailed, hleft, hmapsNext⟩⟩ :=
      exists_runs_uploadBatchRemaining hput hsize paid batch.length
        ⟨state.streams, state.alreadyExist, [], []⟩ hmaps
    · have hbatch : Runs (client.payAndUploadMerkleBatch maxChunkSize wallet batch state)
          (paying ++ loop) (.error (.upload paid (.missingPaymentProofFor name))) :=
        runs_bind_ok hpaid (runs_bind.mpr
          (.inl ⟨_, runs_mapError.mpr ⟨_, hloop, rfl⟩, rfl⟩))
      exact ⟨_, _, runs_bind.mpr (.inl ⟨_, hbatch, rfl⟩), .inl ⟨_, rfl, Option.some_ne_none name⟩⟩
    obtain ⟨first, next, hfirst, hstreams, hexists⟩ :=
      exists_runs_payAndUploadMerkleBatch hput hpaid hloop
    have htried : ∀ name, name ∈ next.alreadyExist ↔
        name ∈ state.alreadyExist ∨ name ∈ (state.todo client).take batch.length := by
      intro name
      rw [hexists, hdont, hfailed]
      exact or_congr_right (or_iff_right not_mem_nil)
    have hnext : next.todo client = leftAfter batch.length (state.todo client) := by
      have hdrop : (state.todo client).drop batch.length
          = (client.queued next.streams).filter (· ∉ state.alreadyExist) := hstreams ▸ hleft.symm
      rw [leftAfter, hdrop, filter_filter]
      refine filter_congr fun name _ => ?_
      rw [← Bool.decide_and, decide_eq_decide, htried, not_or]
      exact and_comm
    obtain ⟨second, r, hsecond, hends⟩ := ih (hpay.mono (subset_append_right _ _) fun name hname =>
        (runs_payAndUploadMerkleBatch_stored hfirst name).1.mpr (.inl hname)) hbs
      (hstreams ▸ hmapsNext)
    rw [hnext] at hends
    exact ⟨first ++ second, r, runs_bind_ok hfirst hsecond, hends⟩

theorem exists_runs_payAndUploadMerkleBatches_noRoom (hsize : client.uploadFlowBatchSize = 0)
    (hmaps : ∀ stream ∈ state.streams, stream.dataMapChunk ≠ none) :
    ∃ es next, Runs (client.payAndUploadMerkleBatches maxChunkSize wallet bs state) es (.ok next) ∧
      (∀ name, name ∈ next.alreadyExist ↔ name ∈ state.alreadyExist) ∧
      ∀ stream ∈ next.streams, stream.dataMapChunk ≠ none := by
  induction bs generalizing state with
  | nil => exact ⟨[], state, runs_return, fun _ => Iff.rfl, hmaps⟩
  | cons batch bs ih =>
    obtain ⟨⟨hne, hmax⟩, hbs⟩ := forall_mem_cons.mp hbs
    obtain ⟨paying, paid, hpaid⟩ := exists_runs_receiptForBatch
      (hpay.mono (subset_append_left _ _) fun _ => id) hne hmax
    obtain ⟨uploaded, hrun, hdont, hfailed, hmapsNext⟩ := exists_runs_uploadBatchRemaining_noRoom
      paid batch.length ⟨state.streams, state.alreadyExist, [], []⟩ hsize hmaps
    obtain ⟨first, middle, hfirst, hstreams, hexists⟩ :=
      exists_runs_payAndUploadMerkleBatch hput hpaid hrun
    obtain ⟨second, next, hsecond, hsame, hmapsAfter⟩ := ih
      (hpay.mono (subset_append_right _ _) fun name hname =>
        (runs_payAndUploadMerkleBatch_stored hfirst name).1.mpr (.inl hname)) hbs
      (hstreams ▸ hmapsNext)
    refine ⟨first ++ second, next, runs_bind_ok hfirst hsecond, fun name => ?_, hmapsAfter⟩
    rw [hsame, hexists, hdont, hfailed]
    exact or_iff_left not_mem_nil

end Autonomi.Client
