/-
What an upload of a directory makes sure of, and what it does not.

The upload pass takes from the streams as many chunks for a batch as the batch has
names, but the names were counted without repetitions and in the order of the other
pass.  Three things depend on that.

  * A chunk that comes twice within a batch is taken twice, so that other chunks are
    left behind at the end, without an error.
  * If the files are encrypted in another order the second time, a batch comes to
    chunks whose tree is paid for later, and their proofs are missing.
  * The batches are made of all new names, paid for or not.  A batch in which one name
    has no proof is paid for as a whole.
-/
import Autonomi.Proofs.MerkleFiles

namespace Autonomi.Client

open Lib Lib.Fallible List

variable {client : Client} {maxChunkSize : Nat} {wallet : Option Wallet}
  {es : List ClientExchange} {receipt : MerklePaymentReceipt} {present : Finset XorName}
  {first second files : List EncryptionStream} {path : String} {isPublic : Bool}
  {state : MerkleUpload}

/-! ### Names in the two orders -/

def newNames (client : Client) (receipt : MerklePaymentReceipt) (present : Finset XorName)
    (streams : List EncryptionStream) : List XorName :=
  (client.queued streams).filter (· ∉ known receipt present)

def batchSizes (client : Client) (receipt : MerklePaymentReceipt) (present : Finset XorName)
    (streams : List EncryptionStream) : List Nat :=
  (batches maxLeaves (client.toPay receipt present streams)).map List.length

theorem queued_perm (h : first.Perm second) : (client.queued first).Perm (client.queued second) :=
  (h.flatMap_right _).map _

variable {name : XorName}

theorem mem_toPay : name ∈ client.toPay receipt present files ↔
    name ∈ client.queued files ∧ name ∉ known receipt present :=
  mem_unique

theorem mem_newNames : name ∈ client.newNames receipt present files ↔
    name ∈ client.queued files ∧ name ∉ known receipt present := by
  rw [newNames, mem_filter, decide_eq_true_eq]

theorem toPay_eq : client.toPay receipt present files
    = unique ∅ (client.newNames receipt present files) := by
  rw [newNames, unique_filter, Finset.empty_union]
  rfl

theorem toPay_eq_nil : client.toPay receipt present files = [] ↔
    client.newNames receipt present files = [] := by
  simp only [eq_nil_iff_forall_not_mem, mem_toPay, mem_newNames]

theorem toPay_subset (h : first.Perm second) :
    client.toPay receipt present first ⊆ client.toPay receipt present second := by
  intro name hname
  rw [mem_toPay] at hname ⊢
  exact ⟨(queued_perm h).mem_iff.mp hname.1, hname.2⟩

theorem length_toPay (h : first.Perm second) :
    (client.toPay receipt present first).length = (client.toPay receipt present second).length :=
  length_unique_perm (queued_perm h)

theorem batchSizes_perm (h : first.Perm second) :
    client.batchSizes receipt present first = client.batchSizes receipt present second :=
  map_length_batches (length_toPay h)

theorem sum_batchSizes : (client.batchSizes receipt present files).sum
    = (client.newNames receipt present files).toFinset.card := by
  rw [batchSizes, ← length_flatten, flatten_batches, toPay_eq, length_unique]

variable (h : SecondPass client first second receipt present state)

include h

theorem SecondPass.todo
    (hperm : second.Perm first) : state.todo client = client.newNames receipt present second := by
  rw [MerkleUpload.todo, h.streams]
  refine filter_congr fun name hname => ?_
  rw [decide_eq_decide, h.exists_iff, and_iff_right ((queued_perm hperm).mem_iff.mp hname)]

theorem SecondPass.unique (hperm : second.Perm first) :
    Lib.unique state.alreadyExist (client.queued state.streams)
      = client.toPay receipt present second := by
  rw [h.streams]
  refine unique_congr fun name hname => ?_
  rw [h.exists_iff, and_iff_right ((queued_perm hperm).mem_iff.mp hname)]

omit h

/-! ### Batches in another order -/

/--
After every so many batches there are proofs for as many of the new chunks that come
first in the second order.
-/
def Covered (client : Client) (receipt : MerklePaymentReceipt) (present : Finset XorName)
    (first second : List EncryptionStream) : Prop :=
  ∀ k, ∀ name ∈ (client.toPay receipt present second).take (maxLeaves * k),
    name ∈ receipt.proofs ∨ name ∈ (client.toPay receipt present first).take (maxLeaves * k)

theorem covered_self : Covered client receipt present first first :=
  fun _ _ hname => .inr hname

variable (hperm : second.Perm first)

include hperm

theorem covered_of_length_le (h : (client.toPay receipt present first).length ≤ maxLeaves) :
    Covered client receipt present first second := by
  intro k name hname
  right
  cases k with
  | zero => cases hname
  | succ k =>
    rw [take_of_length_le (h.trans (Nat.le_mul_of_pos_right _ k.succ_pos))]
    exact toPay_subset hperm (mem_of_mem_take hname)

/-- The names of the first so many batches come first in the other order, too. -/
theorem take_length_batches (k : Nat) :
    (client.toPay receipt present second).take
        ((batches maxLeaves (client.toPay receipt present first)).take k).flatten.length
      = (client.toPay receipt present second).take (maxLeaves * k) := by
  rw [flatten_take_batches, length_take, ← length_toPay hperm, take_eq_take_min]
  conv_rhs => rw [take_eq_take_min]
  rw [Nat.min_assoc, Nat.min_self]

/-- **No proof is missing in a second pass whose order is covered by the first.** -/
theorem not_missing_of_covered {err : MerkleUploadErrorWithReceipt}
    (hfunds : Funded wallet receipt (client.toPay receipt present first))
    (hcovered : Covered client receipt present first second)
    (hstate : SecondPass client first second receipt present state)
    (h : Runs (client.payAndUploadStreams maxChunkSize wallet (client.toPay receipt present first)
      state) es (.error err)) : err.missingProof = none := by
  by_contra hmissing
  have hpassed : Passed client (client.queued state.streams) state.alreadyExist [] state :=
    ⟨⟨[], ∅, rfl, Nat.zero_le _, forall_mem_nil _, fun _ => .inl⟩,
      Finset.Subset.refl _⟩
  have hproofs : ∀ name, name ∈ receipt.proofs ∨ name ∈ ([] : List (List XorName)).flatten →
      name ∈ state.receipt.proofs := by
    intro name hname
    rw [hstate.proofs]
    exact hname.resolve_right not_mem_nil
  obtain ⟨_, hbatches, -, hends⟩ := runs_payAndUploadStreams h
  obtain rfl := hends err rfl hmissing
  refine hmissing (not_missing_of_proved ?_ hpassed hproofs (fun k name hname => ?_) hbatches)
  · rw [flatten_batches]
    exact hfunds.mono (List.Subset.refl _) fun name hname => hstate.proofs ▸ hname
  · rw [nil_append, hstate.unique hperm, take_length_batches hperm] at hname
    rw [nil_append, flatten_take_batches]
    exact hcovered k name hname

omit hperm

/-! ### Uploads that work -/

/-- Nothing stands in the way of an upload: it can be paid, sent and finished. -/
structure CanUpload (client : Client) (maxChunkSize : Nat) (wallet : Option Wallet)
    (receipt : MerklePaymentReceipt) (present : Finset XorName) (files : List EncryptionStream) :
    Prop where
  pays : Payable client maxChunkSize receipt (client.toPay receipt present files) wallet
  sends : 0 < client.chunks.putRetry.backoff
  maps : ∀ stream ∈ files, stream.finalDataMap ≠ none

theorem CanUpload.perm (h : CanUpload client maxChunkSize wallet receipt present files)
    (hperm : second.Perm files) : CanUpload client maxChunkSize wallet receipt present second where
  pays := h.pays.mono (toPay_subset hperm) fun _ => id
  sends := h.sends
  maps := fun stream hstream => h.maps stream (hperm.mem_iff.mp hstream)

theorem Payable.network {names : List XorName}
    (h : Payable client maxChunkSize receipt names wallet) :
    ∀ owner ∈ wallet, owner.network = client.evmNetwork := by
  intro owner howner
  obtain rfl := Option.mem_def.mp howner
  exact h.1

theorem batches_fit {names batch : List XorName} (h : batch ∈ batches maxLeaves names) :
    batch ≠ [] ∧ batch.length ≤ maxLeaves :=
  ⟨ne_nil_of_mem_batches h, length_le_of_mem_batches h⟩

theorem SecondPass.payable (h : SecondPass client first second receipt present state)
    (hpays : Payable client maxChunkSize receipt (client.toPay receipt present first) wallet) :
    Payable client maxChunkSize state.receipt
      (batches maxLeaves (client.toPay receipt present first)).flatten wallet := by
  rw [flatten_batches]
  exact hpays.mono (List.Subset.refl _) fun name hname => h.proofs ▸ hname

theorem exists_runs_upload (path : String) (isPublic : Bool)
    (hsize : 0 < client.uploadFlowBatchSize)
    (hcan : CanUpload client maxChunkSize wallet receipt present first)
    (hperm : second.Perm first) (hnew : client.toPay receipt present first ≠ []) :
    ∃ looked state rest r, (∀ e ∈ looked, Looking e.request) ∧
      SecondPass client first second receipt present state ∧
      Runs (client.payAndUploadStreams maxChunkSize wallet (client.toPay receipt present first)
        state) rest r ∧
      Runs (client.filesPutWithMerklePaymentInternal maxChunkSize path isPublic wallet receipt)
        (looked ++ rest) r ∧
      Passes first second (looked ++ rest) ∧ Presence present (looked ++ rest) ∧
      ((∃ err, r = .error err ∧ err.missingProof ≠ none) ∨
        ∃ out next, r = .ok out ∧
          Runs (client.payAndUploadMerkleBatches maxChunkSize wallet
            (batches maxLeaves (client.toPay receipt present first)) state) rest (.ok next) ∧
          next.todo client = remaining (client.batchSizes receipt present first)
            (client.newNames receipt present second)) := by
  obtain ⟨looked, state, hlooked, hstate, hwhole⟩ := exists_runs_secondPass maxChunkSize path
    isPublic second hcan.pays.network hcan.maps hnew
  have hmaps : ∀ stream ∈ state.streams, stream.finalDataMap ≠ none := by
    rw [hstate.streams]
    exact (hcan.perm hperm).maps
  obtain ⟨rest, r, hbatches, hends⟩ := exists_runs_payAndUploadMerkleBatches hcan.sends
    (hstate.payable hcan.pays) (fun _ => batches_fit) hsize hmaps
  rw [hstate.todo hperm] at hends
  rcases hends with ⟨err, rfl, hmissing⟩ | ⟨next, rfl, hleft, hmapsNext⟩
  · have hsecond : Runs (client.payAndUploadStreams maxChunkSize wallet
        (client.toPay receipt present first) state) rest (.error err) :=
      runs_bind.mpr (.inl ⟨err, hbatches, rfl⟩)
    exact ⟨looked, state, rest, _, hlooked, hstate, hsecond, (hwhole hsecond).1,
      (hwhole hsecond).2.1, (hwhole hsecond).2.2, .inl ⟨err, rfl, hmissing⟩⟩
  · obtain ⟨out, hsecond⟩ := exists_runs_payAndUploadStreams hbatches hmapsNext
    exact ⟨looked, state, rest, _, hlooked, hstate, hsecond, (hwhole hsecond).1,
      (hwhole hsecond).2.1, (hwhole hsecond).2.2, .inr ⟨out, next, rfl, hbatches, hleft⟩⟩

/-! ### Every chunk is stored -/

/-- In runs that return, every chunk of the files exists already or is stored. -/
def StoresAll (client : Client) (maxChunkSize : Nat) (path : String) (isPublic : Bool)
    (wallet : Option Wallet) (receipt : MerklePaymentReceipt) (present : Finset XorName)
    (files : List EncryptionStream) : Prop :=
  ∀ first second es out, first.Perm files → second.Perm files →
    Passes first second es → Presence present es →
    Runs (client.filesPutWithMerklePaymentInternal maxChunkSize path isPublic wallet receipt) es
      (.ok out) →
    ∀ name ∈ client.queued files, ReportedOrKnown receipt name es ∨ StoredName client name es

/--
For files that come in this order nothing is left behind: there is nothing new, or no
batch comes to a chunk twice.  Without room for a chunk nothing is uploaded, and the
upload fails only if a data map is not there yet.
-/
def NothingLeft (client : Client) (receipt : MerklePaymentReceipt) (present : Finset XorName)
    (second : List EncryptionStream) : Prop :=
  client.newNames receipt present second = [] ∨
  (0 < client.uploadFlowBatchSize ∧
    Spread (client.batchSizes receipt present second) (client.newNames receipt present second)) ∨
  (client.uploadFlowBatchSize = 0 ∧ ∃ stream ∈ second, stream.dataMapChunk = none)

theorem batches_toPay (h : client.toPay receipt present first ≠ []) :
    ∃ batch bs, batches maxLeaves (client.toPay receipt present first) = batch :: bs ∧ batch ≠ [] := by
  obtain ⟨batch, bs, heq⟩ : ∃ batch bs,
      batches maxLeaves (client.toPay receipt present first) = batch :: bs :=
    ⟨_, _, batches_of_ne_nil h⟩
  exact ⟨batch, bs, heq, ne_nil_of_mem_batches (heq ▸ mem_cons_self)⟩

theorem storesAll_of_nothingLeft
    (h : ∀ second, second.Perm files → NothingLeft client receipt present second) :
    StoresAll client maxChunkSize path isPublic wallet receipt present files := by
  intro first second es out hfirst hsecond hpasses hpresence hrun name hname
  have hperm : second.Perm first := hsecond.trans hfirst.symm
  have hnameFirst := (queued_perm hfirst).mem_iff.mpr hname
  have hnameSecond := (queued_perm hsecond).mem_iff.mpr hname
  rcases runs_filesPutWithMerklePaymentInternal hpasses hpresence hrun with
    ⟨-, err, herr, -⟩ | ⟨hreported, hrest⟩
  · cases herr
  by_cases hknown : name ∈ known receipt present
  · exact .inl ((hreported name hnameFirst).mpr hknown)
  rcases hrest with ⟨-, hnone, -⟩ | ⟨looked, rest, state, rfl, hlooked, hnew, hstate, hpass⟩
  · exact absurd (mem_toPay.mpr ⟨hnameFirst, hknown⟩) (hnone ▸ not_mem_nil)
  obtain ⟨_, hbatches, hends, -⟩ := runs_payAndUploadStreams hpass
  obtain ⟨next, rfl⟩ := hends out rfl
  suffices hexists : name ∈ next.alreadyExist by
    refine .inr (storedName_append.mpr (.inr ?_))
    refine ((runs_payAndUploadMerkleBatches_stored hbatches name).mp hexists).resolve_left ?_
    exact fun hbefore => hknown ((hstate.exists_iff name).mp hbefore).2
  rcases h second hsecond with hnil | ⟨hsize, hspread⟩ | ⟨hzero, stream, hstream, hmap⟩
  · exact absurd (mem_newNames.mpr ⟨hnameSecond, hknown⟩) (hnil ▸ not_mem_nil)
  · obtain ⟨hqueued, hleft⟩ := runs_payAndUploadMerkleBatches_ok hbatches hsize
    have hsizes : (batches maxLeaves (client.toPay receipt present first)).map List.length
        = client.batchSizes receipt present second := batchSizes_perm hperm.symm
    rw [hstate.todo hperm, hsizes] at hleft
    have hnothing : next.todo client = [] := by
      rw [hleft hspread]
      exact remaining_eq_nil hspread sum_batchSizes.ge
    refine (hqueued name (hstate.streams ▸ hnameSecond)).elim id fun hstill => ?_
    by_contra hmissing
    have hmem : name ∈ next.todo client := mem_filter.mpr ⟨hstill, decide_eq_true hmissing⟩
    rw [hnothing] at hmem
    exact not_mem_nil hmem
  · obtain ⟨batch, bs, heq, hne⟩ := batches_toPay hnew
    rw [heq] at hbatches
    exact absurd hmap (dataMaps_of_noRoom hzero hne hbatches stream (hstate.streams ▸ hstream))

/-- A new chunk that does not exist after a run of all batches would be left behind. -/
theorem StoresAll.exists_of_new {looked rest : List ClientExchange} {next : MerkleUpload}
    {out : Amount × List CompletedFile}
    (h : StoresAll client maxChunkSize path isPublic wallet receipt present files)
    (hperm : first.Perm files) (hlooked : ∀ e ∈ looked, Looking e.request)
    (hpasses : Passes first first (looked ++ rest)) (hpresence : Presence present (looked ++ rest))
    (hrun : Runs (client.filesPutWithMerklePaymentInternal maxChunkSize path isPublic wallet receipt)
      (looked ++ rest) (.ok out))
    (hbatches : Runs (client.payAndUploadMerkleBatches maxChunkSize wallet
      (batches maxLeaves (client.toPay receipt present first)) state) rest (.ok next))
    (hname : name ∈ client.newNames receipt present first) : name ∈ next.alreadyExist := by
  obtain ⟨hqueued, hnew⟩ := mem_newNames.mp hname
  by_contra hmissing
  rw [runs_payAndUploadMerkleBatches_stored hbatches, not_or] at hmissing
  have hstored := h first first _ out hperm hperm hpasses hpresence hrun name
    ((queued_perm hperm).mem_iff.mp hqueued)
  rw [storedName_append, or_iff_right (not_storedName_of_never (fun _ _ _ => id) hlooked),
    or_iff_left hmissing.2] at hstored
  rcases runs_filesPutWithMerklePaymentInternal hpasses hpresence hrun with
    ⟨-, err, herr, -⟩ | ⟨hreported, -⟩
  · cases herr
  · exact hnew ((hreported name hqueued).mp hstored)

theorem mem_of_mem_remaining {quotas : List Nat} {todo : List XorName}
    (h : name ∈ remaining quotas todo) : name ∈ todo := by
  induction quotas generalizing todo with
  | nil => exact h
  | cons quota quotas ih =>
    exact mem_of_mem_drop (mem_filter.mp (ih h)).1

theorem nothingLeft_of_storesAll
    (hcan : CanUpload client maxChunkSize wallet receipt present files)
    (h : StoresAll client maxChunkSize path isPublic wallet receipt present files)
    (hperm : second.Perm files) : NothingLeft client receipt present second := by
  by_contra hleft
  obtain ⟨hnew, hrest⟩ := not_or.mp hleft
  obtain ⟨hroom, hmaps⟩ := not_or.mp hrest
  have hcan := hcan.perm hperm
  have hpay : client.toPay receipt present second ≠ [] := fun hnil => hnew (toPay_eq_nil.mp hnil)
  rcases Nat.eq_zero_or_pos client.uploadFlowBatchSize with hzero | hsize
  · have hmaps : ∀ stream ∈ second, stream.dataMapChunk ≠ none := fun stream hstream hnone =>
      hmaps ⟨hzero, stream, hstream, hnone⟩
    obtain ⟨looked, state, hlooked, hstate, hwhole⟩ := exists_runs_secondPass maxChunkSize path
      isPublic second hcan.pays.network hcan.maps hpay
    obtain ⟨rest, next, hbatches, hsame, hmapsNext⟩ := exists_runs_payAndUploadMerkleBatches_noRoom
      hcan.sends (hstate.payable hcan.pays) (fun _ => batches_fit) hzero (hstate.streams ▸ hmaps)
    obtain ⟨out, hpass⟩ := exists_runs_payAndUploadStreams hbatches fun stream hstream hnone =>
      hmapsNext stream hstream (EncryptionStream.dataMapChunk_eq_none hnone)
    obtain ⟨hrun, hpasses, hpresence⟩ := hwhole hpass
    obtain ⟨name, hname⟩ := exists_mem_of_ne_nil _ hnew
    have hexists := h.exists_of_new hperm hlooked hpasses hpresence hrun hbatches hname
    rw [hsame, hstate.exists_iff] at hexists
    exact (mem_newNames.mp hname).2 hexists.2
  · obtain ⟨looked, state, rest, r, hlooked, hstate, hpass, hrun, hpasses, hpresence, hends⟩ :=
      exists_runs_upload path isPublic hsize hcan (List.Perm.refl second) hpay
    rcases hends with ⟨err, rfl, hmissing⟩ | ⟨out, next, rfl, hbatches, htodo⟩
    · exact hmissing (not_missing_of_covered (List.Perm.refl second) hcan.pays.funded covered_self
        hstate hpass)
    · have hspread := fun hspread => hroom ⟨hsize, hspread⟩
      obtain ⟨name, hname⟩ := exists_mem_of_ne_nil _ (remaining_ne_nil hspread sum_batchSizes.le)
      have hmem := mem_of_mem_remaining hname
      rw [← htodo] at hname
      have hgone := of_decide_eq_true (mem_filter.mp hname).2
      exact hgone (h.exists_of_new hperm hlooked hpasses hpresence hrun hbatches hmem)

/--
**Whatever is uploaded, nothing is left behind if no batch comes to a chunk twice.**
Where nothing stands in the way of an upload, that is the only case.
-/
theorem every_chunk_stored_iff (client : Client) (maxChunkSize : Nat) (path : String)
    (isPublic : Bool) (wallet : Option Wallet) (receipt : MerklePaymentReceipt)
    (present : Finset XorName) (files : List EncryptionStream) :
    ((∀ second, second.Perm files → NothingLeft client receipt present second) →
      StoresAll client maxChunkSize path isPublic wallet receipt present files) ∧
    (CanUpload client maxChunkSize wallet receipt present files →
      (StoresAll client maxChunkSize path isPublic wallet receipt present files ↔
        ∀ second, second.Perm files → NothingLeft client receipt present second)) :=
  ⟨storesAll_of_nothingLeft, fun hcan =>
    ⟨fun h _ hperm => nothingLeft_of_storesAll hcan h hperm, storesAll_of_nothingLeft⟩⟩

/-! ### A small directory -/

def sampleFile (chunks : List Chunk) : EncryptionStream :=
  { sampleStream with state := .inMemory chunks ⟨[4]⟩ }

theorem newNames_empty : client.newNames .empty ∅ files = client.queued files := by
  exact filter_eq_self.mpr fun name _ => decide_eq_true (Finset.notMem_empty name)

theorem payable_sample (receipt : MerklePaymentReceipt) (names : List XorName) :
    Payable sampleClient 1 receipt names (some ⟨.arbitrumOne⟩) :=
  ⟨rfl, fun batch hne hmax => exists_runs_payForSingleMerkleBatch ⟨.arbitrumOne⟩ .chunk 1
    (candidatesAnswer_simple sampleClient rfl) rfl batch hne hmax⟩

theorem canUpload_sample (receipt : MerklePaymentReceipt) (files : List (List Chunk)) :
    CanUpload sampleClient 1 (some ⟨.arbitrumOne⟩) receipt ∅ (files.map sampleFile) where
  pays := payable_sample receipt _
  sends := by decide
  maps := by
    intro stream hstream
    obtain ⟨chunks, -, rfl⟩ := mem_map.mp hstream
    exact Option.some_ne_none _

/-- A file of two different chunks is stored. -/
theorem every_chunk_stored_sample :
    StoresAll sampleClient 1 "" false (some ⟨.arbitrumOne⟩) .empty ∅
      [sampleFile [⟨[1]⟩, ⟨[2]⟩]] := by
  refine ((every_chunk_stored_iff _ _ _ _ _ _ _ _).2
    (canUpload_sample .empty [[⟨[1]⟩, ⟨[2]⟩]])).mpr fun second hperm => ?_
  rw [perm_singleton.mp hperm]
  refine .inr (.inl ⟨by decide, spread_of_nodup ?_ _⟩)
  decide

/-- In a file whose first two chunks are equal the third one is left behind. -/
theorem repeated_chunk_leaves_another :
    ¬ ∀ (client : Client) maxChunkSize path isPublic wallet receipt present files,
      StoresAll client maxChunkSize path isPublic wallet receipt present files := by
  intro h
  have hpay : sampleClient.toPay .empty ∅ [sampleFile [⟨[1]⟩, ⟨[1]⟩, ⟨[2]⟩]]
      = [polyHash [1], polyHash [2]] := by
    decide
  have hsizes : sampleClient.batchSizes .empty ∅ [sampleFile [⟨[1]⟩, ⟨[1]⟩, ⟨[2]⟩]] = [2] := by
    rw [batchSizes, hpay, batches_of_length_le (cons_ne_nil _ _) (by decide)]
    rfl
  have hleft := nothingLeft_of_storesAll (canUpload_sample .empty [[⟨[1]⟩, ⟨[1]⟩, ⟨[2]⟩]])
    (h _ _ "" false _ _ _ _) (List.Perm.refl _)
  rcases hleft with hnil | ⟨-, hspread⟩ | ⟨hzero, -⟩
  · cases hnil
  · rw [map_singleton, hsizes] at hspread
    exact absurd hspread.1 (by decide)
  · cases hzero

/-! ### Proofs that are missing -/

def NeverMissing (client : Client) (maxChunkSize : Nat) (path : String) (isPublic : Bool)
    (wallet : Option Wallet) (receipt : MerklePaymentReceipt) (present : Finset XorName)
    (first second : List EncryptionStream) : Prop :=
  ∀ es err, Passes first second es → Presence present es →
    Runs (client.filesPutWithMerklePaymentInternal maxChunkSize path isPublic wallet receipt) es
      (.error err) → err.missingProof = none

theorem neverMissing_of_covered (hperm : second.Perm first)
    (hfunds : Funded wallet receipt (client.toPay receipt present first))
    (hcovered : Covered client receipt present first second) :
    NeverMissing client maxChunkSize path isPublic wallet receipt present first second := by
  intro es err hpasses hpresence hrun
  rcases runs_filesPutWithMerklePaymentInternal hpasses hpresence hrun with
    ⟨-, _, herr, hnone⟩ | ⟨-, ⟨-, -, out, hok⟩ | ⟨looked, rest, state, rfl, -, -, hstate, hpass⟩⟩
  · cases herr
    exact hnone
  · cases hok
  · exact not_missing_of_covered hperm hfunds hcovered hstate hpass

theorem covered_of_neverMissing (hsize : 0 < client.uploadFlowBatchSize)
    (hcan : CanUpload client maxChunkSize wallet receipt present first) (hperm : second.Perm first)
    (hspread : Spread (client.batchSizes receipt present second)
      (client.newNames receipt present second))
    (h : NeverMissing client maxChunkSize path isPublic wallet receipt present first second) :
    Covered client receipt present first second := by
  intro k name hname
  have hnew : client.toPay receipt present first ≠ [] :=
    ne_nil_of_mem (toPay_subset hperm (mem_of_mem_take hname))
  obtain ⟨looked, state, rest, r, -, hstate, -, hrun, hpasses, hpresence, hends⟩ :=
    exists_runs_upload path isPublic hsize hcan hperm hnew
  rcases hends with ⟨err, rfl, hmissing⟩ | ⟨out, next, rfl, hbatches, -⟩
  · exact absurd (h _ err hpasses hpresence hrun) hmissing
  · have htodo := hstate.todo hperm
    rw [← batchSizes_perm hperm.symm, ← htodo] at hspread
    have hproved := proved_of_runs hbatches hsize hspread (fun name hname => hstate.proofs ▸ hname) k
    rw [htodo, ← toPay_eq, take_length_batches hperm, flatten_take_batches] at hproved
    exact hproved name hname

/--
**No proof is missing if the order of the second pass is covered by that of the first.**
If no batch comes to a chunk twice, that is the only case in which none can be.
-/
theorem no_proof_missing_iff (client : Client) (maxChunkSize : Nat) (path : String)
    (isPublic : Bool) (owner : Wallet) (receipt : MerklePaymentReceipt)
    (present : Finset XorName) (first second : List EncryptionStream) (hperm : second.Perm first) :
    (Covered client receipt present first second →
      NeverMissing client maxChunkSize path isPublic (some owner) receipt present first second) ∧
    (0 < client.uploadFlowBatchSize →
      CanUpload client maxChunkSize (some owner) receipt present first →
      Spread (client.batchSizes receipt present second)
        (client.newNames receipt present second) →
      (NeverMissing client maxChunkSize path isPublic (some owner) receipt present first second ↔
        Covered client receipt present first second)) := by
  have hfunds : Funded (some owner) receipt (client.toPay receipt present first) :=
    .inl (Option.some_ne_none owner)
  exact ⟨neverMissing_of_covered hperm hfunds, fun hsize hcan hspread =>
    ⟨covered_of_neverMissing hsize hcan hperm hspread, neverMissing_of_covered hperm hfunds⟩⟩

/-- For two files of one chunk both orders are covered, since there is one batch only. -/
theorem no_proof_missing_sample :
    NeverMissing sampleClient 1 "" false (some ⟨.arbitrumOne⟩) .empty ∅
      [sampleFile [⟨[1]⟩], sampleFile [⟨[2]⟩]] [sampleFile [⟨[2]⟩], sampleFile [⟨[1]⟩]] := by
  have hperm := List.Perm.swap (sampleFile [⟨[1]⟩]) (sampleFile [⟨[2]⟩]) []
  refine (no_proof_missing_iff sampleClient 1 "" false ⟨.arbitrumOne⟩ .empty ∅ _ _ hperm).1
    (covered_of_length_le hperm ?_)
  rw [toPay_eq, length_unique]
  exact (toFinset_card_le _).trans (by decide)

def manyChunks : List Chunk := (List.range 256).map fun n => ⟨[UInt8.ofNat n]⟩

theorem names_manyChunks :
    sampleClient.names manyChunks = (List.range 256).map fun n => bytes32 (n + 1) := by
  rw [names, manyChunks, map_map]
  refine map_congr_left fun n hn => ?_
  have hbyte : (UInt8.ofNat n).toNat = n := by
    rw [UInt8.toNat_ofNat', Nat.mod_eq_of_lt (mem_range.mp hn)]
  show bytes32 ((0 * 257 + (UInt8.ofNat n).toNat + 1) % 2 ^ 256) = bytes32 (n + 1)
  rw [hbyte, Nat.zero_add, Nat.mod_eq_of_lt]
  have := mem_range.mp hn
  omega

theorem nodup_names_manyChunks :
    (sampleClient.names manyChunks).Nodup ∧ bytes32 258 ∉ sampleClient.names manyChunks := by
  rw [names_manyChunks]
  constructor
  · refine List.Nodup.map_on (fun n hn m hm heq => ?_) nodup_range
    rw [mem_range] at hn hm
    have := bytes32_inj (by omega) (by omega) heq
    omega
  · intro hmem
    obtain ⟨n, hn, heq⟩ := mem_map.mp hmem
    rw [mem_range] at hn
    have := bytes32_inj (by omega) (by omega) heq
    omega

/--
A file that fills a tree and one of another chunk: if they are encrypted in the other
order the second time, the first batch comes to a chunk that is not paid for yet.
-/
theorem other_order_misses_proof :
    ¬ ∀ (client : Client) maxChunkSize path isPublic (owner : Wallet) receipt present first second,
      second.Perm first →
      Payable client maxChunkSize receipt (client.toPay receipt present first) (some owner) →
      NeverMissing client maxChunkSize path isPublic (some owner) receipt present first second := by
  intro h
  obtain ⟨hnodup, hother⟩ := nodup_names_manyChunks
  have hlength : (sampleClient.names manyChunks).length = maxLeaves * 1 := by
    rw [names_manyChunks, length_map, length_range]
    rfl
  have hperm := List.Perm.swap (sampleFile manyChunks) (sampleFile [⟨[0, 0]⟩]) []
  have hfirst : sampleClient.queued [sampleFile manyChunks, sampleFile [⟨[0, 0]⟩]]
      = sampleClient.names manyChunks ++ [bytes32 258] := map_append
  have hsecond : sampleClient.queued [sampleFile [⟨[0, 0]⟩], sampleFile manyChunks]
      = bytes32 258 :: sampleClient.names manyChunks := by
    simp only [queued, flatMap_cons, flatMap_nil, append_nil]
    rfl
  have hnodupSecond : (sampleClient.queued [sampleFile [⟨[0, 0]⟩], sampleFile manyChunks]).Nodup :=
    hsecond ▸ nodup_cons.mpr ⟨hother, hnodup⟩
  have hnodupFirst := (queued_perm hperm).nodup_iff.mp hnodupSecond
  have hspread := spread_of_nodup hnodupSecond
    (sampleClient.batchSizes .empty ∅ [sampleFile [⟨[0, 0]⟩], sampleFile manyChunks])
  have hcovered := covered_of_neverMissing (by decide)
    (canUpload_sample .empty [manyChunks, [⟨[0, 0]⟩]]) hperm (newNames_empty ▸ hspread)
    (h _ _ "" false _ _ _ _ _ hperm (payable_sample _ _))
  have hpay : ∀ {files : List EncryptionStream}, (sampleClient.queued files).Nodup →
      sampleClient.toPay .empty ∅ files = sampleClient.queued files := by
    intro files hfiles
    rw [toPay_eq, newNames_empty, unique_eq_self hfiles fun name _ => Finset.notMem_empty name]
  have hmissing := hcovered 1 (bytes32 258)
  rw [map_cons, map_singleton, hpay hnodupFirst, hfirst, take_left' hlength] at hmissing
  rcases hmissing mem_cons_self with hproof | hname
  · exact AList.notMem_empty _ hproof
  · exact hother hname

/-! ### What is paid for again -/

/-- The name is a leaf of the tree that was built last before a payment is sent. -/
def Pays (name : XorName) (es : List ClientExchange) : Prop :=
  ∃ (before : List ClientExchange) (leaves : List XorName)
    (salts : (ClientRequest.drawSalts leaves).Response) (middle : List ClientExchange)
    (payment : ClientExchange) (after : List ClientExchange),
    es = before ++ ⟨.drawSalts leaves, salts⟩ :: (middle ++ payment :: after) ∧ name ∈ leaves ∧
    (treeConfirmed payment = true ∨ treeFailed payment = true) ∧
    ∀ e ∈ middle, ∀ drawn, e.request = .drawSalts drawn → drawn = leaves

theorem Pays.within (h : Pays name es) (start rest : List ClientExchange) :
    Pays name (start ++ (es ++ rest)) := by
  obtain ⟨before, leaves, salts, middle, payment, after, rfl, hleaves⟩ := h
  exact ⟨start ++ before, leaves, salts, middle, payment, after ++ rest, by simp, hleaves⟩

theorem Pays.drawn (h : Pays name es) :
    ∃ e ∈ es, ∃ leaves, e.request = .drawSalts leaves ∧ name ∈ leaves := by
  obtain ⟨before, leaves, salts, middle, payment, after, rfl, hname, -⟩ := h
  exact ⟨_, mem_append_right _ mem_cons_self, leaves, rfl, hname⟩

theorem mem_paddedAddresses {addresses : List XorName} :
    name ∈ paddedAddresses addresses ↔ name ∈ addresses := by
  match addresses with
  | [] => rfl
  | [onlyOne] => simp [paddedAddresses]
  | first :: second :: rest => rfl

variable {owner : Wallet}

theorem pays_of_runs_payForSingleMerkleBatch {addresses : List XorName}
    {paid : MerklePaymentReceipt}
    (h : Runs (client.payForSingleMerkleBatch .chunk addresses maxChunkSize owner) es (.ok paid)) :
    ∀ name ∈ addresses, Pays name es := by
  intro name hname
  have hforTree := asks_runs (asks_payForSingleMerkleBatch .chunk addresses maxChunkSize
    owner) h
  have hcount := (runs_payForSingleMerkleBatch_ok h).1
  obtain ⟨first, second, prepared, rfl, hprepare, -⟩ := runs_bind_eq_ok.mp h
  obtain ⟨salts, rest, rfl, -⟩ := runs_request_bind_iff.mp hprepare
  have hpayment : 0 < (rest ++ second).countP treeConfirmed := by
    rw [cons_append, countP_cons_of_neg Bool.false_ne_true] at hcount
    omega
  obtain ⟨payment, hpayment, hconfirmed⟩ := countP_pos_iff.mp hpayment
  obtain ⟨middle, after, hsplit⟩ := append_of_mem hpayment
  refine ⟨[], _, salts, middle, payment, after, by rw [cons_append, hsplit]; rfl,
    mem_paddedAddresses.mpr hname, .inl hconfirmed, fun e he drawn hdrawn => ?_⟩
  have hleaves := hforTree e (by
    rw [cons_append, hsplit]
    exact mem_cons_of_mem _ (mem_append_left _ he))
  rw [hdrawn] at hleaves
  exact hleaves

theorem drawn_of_runs_batches (given : XorName → Prop) {bs : List (List XorName)}
    {r : Except MerkleUploadErrorWithReceipt MerkleUpload}
    (hgiven : ∀ name, given name → name ∈ state.receipt.proofs)
    (h : Runs (client.payAndUploadMerkleBatches maxChunkSize wallet bs state) es r) :
    ∀ e ∈ es, ∀ leaves, e.request = .drawSalts leaves →
      ∃ batch ∈ bs, leaves = paddedAddresses batch ∧ ∃ name ∈ batch, ¬ given name := by
  induction bs generalizing state es with
  | nil =>
    obtain ⟨rfl, -⟩ := runs_pure.mp h
    exact forall_mem_nil _
  | cons batch bs ih =>
    have hbatch : ∀ {part : List ClientExchange} {x},
        Runs (client.payAndUploadMerkleBatch maxChunkSize wallet batch state) part x →
        ∀ e ∈ part, ∀ leaves, e.request = .drawSalts leaves →
          leaves = paddedAddresses batch ∧ ∃ name ∈ batch, ¬ given name := by
      intro part x hrun e he leaves hleaves
      have hasks := asks_runs (asks_payAndUploadMerkleBatch (P := fun q =>
        ∀ leaves, q = .drawSalts leaves →
          leaves = paddedAddresses batch ∧ ∃ name ∈ batch, ¬ given name) wallet batch state ?_ ?_)
        hrun
      · exact hasks e he leaves hleaves
      · intro hneeds q hq drawn hdrawn
        obtain ⟨name, hname, hproof⟩ := hneeds
        rw [hdrawn] at hq
        exact ⟨hq, name, hname, fun hmem => hproof (hgiven name hmem)⟩
      · intro q hq drawn hdrawn
        rw [hdrawn] at hq
        exact absurd hq id
    intro e he leaves hleaves
    rcases runs_bind.mp h with ⟨_, hfails, -⟩ | ⟨first, second, next, rfl, hfirst, hrest⟩
    · exact ⟨batch, mem_cons_self, hbatch hfails e he leaves hleaves⟩
    · rcases mem_append.mp he with he | he
      · exact ⟨batch, mem_cons_self, hbatch hfirst e he leaves hleaves⟩
      · obtain ⟨other, hother, hbuilt⟩ := ih (fun name hname =>
          (runs_payAndUploadMerkleBatch_stored hfirst name).1.mpr (.inl (hgiven name hname)))
          hrest e he leaves hleaves
        exact ⟨other, mem_cons_of_mem _ hother, hbuilt⟩

theorem pays_of_runs_batches {bs : List (List XorName)} {batch : List XorName} {other : XorName}
    {next : MerkleUpload} (hnodup : bs.flatten.Nodup) (hbatch : batch ∈ bs) (hother : other ∈ batch)
    (hproof : other ∉ state.receipt.proofs)
    (h : Runs (client.payAndUploadMerkleBatches maxChunkSize (some owner) bs state) es (.ok next)) :
    ∀ name ∈ batch, Pays name es := by
  intro name hname
  induction bs generalizing state es with
  | nil => cases hbatch
  | cons head bs ih =>
    obtain ⟨first, second, middle, rfl, hfirst, hrest⟩ := runs_bind_eq_ok.mp h
    obtain ⟨-, htail, hdisjoint⟩ := nodup_append'.mp hnodup
    rcases mem_cons.mp hbatch with rfl | hbatch
    · obtain ⟨paying, uploading, retrying, _, _, rfl, hpaid, -⟩ :=
        runs_payAndUploadMerkleBatch_parts hfirst
      have hneeds : batch.any (fun name => name ∉ state.receipt.proofs) = true :=
        any_eq_true.mpr ⟨other, hother, decide_eq_true hproof⟩
      rw [receiptForBatch, if_pos hneeds] at hpaid
      obtain ⟨_, howner, hpaid⟩ := runs_fromExcept_bind_eq_ok.mp (runs_mapError_ok.mp hpaid)
      cases howner
      obtain ⟨tree, _, _, rfl, htree, -⟩ := runs_bind_eq_ok.mp hpaid
      have hpays := pays_of_runs_payForSingleMerkleBatch (runs_mapError_ok.mp htree) name
        hname
      rw [append_assoc, append_assoc]
      exact hpays.within [] _
    · have hlater : other ∉ middle.receipt.proofs := by
        rw [(runs_payAndUploadMerkleBatch_stored hfirst other).1, not_or]
        exact ⟨hproof, fun hhead => hdisjoint hhead (mem_flatten_of_mem hbatch hother)⟩
      have hpays := (ih htail hbatch hlater hrest).within first []
      rwa [append_nil] at hpays

/-- In every batch of new names, all or none have proofs in the receipt. -/
def AllOrNone (client : Client) (receipt : MerklePaymentReceipt) (present : Finset XorName)
    (first : List EncryptionStream) : Prop :=
  ∀ batch ∈ batches maxLeaves (client.toPay receipt present first),
    (∀ name ∈ batch, name ∈ receipt.proofs) ∨ ∀ name ∈ batch, name ∉ receipt.proofs

/-- Nothing that the receipt has a proof for goes into another payment. -/
def PaysNothingAgain (client : Client) (maxChunkSize : Nat) (path : String) (isPublic : Bool)
    (owner : Wallet) (receipt : MerklePaymentReceipt) (present : Finset XorName)
    (files : List EncryptionStream) : Prop :=
  ∀ first second es r, first.Perm files → second.Perm files →
    Passes first second es → Presence present es →
    Runs (client.filesPutWithMerklePayment maxChunkSize path isPublic
      (.continueWithReceipt owner receipt)) es r →
    ∀ name ∈ receipt.proofs, ¬ Pays name es

theorem paysNothingAgain_of_allOrNone
    (h : ∀ first, first.Perm files → AllOrNone client receipt present first) :
    PaysNothingAgain client maxChunkSize path isPublic owner receipt present files := by
  intro first second es r hfirst _ hpasses hpresence hrun name hproof hpays
  obtain ⟨e, he, leaves, hdrawn, hname⟩ := hpays.drawn
  have hlooking : ¬ Looking e.request := by
    rw [hdrawn]
    exact id
  rcases runs_filesPutWithMerklePaymentInternal hpasses hpresence hrun with
    ⟨hlooked, -⟩ | ⟨-, ⟨hlooked, -⟩ | ⟨looked, rest, state, rfl, hlooked, -, hstate, hpass⟩⟩
  · exact hlooking (hlooked e he)
  · exact hlooking (hlooked e he)
  · obtain ⟨_, hbatches, -⟩ := runs_payAndUploadStreams hpass
    have hrest := (mem_append.mp he).resolve_left fun he => hlooking (hlooked e he)
    obtain ⟨batch, hbatch, rfl, other, hother, hmissing⟩ := drawn_of_runs_batches
      (· ∈ receipt.proofs) (fun name hname => hstate.proofs ▸ hname) hbatches e hrest leaves hdrawn
    rcases h first hfirst batch hbatch with hall | hnone
    · exact hmissing (hall other hother)
    · exact hnone name (mem_paddedAddresses.mp hname) hproof

theorem allOrNone_of_paysNothingAgain (hsize : 0 < client.uploadFlowBatchSize)
    (hcan : CanUpload client maxChunkSize (some owner) receipt present files)
    (h : PaysNothingAgain client maxChunkSize path isPublic owner receipt present files)
    (hperm : first.Perm files) : AllOrNone client receipt present first := by
  intro batch hbatch
  by_contra hmixed
  push Not at hmixed
  obtain ⟨⟨other, hother, hmissing⟩, name, hname, hproof⟩ := hmixed
  have hnew : client.toPay receipt present first ≠ [] := by
    intro hnil
    rw [hnil, batches_nil] at hbatch
    exact not_mem_nil hbatch
  have hcan := hcan.perm hperm
  obtain ⟨looked, state, rest, r, -, hstate, hpass, hrun, hpasses, hpresence, hends⟩ :=
    exists_runs_upload path isPublic hsize hcan (List.Perm.refl first) hnew
  rcases hends with ⟨err, rfl, herr⟩ | ⟨out, next, rfl, hbatches, -⟩
  · exact herr (not_missing_of_covered (List.Perm.refl first) hcan.pays.funded covered_self hstate
      hpass)
  · have hnodup : (batches maxLeaves (client.toPay receipt present first)).flatten.Nodup := by
      rw [flatten_batches]
      exact nodup_unique _ _
    have hpays := (pays_of_runs_batches hnodup hbatch hother (hstate.proofs ▸ hmissing) hbatches
      name hname).within looked []
    rw [append_nil] at hpays
    exact h first first _ _ hperm hperm hpasses hpresence hrun name hproof hpays

/--
**Nothing is paid for again if each batch has all or none of its proofs in the receipt.**
Where nothing stands in the way of an upload, that is the only case.
-/
theorem nothing_paid_again_iff (client : Client) (maxChunkSize : Nat) (path : String)
    (isPublic : Bool) (owner : Wallet) (receipt : MerklePaymentReceipt) (present : Finset XorName)
    (files : List EncryptionStream) :
    ((∀ first, first.Perm files → AllOrNone client receipt present first) →
      PaysNothingAgain client maxChunkSize path isPublic owner receipt present files) ∧
    (0 < client.uploadFlowBatchSize →
      CanUpload client maxChunkSize (some owner) receipt present files →
      (PaysNothingAgain client maxChunkSize path isPublic owner receipt present files ↔
        ∀ first, first.Perm files → AllOrNone client receipt present first)) :=
  ⟨paysNothingAgain_of_allOrNone, fun hsize hcan =>
    ⟨fun h _ hperm => allOrNone_of_paysNothingAgain hsize hcan h hperm,
      paysNothingAgain_of_allOrNone⟩⟩

def sampleMerkleReceipt (name : XorName) : MerklePaymentReceipt :=
  { MerklePaymentReceipt.empty with
    proofs := (∅ : AList fun _ : XorName => MerklePaymentProof).insert name
      (Sample.proof 0 (Sample.addressBranch 0)) }

theorem mem_sampleMerkleReceipt {other : XorName} :
    other ∈ (sampleMerkleReceipt name).proofs ↔ other = name := by
  rw [sampleMerkleReceipt, AList.mem_insert, or_iff_left (AList.notMem_empty other)]

/-- With a receipt for the only chunk of a file, nothing is paid for again. -/
theorem nothing_paid_again_sample :
    PaysNothingAgain sampleClient 1 "" false ⟨.arbitrumOne⟩
      (sampleMerkleReceipt (polyHash [1])) ∅ [sampleFile [⟨[1]⟩]] := by
  refine ((nothing_paid_again_iff _ _ _ _ _ _ _ _).2 (by decide)
    (canUpload_sample _ [[⟨[1]⟩]])).mpr fun first hperm batch hbatch => .inl fun name hname => ?_
  have hpay : name ∈ sampleClient.toPay (sampleMerkleReceipt (polyHash [1])) ∅
      [sampleFile [⟨[1]⟩]] := by
    rw [perm_singleton.mp hperm] at hbatch
    have hmem := mem_flatten_of_mem hbatch hname
    rwa [flatten_batches] at hmem
  rw [mem_sampleMerkleReceipt]
  exact mem_singleton.mp (mem_toPay.mp hpay).1

/-- With a receipt for one of two chunks, both are paid for. -/
theorem chunk_paid_again :
    ¬ ∀ (client : Client) maxChunkSize path isPublic owner receipt present files,
      PaysNothingAgain client maxChunkSize path isPublic owner receipt present files := by
  intro h
  have hpay : sampleClient.toPay (sampleMerkleReceipt (polyHash [1])) ∅
      [sampleFile [⟨[1]⟩, ⟨[2]⟩]] = [polyHash [1], polyHash [2]] := by
    decide
  have hmixed := allOrNone_of_paysNothingAgain (by decide)
    (canUpload_sample (sampleMerkleReceipt (polyHash [1])) [[⟨[1]⟩, ⟨[2]⟩]])
    (h _ _ "" false _ _ _ _) (List.Perm.refl _)
  rw [AllOrNone, map_singleton, hpay, batches_of_length_le (cons_ne_nil _ _) (by decide)] at hmixed
  rcases hmixed _ mem_cons_self with hall | hnone
  · have hname := mem_sampleMerkleReceipt.mp (hall (polyHash [2])
      (mem_cons_of_mem _ mem_cons_self))
    exact absurd hname (by decide)
  · exact hnone (polyHash [1]) mem_cons_self (mem_sampleMerkleReceipt.mpr rfl)

end Autonomi.Client
