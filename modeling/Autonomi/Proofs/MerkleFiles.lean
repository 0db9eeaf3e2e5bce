/-
Whole uploads of the files of a directory.

The exchanges of a run show in which orders the files were opened, which chunks the
network was asked for and what it said.  `Passes` and `Presence` fix these: two orders
of the files, and the set of chunks that are present.  They determine the names that
are new, hence the batches; what is left open is how uploads and payments go.
-/
import Autonomi.Proofs.MerkleUploads
import Autonomi.Proofs.ClientReads
import Mathlib.Data.List.ReduceOption

namespace Autonomi.Client

open Lib Lib.Fallible List

variable {client : Client} {maxChunkSize : Nat} {wallet : Option Wallet}
  {es : List ClientExchange} {receipt : MerklePaymentReceipt} {present : Finset XorName}

/-! ### What a run shows -/

/-- Whether the answer to a query means that there is a record. -/
def foundBy (answer : Except NetworkError KadQuery) : Bool :=
  showsRecord (do
    let query ← answer
    updateGetRecord .one query.finish query.found [])

/-- The chunk that was asked for in an exchange, and whether it was found. -/
def reports : ClientExchange → Option (XorName × Bool)
  | ⟨.getRecord (.chunkAddress name) _, answer⟩ => some (name, foundBy answer)
  | _ => none

/-- The network finds the chunks that are present and no others. -/
def Presence (present : Finset XorName) (es : List ClientExchange) : Prop :=
  ∀ e ∈ es, ∀ name found, reports e = some (name, found) → (found = true ↔ name ∈ present)

def Reported (name : XorName) (es : List ClientExchange) : Prop :=
  ∃ e ∈ es, reports e = some (name, true)

def opened : ClientExchange → Option (Except String (List (Except String EncryptionStream)))
  | ⟨.encryptDirectoryFiles _ _, answer⟩ => some answer
  | _ => none

/-- The files are opened at most twice, first in the one and then in the other order. -/
def Passes (first second : List EncryptionStream) (es : List ClientExchange) : Prop :=
  es.filterMap opened <+: [.ok (first.map .ok), .ok (second.map .ok)]

theorem presence_append {first second : List ClientExchange} :
    Presence present (first ++ second) ↔ Presence present first ∧ Presence present second :=
  forall_mem_append

/-- Requests that neither open files nor ask whether a chunk exists. -/
def Quiet : ClientRequest → Prop
  | .encryptDirectoryFiles _ _ | .getRecord _ _ => False
  | _ => True

theorem ForTree.quiet {leaves : List XorName} {request : ClientRequest}
    (h : ForTree leaves request) : Quiet request := by
  cases request <;> trivial

theorem ForChunks.quiet {request : ClientRequest} (h : ForChunks request) : Quiet request := by
  cases request <;> trivial

theorem Quiet.reports {e : ClientExchange} (h : Quiet e.request) : reports e = none := by
  unfold Client.reports
  split
  · exact absurd h id
  · rfl

theorem Quiet.opened {e : ClientExchange} (h : Quiet e.request) : opened e = none := by
  unfold Client.opened
  split
  · exact absurd h id
  · rfl

theorem presence_of_quiet (h : ∀ e ∈ es, Quiet e.request) : Presence present es := by
  intro e he name found hreports
  rw [(h e he).reports] at hreports
  cases hreports

theorem filterMap_opened_of_quiet (h : ∀ e ∈ es, Quiet e.request) : es.filterMap opened = [] :=
  filterMap_eq_nil_iff.mpr fun e he => (h e he).opened

theorem asks_payAndUploadMerkleBatch {P : ClientRequest → Prop} (wallet : Option Wallet)
    (batch : List XorName) (state : MerkleUpload)
    (htree : (∃ name ∈ batch, name ∉ state.receipt.proofs) →
      ∀ q, ForTree (paddedAddresses batch) q → P q) (hchunks : ∀ q, ForChunks q → P q) :
    Asks P (client.payAndUploadMerkleBatch maxChunkSize wallet batch state) := by
  have hreceipt : Asks P (client.receiptForBatch maxChunkSize wallet batch state.receipt) := by
    by_cases hneeds : ∃ name ∈ batch, name ∉ state.receipt.proofs
    · exact asks_mono (htree hneeds) (asks_receiptForBatch wallet batch state.receipt)
    · rw [receiptForBatch, if_neg (by simpa using hneeds)]
      exact asks_pure
  refine asks_bind hreceipt fun paid => asks_bind (asks_mapError
    (asks_mono hchunks (asks_uploadBatchRemaining _ _ _))) fun uploaded => ?_
  exact asks_bind (asks_mapError (asks_mono hchunks
    (asks_retryFailedMerkleChunks _ _ _ _))) fun retried =>
      asks_bind asks_reject fun _ => asks_pure

theorem asks_payAndUploadStreams (wallet : Option Wallet) (toPay : List XorName)
    (state : MerkleUpload) :
    Asks Quiet (client.payAndUploadStreams maxChunkSize wallet toPay state) := by
  refine asks_bind ?_ fun state =>
    asks_bind asks_fromExcept fun _ => asks_pure
  induction batches maxLeaves toPay generalizing state with
  | nil => exact asks_pure
  | cons batch bs ih =>
    exact asks_bind (asks_payAndUploadMerkleBatch wallet batch state
      (fun _ _ => ForTree.quiet) fun _ => ForChunks.quiet) fun next => ih next

/-! ### Which chunks exist -/

/-- The chunks taken to exist: known from the receipt, or present and not paid for yet. -/
def known (receipt : MerklePaymentReceipt) (present : Finset XorName) : Finset XorName :=
  receipt.alreadyExisted ∪ receipt.uploaded ∪ present.filter (· ∉ receipt.proofs)

variable {ε : Type}

variable {name : XorName}

theorem runs_checkRecordExists {r : Except ε (Option XorName)}
    (h : Runs (checkRecordExists name) es r) :
    ∃ answer, es = [⟨.getRecord (.chunkAddress name) .one, answer⟩] ∧
      r = .ok (if foundBy answer then some name else none) := by
  obtain ⟨first, _, answer, rfl, hfirst, h₁⟩ := runs_attempt_bind_iff.mp h
  obtain ⟨rfl, rfl⟩ := runs_pure.mp h₁
  obtain ⟨query, rest, rfl, h₂⟩ := runs_request_bind_iff.mp hfirst
  refine ⟨query, ?_⟩
  rcases runs_fromExcept_bind_iff.mp h₂ with ⟨e, rfl, rfl, rfl⟩ | ⟨found, rfl, h₃⟩
  · exact ⟨rfl, rfl⟩
  · obtain ⟨rfl, rfl⟩ := runs_fromExcept.mp h₃
    exact ⟨rfl, rfl⟩

/-- The network finds the chunk that is asked for just if it is present. -/
def Tells (present : Finset XorName) (e : ClientExchange) : Prop :=
  ∀ name found, reports e = some (name, found) → (found = true ↔ name ∈ present)

theorem returns_checkRecordExists (name : XorName) :
    Returns (Tells present) (fun found => found = if name ∈ present then some name else none)
      (checkRecordExists name : ClientM ε (Option XorName)) := by
  intro es r hrun htells
  obtain ⟨answer, rfl, rfl⟩ := runs_checkRecordExists hrun
  have hfound := htells _ mem_cons_self name _ rfl
  exact ⟨_, rfl, by simp only [hfound]⟩

variable {names : List XorName} {batchSize : Nat} [NeZero batchSize]

theorem returns_checkRecordsExistBatch :
    Returns (Tells present) (fun found => ∀ name, name ∈ found ↔ name ∈ names ∧ name ∈ present)
      (checkRecordsExistBatch names batchSize : ClientM ε (Finset XorName)) := by
  refine returns_bind (returns_each (P := fun batch found => ∀ name, some name ∈ found ↔
    name ∈ batch ∧ name ∈ present) fun batch _ => ?_) fun found hfound => returns_pure fun name => ?_
  · refine returns_bind (returns_each fun name _ => returns_checkRecordExists name)
      fun results hresults => returns_inAnyOrder fun found hperm name => ?_
    rw [hperm.mem_iff]
    constructor
    · intro hname
      obtain ⟨other, hother, heq⟩ := exists_left_of_forall₂ hresults hname
      by_cases hmem : other ∈ present
      · rw [if_pos hmem] at heq
        cases heq
        exact ⟨hother, hmem⟩
      · rw [if_neg hmem] at heq
        cases heq
    · rintro ⟨hname, hmem⟩
      obtain ⟨_, hresult, rfl⟩ := exists_right_of_forall₂ hresults hname
      rwa [if_pos hmem] at hresult
  · have hflat : (batches batchSize names).flatten = names := flatten_batches names
    rw [mem_toFinset, reduceOption_mem_iff, ← hflat]
    clear hflat
    generalize batches batchSize names = bs at hfound ⊢
    induction hfound with
    | nil => simp
    | cons hbatch _ ih => simp only [flatten_cons, mem_append, hbatch, ih, or_and_right]

/-- These names were asked for, and nothing else was asked. -/
structure Checked (names : List XorName) (es : List ClientExchange) : Prop where
  asked : ∀ name ∈ names, ∃ e ∈ es, ∃ found, reports e = some (name, found)
  only : ∀ e ∈ es, (∃ name ∈ names, ∃ answer, e = ⟨.getRecord (.chunkAddress name) .one, answer⟩) ∨
    ∃ n order, e = ⟨.order n, order⟩

theorem checked_of_runs {found : Finset XorName}
    (h : Runs (checkRecordsExistBatch names batchSize : ClientM ε _) es (.ok found)) :
    Checked names es := by
  have hflat : (batches batchSize names).flatten = names := flatten_batches names
  refine ⟨fun name hname => ?_, fun e he => ?_⟩
  · rw [← hflat] at hname
    obtain ⟨batch, hbatch, hname⟩ := mem_flatten.mp hname
    obtain ⟨first, _, _, rfl, hbatches, -⟩ := runs_bind_eq_ok.mp h
    obtain ⟨_, -, part, hpart, hrun⟩ :=
      exists_right_of_forall₂ (forall₂_of_runs_each hbatches) hbatch
    obtain ⟨checks, _, _, rfl, hchecks, -⟩ := runs_bind_eq_ok.mp hrun
    obtain ⟨_, -, one, hone, hcheck⟩ := exists_right_of_forall₂ (forall₂_of_runs_each hchecks) hname
    obtain ⟨answer, rfl, -⟩ := runs_checkRecordExists hcheck
    exact ⟨_, mem_append_left _ (hpart.subset (mem_append_left _ (hone.subset mem_cons_self))),
      _, rfl⟩
  · have hasks : Asks (fun q => (∃ name ∈ names, q = .getRecord (.chunkAddress name) .one) ∨
        ∃ n, q = .order n) (checkRecordsExistBatch names batchSize : ClientM ε _) := by
      refine asks_bind (asks_each fun batch hbatch => asks_bind (asks_each fun name hname => ?_)
        fun _ => asks_inAnyOrder (fun n => .inr ⟨n, rfl⟩) _) fun _ => asks_pure
      have hname : name ∈ names := hflat ▸ mem_flatten_of_mem hbatch hname
      exact asks_bind (asks_attempt (asks_call_bind (.inl ⟨name, hname, rfl⟩)
        fun _ => asks_fromExcept)) fun _ => asks_pure
    obtain ⟨request, answer⟩ := e
    rcases asks_runs hasks h _ he with ⟨name, hname, rfl⟩ | ⟨n, rfl⟩
    · exact .inl ⟨name, hname, answer, rfl⟩
    · exact .inr ⟨n, answer, rfl⟩

theorem Checked.reported_iff (h : Checked names es) (hpresence : Presence present es)
    (name : XorName) : Reported name es ↔ name ∈ names ∧ name ∈ present := by
  constructor
  · intro hreported
    obtain ⟨e, he, hreports⟩ := hreported
    refine ⟨?_, (hpresence e he name true hreports).mp rfl⟩
    rcases h.only e he with ⟨other, hother, answer, rfl⟩ | ⟨n, order, rfl⟩
    · obtain ⟨rfl, -⟩ := Prod.mk.inj (Option.some.inj hreports)
      exact hother
    · cases hreports
  · intro hname
    obtain ⟨e, he, found, hreports⟩ := h.asked name hname.1
    obtain rfl : found = true := (hpresence e he name found hreports).mpr hname.2
    exact ⟨e, he, hreports⟩

theorem mem_known : name ∈ known receipt present ↔
    (name ∈ receipt.alreadyExisted ∨ name ∈ receipt.uploaded) ∨
      name ∈ present ∧ name ∉ receipt.proofs := by
  rw [known, Finset.mem_union, Finset.mem_union, Finset.mem_filter]

/-- The chunk is known from the receipt, or was reported in this run. -/
def ReportedOrKnown (receipt : MerklePaymentReceipt) (name : XorName) (es : List ClientExchange) :
    Prop :=
  (name ∈ receipt.alreadyExisted ∨ name ∈ receipt.uploaded) ∨ Reported name es

theorem runs_splitExistingAndNewChunks {xornames : List XorName}
    {r : Except ε (Finset XorName × List XorName)} (hpresence : Presence present es)
    (h : Runs (client.splitExistingAndNewChunks xornames receipt) es r) :
    (∃ existing, r = .ok (existing, unique (known receipt present) xornames) ∧
      ∀ name, name ∈ existing ↔ name ∈ xornames ∧ name ∈ known receipt present) ∧
    (∃ names, Checked names es) ∧
    ∀ name ∈ xornames, ReportedOrKnown receipt name es ↔ name ∈ known receipt present := by
  rcases runs_bind.mp h with ⟨e, hfails, -⟩ | ⟨first, _, found, rfl, hfirst, h₁⟩
  · obtain ⟨_, hok, -⟩ := returns_checkRecordsExistBatch _ _ hfails hpresence
    cases hok
  obtain ⟨rfl, rfl⟩ := runs_pure.mp h₁
  rw [append_nil] at hpresence ⊢
  have hchecked := checked_of_runs hfirst
  obtain ⟨_, hok, hfound⟩ := returns_checkRecordsExistBatch _ _ hfirst hpresence
  cases hok
  have hneed : ∀ name, name ∈ found ↔ name ∈ xornames ∧ name ∈ present ∧
      name ∉ receipt.proofs ∧ ¬ (name ∈ receipt.alreadyExisted ∨ name ∈ receipt.uploaded) := by
    intro name
    rw [hfound, mem_filter, mem_unique, decide_eq_true_eq]
    tauto
  have hexisting : ∀ name, name ∈ ((unique ∅ xornames).filter fun name =>
      name ∈ receipt.alreadyExisted ∨ name ∈ receipt.uploaded).toFinset ∪ found ↔
        name ∈ xornames ∧ name ∈ known receipt present := by
    intro name
    rw [Finset.mem_union, mem_toFinset, mem_filter, mem_unique, hneed, mem_known, decide_eq_true_eq]
    simp only [Finset.notMem_empty, not_false_eq_true, and_true]
    tauto
  refine ⟨⟨_, ?_, hexisting⟩, ⟨_, hchecked⟩, fun name hname => ?_⟩
  · rw [filter_unique, Finset.empty_union, unique_congr fun name hname =>
      (hexisting name).trans (and_iff_right hname)]
  · rw [ReportedOrKnown, hchecked.reported_iff hpresence, mem_known, ← hfound, hneed]
    tauto

/-! ### The first pass -/

theorem runs_openDirectory {path : String} {isPublic : Bool}
    {r : Except String (List EncryptionStream)} (h : Runs (openDirectory path isPublic) es r) :
    ∃ answer, es = [⟨.encryptDirectoryFiles path isPublic, answer⟩] ∧
      ∀ streams : List EncryptionStream, answer = .ok (streams.map .ok) → r = .ok streams := by
  obtain ⟨answer, rest, rfl, h₁⟩ := runs_request_bind_iff.mp h
  rcases runs_fromExcept_bind_iff.mp h₁ with ⟨e, rfl, rfl, rfl⟩ | ⟨files, rfl, h₂⟩
  · exact ⟨_, rfl, nofun⟩
  · obtain ⟨rfl, rfl⟩ := runs_fromExcept.mp h₂
    refine ⟨_, rfl, fun streams hanswer => ?_⟩
    rw [Except.ok.inj hanswer, Checks.mapM_eq_ok, forall₂_map_left_iff]
    exact forall₂_same.mpr fun _ _ => rfl

def opening (path : String) (isPublic : Bool) (streams : List EncryptionStream) : ClientExchange :=
  ⟨.encryptDirectoryFiles path isPublic, .ok (streams.map .ok)⟩

theorem filterMap_opening (path : String) (isPublic : Bool) (streams : List EncryptionStream)
    (es : List ClientExchange) :
    (opening path isPublic streams :: es).filterMap opened
      = .ok (streams.map .ok) :: es.filterMap opened := rfl

theorem runs_openDirectory_ok (path : String) (isPublic : Bool)
    (streams : List EncryptionStream) :
    Runs (openDirectory path isPublic) [opening path isPublic streams] (.ok streams) := by
  refine runs_request_bind (runs_fromExcept_bind (runs_fromExcept.mpr ⟨rfl, ?_⟩))
  rw [eq_comm, Checks.mapM_eq_ok, forall₂_map_left_iff]
  exact forall₂_same.mpr fun _ _ => rfl

theorem collectXorNamesFromStream_eq (client : Client) (stream : EncryptionStream) :
    (∀ x, client.collectXorNamesFromStream stream = .ok x → x.1 = client.names stream.produced) ∧
      (stream.finalDataMap ≠ none → ∃ x, client.collectXorNamesFromStream stream = .ok x) := by
  obtain ⟨hchunks, hmap⟩ := stream.drain_spec (max 32 client.chunkUploadBatchSize)
  unfold collectXorNamesFromStream
  simp only [hmap, hchunks]
  cases hfinal : stream.finalDataMap with
  | none => exact ⟨nofun, fun hne => absurd rfl hne⟩
  | some datamap =>
    refine ⟨fun x hx => ?_, fun _ => ⟨_, rfl⟩⟩
    cases hx
    rfl

variable {streams : List EncryptionStream}

theorem flatMap_of_collectXorNames {files : List (String × List XorName × CompletedFile)}
    (h : (streams.mapM fun stream => do
      return (stream.filePath, ← client.collectXorNamesFromStream stream)) = .ok files) :
    (files.flatMap fun file => file.2.1) = client.queued streams := by
  rw [Checks.mapM_eq_ok] at h
  induction h with
  | nil => rfl
  | @cons stream file streams files hfile _ ih =>
    obtain ⟨x, hx, hfile⟩ := Checks.bind_eq_ok.mp hfile
    cases hfile
    rw [flatMap_cons, ih, ((collectXorNamesFromStream_eq client stream).1 x hx)]
    simp only [queued, names, flatMap_cons, map_append]

theorem runs_collectXornamesFromDir {path : String} {isPublic : Bool}
    {r : Except String (List XorName × (AList fun _ : String => Nat) × List CompletedFile)}
    (h : Runs (client.collectXornamesFromDir path isPublic) es r) :
    ∃ answer, es = [⟨.encryptDirectoryFiles path isPublic, answer⟩] ∧
      ∀ streams : List EncryptionStream, answer = .ok (streams.map .ok) →
        ∀ x, r = .ok x → x.1 = client.queued streams := by
  rcases runs_bind.mp h with ⟨e, hfails, rfl⟩ | ⟨first, _, opened, rfl, hfirst, h₁⟩
  · obtain ⟨answer, rfl, -⟩ := runs_openDirectory hfails
    exact ⟨answer, rfl, nofun⟩
  obtain ⟨answer, rfl, hopened⟩ := runs_openDirectory hfirst
  rcases runs_fromExcept_bind_iff.mp h₁ with ⟨e, -, rfl, rfl⟩ | ⟨files, hfiles, h₂⟩
  · exact ⟨answer, rfl, nofun⟩
  obtain ⟨rfl, rfl⟩ := runs_pure.mp h₂
  refine ⟨answer, rfl, fun streams hanswer x hx => ?_⟩
  cases hopened streams hanswer
  cases hx
  exact flatMap_of_collectXorNames hfiles

theorem exists_runs_collectXornamesFromDir (client : Client) (path : String) (isPublic : Bool)
    (hmaps : ∀ stream ∈ streams, stream.finalDataMap ≠ none) :
    ∃ x, Runs (client.collectXornamesFromDir path isPublic) [opening path isPublic streams] (.ok x) ∧
      x.1 = client.queued streams := by
  cases hfiles : (streams.mapM fun stream => do
      return (stream.filePath, ← client.collectXorNamesFromStream stream) :
      Except String (List (String × List XorName × CompletedFile))) with
  | error message =>
    obtain ⟨stream, hstream, herror⟩ := Checks.exists_of_mapM_eq_error hfiles
    obtain ⟨x, hx⟩ := (collectXorNamesFromStream_eq client stream).2 (hmaps stream hstream)
    rw [hx] at herror
    cases herror
  | ok files =>
    exact ⟨_, runs_bind_last (runs_openDirectory_ok path isPublic streams)
      (runs_fromExcept_bind_iff.mpr (.inr ⟨files, hfiles, runs_return⟩)),
      flatMap_of_collectXorNames hfiles⟩

/-! ### The whole upload -/

def Looking : ClientRequest → Prop
  | .encryptDirectoryFiles _ _ | .getRecord _ _ | .order _ => True
  | _ => False

theorem Checked.looking (h : Checked names es) : ∀ e ∈ es, Looking e.request := by
  intro e he
  rcases h.only e he with ⟨name, -, answer, rfl⟩ | ⟨n, order, rfl⟩
  · trivial
  · trivial

theorem Checked.filterMap_opened (h : Checked names es) : es.filterMap opened = [] := by
  refine filterMap_eq_nil_iff.mpr fun e he => ?_
  rcases h.only e he with ⟨name, -, answer, rfl⟩ | ⟨n, order, rfl⟩
  · rfl
  · rfl

theorem reported_append {before after : List ClientExchange} :
    Reported name (before ++ after) ↔ Reported name before ∨ Reported name after := by
  simp only [Reported, mem_append, or_and_right, exists_or]

theorem not_reported_of_none (h : ∀ e ∈ es, reports e = none) : ¬ Reported name es := by
  intro hreported
  obtain ⟨e, he, hreports⟩ := hreported
  rw [h e he] at hreports
  cases hreports

theorem reportedOrKnown_checks {before checks after : List ClientExchange}
    (hbefore : ∀ e ∈ before, reports e = none) (hafter : ∀ e ∈ after, reports e = none) :
    ReportedOrKnown receipt name (before ++ checks ++ after) ↔
      ReportedOrKnown receipt name checks := by
  rw [ReportedOrKnown, reported_append, reported_append, or_iff_left (not_reported_of_none hafter),
    or_iff_right (not_reported_of_none hbefore)]
  rfl

structure SecondPass (client : Client) (first second : List EncryptionStream)
    (receipt : MerklePaymentReceipt) (present : Finset XorName) (state : MerkleUpload) : Prop where
  proofs : state.receipt.proofs = receipt.proofs
  exists_iff : ∀ name, name ∈ state.alreadyExist ↔
    name ∈ client.queued first ∧ name ∈ known receipt present
  streams : state.streams = second

def toPay (client : Client) (receipt : MerklePaymentReceipt) (present : Finset XorName)
    (streams : List EncryptionStream) : List XorName :=
  unique (known receipt present) (client.queued streams)

variable {first second : List EncryptionStream} {path : String} {isPublic : Bool}

variable {r : Except MerkleUploadErrorWithReceipt (Amount × List CompletedFile)}

theorem runs_filesPutWithMerklePaymentInternal (hpasses : Passes first second es)
    (hpresence : Presence present es)
    (h : Runs (client.filesPutWithMerklePaymentInternal maxChunkSize path isPublic wallet receipt)
      es r) :
    (∀ e ∈ es, Looking e.request) ∧ (∃ err, r = .error err ∧ err.missingProof = none) ∨
    (∀ name ∈ client.queued first,
      ReportedOrKnown receipt name es ↔ name ∈ known receipt present) ∧
    ((∀ e ∈ es, Looking e.request) ∧ client.toPay receipt present first = [] ∧ (∃ out, r = .ok out) ∨
      ∃ looked rest state, es = looked ++ rest ∧ (∀ e ∈ looked, Looking e.request) ∧
        client.toPay receipt present first ≠ [] ∧
        SecondPass client first second receipt present state ∧
        Runs (client.payAndUploadStreams maxChunkSize wallet (client.toPay receipt present first)
          state) rest r) := by
  have hlooking : ∀ (answer : Except String (List (Except String EncryptionStream)))
      (e : ClientExchange), e ∈ [(⟨.encryptDirectoryFiles path isPublic, answer⟩ : ClientExchange)] →
      Looking e.request := by
    intro answer e he
    obtain rfl := mem_singleton.mp he
    trivial
  rcases runs_reject_bind_iff.mp h with ⟨-, rfl, rfl⟩ | ⟨-, h⟩
  · exact .inl ⟨forall_mem_nil _, _, rfl, rfl⟩
  rcases runs_bind.mp h with ⟨e, hfails, rfl⟩ | ⟨opening, _, collected, rfl, hcollect, h⟩
  · obtain ⟨x, hx, heq⟩ := runs_mapError.mp hfails
    obtain ⟨answer, rfl, -⟩ := runs_collectXornamesFromDir hx
    match x, heq with
    | .error message, heq =>
      cases heq
      exact .inl ⟨hlooking answer, _, rfl, rfl⟩
  obtain ⟨allXorNames, fileChunkCounts, firstPassResults⟩ := collected
  obtain ⟨answer, rfl, hnames⟩ := runs_collectXornamesFromDir (runs_mapError_ok.mp hcollect)
  obtain ⟨hanswer, hpasses⟩ := cons_prefix_cons.mp hpasses
  obtain rfl : allXorNames = client.queued first := hnames first hanswer _ rfl
  obtain ⟨-, hpresence⟩ := presence_append.mp hpresence
  rcases runs_bind.mp h with ⟨e, hfails, -⟩ | ⟨checks, rest, split, rfl, hchecks, h⟩
  · obtain ⟨⟨_, hok, -⟩, -⟩ := runs_splitExistingAndNewChunks hpresence hfails
    cases hok
  obtain ⟨existing, new⟩ := split
  obtain ⟨⟨_, hok, hexisting⟩, ⟨names, hchecked⟩, hreported⟩ :=
    runs_splitExistingAndNewChunks (presence_append.mp hpresence).1 hchecks
  cases hok
  have hlooked : ∀ e ∈ [⟨.encryptDirectoryFiles path isPublic, answer⟩] ++ checks,
      Looking e.request :=
    forall_mem_append.mpr ⟨hlooking answer, hchecked.looking⟩
  change Runs (if client.toPay receipt present first = [] then _ else _) rest r at h
  have hreports : ∀ rest : List ClientExchange, (∀ e ∈ rest, reports e = none) →
      ∀ name ∈ client.queued first, ReportedOrKnown receipt name
        ([⟨.encryptDirectoryFiles path isPublic, answer⟩] ++ checks ++ rest) ↔
          name ∈ known receipt present := by
    intro rest hrest name hname
    rw [reportedOrKnown_checks (fun e he => mem_singleton.mp he ▸ rfl) hrest]
    exact hreported name hname
  by_cases hnew : client.toPay receipt present first = []
  · rw [if_pos hnew] at h
    obtain ⟨rfl, rfl⟩ := runs_pure.mp h
    have hnone := hreports [] fun e he => absurd he not_mem_nil
    rw [append_nil] at hnone ⊢
    exact .inr ⟨hnone, .inl ⟨hlooked, hnew, _, rfl⟩⟩
  · rw [if_neg hnew] at h
    have hpasses : (checks ++ rest).filterMap opened <+: [.ok (second.map .ok)] := hpasses
    rw [filterMap_append, hchecked.filterMap_opened] at hpasses
    rw [← append_assoc]
    rcases runs_bind.mp h with ⟨e, hfails, rfl⟩ | ⟨opening, rest, streams, rfl, hopen, hsecond⟩
    · obtain ⟨x, hx, heq⟩ := runs_mapError.mp hfails
      obtain ⟨again, rfl, -⟩ := runs_openDirectory hx
      match x, heq with
      | .error message, heq =>
        cases heq
        exact .inl ⟨forall_mem_append.mpr ⟨hlooked, hlooking again⟩, _, rfl, rfl⟩
    obtain ⟨again, rfl, hopened⟩ := runs_openDirectory (runs_mapError_ok.mp hopen)
    obtain ⟨hagain, -⟩ := cons_prefix_cons.mp hpasses
    cases hopened second hagain
    have hquiet := asks_runs (asks_payAndUploadStreams _ _ _) hsecond
    refine .inr ⟨hreports _ ?_, .inr ⟨_, rest, _, (append_assoc _ _ _).symm,
      forall_mem_append.mpr ⟨hlooked, hlooking again⟩, hnew, ⟨rfl, hexisting, rfl⟩, hsecond⟩⟩
    exact forall_mem_cons.mpr ⟨rfl, fun e he => (hquiet e he).reports⟩

/-! ### The second pass -/

theorem finishStream_eq_error {stream : EncryptionStream} {err : MerkleUploadErrorWithReceipt}
    (h : finishStream receipt stream = .error err) :
    stream.finalDataMap = none ∧ err.missingProof = none := by
  unfold finishStream at h
  split at h
  · cases h
  · simp only [(stream.drain_spec 16).2] at h
    split at h
    · cases h
    · rename_i hnone
      exact ⟨hnone, Except.error.inj h ▸ rfl⟩

variable {xornames : List XorName} {state : MerkleUpload}

theorem runs_payAndUploadStreams
    (h : Runs (client.payAndUploadStreams maxChunkSize wallet xornames state) es r) :
    ∃ x, Runs (client.payAndUploadMerkleBatches maxChunkSize wallet (batches maxLeaves xornames)
        state) es x ∧
      (∀ out, r = .ok out → ∃ next, x = .ok next) ∧
      ∀ err, r = .error err → err.missingProof ≠ none → x = .error err := by
  rcases runs_bind.mp h with ⟨e, hfails, rfl⟩ | ⟨first, second, next, rfl, hbatches, h₁⟩
  · exact ⟨_, hfails, nofun,
      fun err herr _ => congrArg Except.error (Except.error.inj herr)⟩
  rcases runs_fromExcept_bind_iff.mp h₁ with ⟨e, hfails, rfl, rfl⟩ | ⟨_, -, h₂⟩
  · obtain ⟨stream, -, herror⟩ := Checks.exists_of_mapM_eq_error hfails
    rw [append_nil]
    refine ⟨_, hbatches, fun _ _ => ⟨next, rfl⟩, fun err herr hmissing => ?_⟩
    cases herr
    exact absurd (finishStream_eq_error herror).2 hmissing
  · obtain ⟨rfl, rfl⟩ := runs_pure.mp h₂
    rw [append_nil]
    exact ⟨_, hbatches, fun _ _ => ⟨next, rfl⟩, nofun⟩

theorem exists_runs_payAndUploadStreams {next : MerkleUpload}
    (h : Runs (client.payAndUploadMerkleBatches maxChunkSize wallet (batches maxLeaves xornames)
      state) es (.ok next)) (hmaps : ∀ stream ∈ next.streams, stream.finalDataMap ≠ none) :
    ∃ out, Runs (client.payAndUploadStreams maxChunkSize wallet xornames state) es (.ok out) := by
  cases hfinish : next.streams.mapM (finishStream next.receipt) with
  | error err =>
    obtain ⟨stream, hstream, herror⟩ := Checks.exists_of_mapM_eq_error hfinish
    exact absurd (finishStream_eq_error herror).1 (hmaps stream hstream)
  | ok leftOver =>
    exact ⟨_, runs_bind_last h (runs_fromExcept_bind_iff.mpr
      (.inr ⟨leftOver, hfinish, runs_return⟩))⟩

/-! ### Uploads that reach the second pass -/

def answerFor (present : Finset XorName) (name : XorName) : KadQuery :=
  if name ∈ present then agreeing ⟨name.toList, ⟨none, .unreadable []⟩⟩ else ⟨[], .notFound⟩

theorem foundBy_answerFor (present : Finset XorName) (name : XorName) :
    foundBy (.ok (answerFor present name)) = true ↔ name ∈ present := by
  unfold foundBy answerFor
  by_cases hname : name ∈ present
  · simp only [hname, iff_true]
    have hfound := updateGetRecord_agreeing .one (by decide) ⟨name.toList, ⟨none, .unreadable []⟩⟩
    exact congrArg showsRecord hfound
  · simp only [hname, iff_false]
    exact Bool.false_ne_true

def presenceAnswer (present : Finset XorName) : (request : ClientRequest) → request.Response
  | .getRecord (.chunkAddress name) _ => .ok (answerFor present name)
  | request => sampleAnswer request

theorem exists_runs_splitExistingAndNewChunks (client : Client) (present : Finset XorName)
    (xornames : List XorName) (receipt : MerklePaymentReceipt) :
    ∃ part r, Runs (client.splitExistingAndNewChunks xornames receipt :
      ClientM ε (Finset XorName × List XorName)) part (.ok r) ∧ Presence present part := by
  obtain ⟨part, r, hrun, hanswers⟩ := exists_runs (presenceAnswer present)
    (client.splitExistingAndNewChunks xornames receipt : ClientM ε (Finset XorName × List XorName))
  have hpresence : Presence present part := by
    intro e he name found hreports
    have hanswer := hanswers e he
    unfold reports at hreports
    split at hreports
    · cases hanswer
      cases hreports
      exact foundBy_answerFor present name
    · cases hreports
  obtain ⟨⟨existing, rfl, -⟩, -⟩ := runs_splitExistingAndNewChunks hpresence hrun
  exact ⟨part, _, hrun, hpresence⟩

theorem exists_runs_secondPass (maxChunkSize : Nat) (path : String) (isPublic : Bool)
    (second : List EncryptionStream)
    (hwallet : ∀ owner ∈ wallet, owner.network = client.evmNetwork)
    (hmaps : ∀ stream ∈ first, stream.finalDataMap ≠ none)
    (hnew : client.toPay receipt present first ≠ []) :
    ∃ looked state, (∀ e ∈ looked, Looking e.request) ∧
      SecondPass client first second receipt present state ∧
      ∀ {rest r}, Runs (client.payAndUploadStreams maxChunkSize wallet
          (client.toPay receipt present first) state) rest r →
        Runs (client.filesPutWithMerklePaymentInternal maxChunkSize path isPublic wallet receipt)
          (looked ++ rest) r ∧
        Passes first second (looked ++ rest) ∧ Presence present (looked ++ rest) := by
  obtain ⟨⟨allXorNames, fileChunkCounts, firstPassResults⟩, hcollect, hnames⟩ :=
    exists_runs_collectXornamesFromDir client path isPublic hmaps
  obtain rfl : allXorNames = client.queued first := hnames
  obtain ⟨checks, ⟨existing, new⟩, hchecks, hpresence⟩ :=
    exists_runs_splitExistingAndNewChunks client present
      (client.queued first) { receipt with fileChunkCounts }
  obtain ⟨⟨_, hok, hexisting⟩, ⟨names, hchecked⟩, -⟩ :=
    runs_splitExistingAndNewChunks hpresence hchecks
  cases hok
  refine ⟨opening path isPublic first :: (checks ++ [opening path isPublic second]),
    ⟨{ receipt with fileChunkCounts }.addAlreadyExisted existing, existing, second, []⟩, ?_,
    ⟨rfl, hexisting, rfl⟩, fun {rest r} hrest => ?_⟩
  · exact forall_mem_cons.mpr ⟨trivial, forall_mem_append.mpr
      ⟨hchecked.looking, forall_mem_singleton.mpr trivial⟩⟩
  · have hquiet := asks_runs (asks_payAndUploadStreams _ _ _) hrest
    rw [cons_append, append_assoc]
    have hfirst := runs_mapError_ok (f := MerkleUploadErrorWithReceipt.encryption receipt)
      |>.mpr hcollect
    refine ⟨runs_reject_bind ?_ (runs_bind_ok hfirst (runs_bind_ok hchecks ?_)), ?_, ?_⟩
    · cases wallet with
      | none => exact Bool.false_ne_true
      | some owner => simpa using hwallet owner rfl
    · change Runs (if client.toPay receipt present first = [] then _ else _) _ r
      rw [if_neg hnew]
      exact runs_bind_ok (runs_mapError_ok.mpr (runs_openDirectory_ok path isPublic second)) hrest
    · unfold Passes
      rw [filterMap_opening, filterMap_append, hchecked.filterMap_opened, nil_append,
        singleton_append, filterMap_opening, filterMap_opened_of_quiet hquiet]
    · exact forall_mem_cons.mpr ⟨nofun, presence_append.mpr ⟨hpresence, forall_mem_cons.mpr
          ⟨nofun, presence_of_quiet hquiet⟩⟩⟩

end Autonomi.Client
