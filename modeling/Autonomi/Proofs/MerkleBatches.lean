/-
What the upload of one batch does.

A loop over the streams is a round over the names of what they produce: it skips what
exists, tries the rest up to the size of the batch, and what it tried exists once the
failed chunks have been retried.
-/
import Autonomi.Client.MerkleUpload
import Autonomi.Lib.Rounds
import Autonomi.Proofs.Uploads

namespace Autonomi.Client

open Lib Lib.Fallible List

variable {client : Client} {es : List ClientExchange}

/-! ### Storing one chunk -/

def StoredName (client : Client) (name : XorName) (es : List ClientExchange) : Prop :=
  ∃ chunk, Stored chunk es ∧ chunk.name client.crypto = name

variable {chunk : Chunk} {first second : List ClientExchange}

theorem stored_append :
    Stored chunk (first ++ second) ↔ Stored chunk first ∨ Stored chunk second := by
  simp only [Stored, mem_append, or_and_right, exists_or]

@[simp] theorem not_stored_nil : ¬ Stored chunk [] := by
  simp [Stored]

variable {name : XorName}

theorem storedName_append :
    StoredName client name (first ++ second) ↔
      StoredName client name first ∨ StoredName client name second := by
  simp only [StoredName, stored_append, or_and_right, exists_or]

@[simp] theorem not_storedName_nil : ¬ StoredName client name [] := by
  simp [StoredName]

def SendsNothing : ClientRequest → Prop
  | .putRecord _ _ _ => False
  | _ => True

theorem not_stored_of_sendsNothing (h : ∀ e ∈ es, SendsNothing e.request) : ¬ Stored chunk es := by
  intro hstored
  obtain ⟨e, he, hchunk⟩ := hstored
  have hnone := h e he
  unfold storedChunk at hchunk
  split at hchunk
  · exact hnone
  · cases hchunk

theorem not_storedName_of_never {P : ClientRequest → Prop}
    (hP : ∀ record targets quorum, ¬ P (.putRecord record targets quorum))
    (h : ∀ e ∈ es, P e.request) : ¬ StoredName client name es := by
  intro hstored
  obtain ⟨chunk, hchunk, -⟩ := hstored
  refine not_stored_of_sendsNothing (fun e he => ?_) hchunk
  have hasked := h e he
  unfold SendsNothing
  split
  · rename_i heq
    rw [heq] at hasked
    exact hP _ _ _ hasked
  · trivial

theorem stored_iff_of_putRecordWithRetries {record : Record} {targets : List PeerId}
    {strategy : Strategy} {r : Except NetworkError Unit}
    (h : Runs (putRecordWithRetries record targets strategy) es r) :
    Stored chunk es ↔ carriedChunk record = some chunk ∧ r = .ok () := by
  unfold putRecordWithRetries at h
  generalize strategy.putRetry.backoff = attempts at h
  induction attempts generalizing es with
  | zero =>
    obtain ⟨rfl, rfl⟩ := runs_throw.mp h
    simp
  | succ attempts ih =>
    obtain ⟨first, second, answer, rfl, hfirst, hrest⟩ := runs_attempt_bind_iff.mp h
    obtain ⟨sent, _, rfl, hlast⟩ := runs_request_bind_iff.mp hfirst
    obtain ⟨rfl, hanswer⟩ := runs_fromExcept.mp hlast
    subst hanswer
    rw [stored_append]
    match answer, hrest with
    | .ok (), hrest =>
      obtain ⟨rfl, rfl⟩ := runs_pure.mp hrest
      simp [Stored, storedChunk]
    | .error e, hrest =>
      have hnone : ¬ Stored chunk [⟨.putRecord record targets strategy.putQuorum, .error e⟩] := by
        simp [Stored, storedChunk]
      rw [or_iff_right hnone]
      by_cases hgive : e.cannotRetry ∨ attempts = 0
      · simp only [if_pos hgive] at hrest
        obtain ⟨rfl, rfl⟩ := runs_throw.mp hrest
        simp
      · simp only [if_neg hgive] at hrest
        exact ih hrest

theorem asks_kadOnlyPeers {P : ClientRequest → Prop} {address : NetworkAddress}
    (h : ∀ count, P (.getClosestPeersKadOnly address count)) : Asks P (kadOnlyPeers address) :=
  asks_call (h _)

theorem asks_storingNodes {P : ClientRequest → Prop} {address : NetworkAddress}
    (hpeers : ∀ count, P (.getClosestPeers address count))
    (hkad : ∀ count, P (.getClosestPeersKadOnly address count)) :
    Asks P (storingNodes address) := by
  refine asks_bind (asks_attempt (asks_withRetries ?_ _)) fun found => ?_
  · exact asks_call (hpeers _)
  · cases found with
    | ok peers => exact asks_pure
    | error _ => exact asks_kadOnlyPeers hkad

theorem runs_uploadChunkWithMerkleProof {proof : MerklePaymentProof}
    {r : Except NetworkError XorName}
    (h : Runs (client.uploadChunkWithMerkleProof chunk proof) es r) :
    (r = .ok (chunk.name client.crypto) ∧ ∀ other, Stored other es ↔ other = chunk) ∨
      ∃ err, r = .error err ∧ ∀ other, ¬ Stored other es := by
  have hrecord : ∀ {part x}, Runs (client.uploadRecordWithMerkleProof
      (.chunkAddress (chunk.name client.crypto)) .chunk (.chunk chunk) proof) part x →
      ∀ other, Stored other part ↔ some chunk = some other ∧ x = .ok () := by
    intro part x hpart other
    rcases runs_bind.mp hpart with ⟨err, herr, rfl⟩ | ⟨first, _, nodes, rfl, hnodes, h₁⟩
    · have hnone : ¬ Stored other part := not_stored_of_sendsNothing
        (asks_runs (asks_storingNodes (fun _ => trivial) fun _ => trivial) herr)
      simp [hnone]
    have hfirst : ¬ Stored other first := not_stored_of_sendsNothing
      (asks_runs (asks_storingNodes (fun _ => trivial) fun _ => trivial) hnodes)
    obtain ⟨second, _, sent, rfl, hsent, h₂⟩ := runs_attempt_bind_iff.mp h₁
    rw [stored_append, or_iff_right hfirst, stored_append, stored_iff_of_putRecordWithRetries hsent]
    match sent, h₂ with
    | .ok (), h₂ =>
      obtain ⟨rfl, rfl⟩ := runs_pure.mp h₂
      simp [carriedChunk]
    | .error _, h₂ =>
      rw [or_iff_right (by simp)]
      rcases runs_bind.mp h₂ with ⟨err, herr, rfl⟩ | ⟨third, last, fallback, rfl, hkad, h₃⟩
      · have hnone : ¬ Stored other _ := not_stored_of_sendsNothing
          (asks_runs (asks_kadOnlyPeers fun _ => trivial) herr)
        simp [hnone]
      · have hthird : ¬ Stored other third := not_stored_of_sendsNothing
          (asks_runs (asks_kadOnlyPeers fun _ => trivial) hkad)
        rw [stored_append, or_iff_right hthird, stored_iff_of_putRecordWithRetries h₃]
        rfl
  rcases runs_bind.mp h with ⟨err, herr, rfl⟩ | ⟨first, _, _, rfl, hok, hpure⟩
  · refine .inr ⟨err, rfl, fun other => ?_⟩
    rw [hrecord herr]
    simp
  · obtain ⟨rfl, rfl⟩ := runs_pure.mp hpure
    refine .inl ⟨rfl, fun other => ?_⟩
    rw [append_nil, hrecord hok]
    simp [eq_comm]

/-! ### Storing many chunks -/

def names (client : Client) (chunks : List Chunk) : List XorName :=
  chunks.map fun chunk => chunk.name client.crypto

def failedNames (client : Client) (failed : List (Chunk × NetworkError)) : List XorName :=
  client.names (failed.map Prod.fst)

variable {receipt : MerklePaymentReceipt} {dontReupload : Finset XorName} {chunks : List Chunk}
  {tasks : List (Chunk × MerklePaymentProof)}

theorem merkleTask_eq_ok {task : Chunk × MerklePaymentProof} :
    client.merkleTask receipt chunk = .ok task ↔
      task.1 = chunk ∧ receipt.proofs.lookup (chunk.name client.crypto) = some task.2 := by
  unfold merkleTask
  split
  · rename_i proof hproof
    rw [hproof, Except.ok.injEq, Option.some.injEq, Prod.ext_iff]
    exact and_congr_left' eq_comm
  · rename_i hnone
    simp [hnone]

theorem merkleTask_eq_error {err : MerklePutError} :
    client.merkleTask receipt chunk = .error err ↔
      chunk.name client.crypto ∉ receipt.proofs ∧
        err = .missingPaymentProofFor (chunk.name client.crypto) := by
  rw [← AList.lookup_eq_none]
  unfold merkleTask
  split
  · rename_i proof hproof
    simp [hproof]
  · rename_i hnone
    rw [Except.error.injEq, eq_comm]
    exact (and_iff_right hnone).symm

variable (h : client.merkleTasks receipt dontReupload chunks = .ok tasks)

include h

theorem merkleTasks_ok :
    client.names (tasks.map Prod.fst) = (client.names chunks).filter (· ∉ dontReupload) ∧
      ∀ name ∈ client.names (tasks.map Prod.fst), name ∈ receipt.proofs := by
  have htasks := Checks.mapM_eq_ok.mp h
  constructor
  · have hfst : tasks.map Prod.fst = chunks.filter fun chunk =>
        chunk.name client.crypto ∉ dontReupload := by
      rw [← forall₂_eq_eq_eq, forall₂_map_left_iff]
      exact htasks.flip.imp fun task chunk heq => (merkleTask_eq_ok.mp heq).1
    rw [hfst, names, names, filter_map]
    rfl
  · intro name hname
    rw [names, map_map] at hname
    obtain ⟨task, hmem, rfl⟩ := mem_map.mp hname
    obtain ⟨chunk, -, heq⟩ := exists_left_of_forall₂ htasks hmem
    obtain ⟨rfl, hproof⟩ := merkleTask_eq_ok.mp heq
    exact Table.mem_iff_lookup.mpr ⟨_, hproof⟩

theorem length_of_merkleTasks :
    tasks.length = ((client.names chunks).filter (· ∉ dontReupload)).length := by
  rw [← (merkleTasks_ok h).1, names, length_map, length_map]

omit h

theorem merkleTasks_error {err : MerklePutError}
    (h : client.merkleTasks receipt dontReupload chunks = .error err) :
    ∃ name ∈ (client.names chunks).filter (· ∉ dontReupload), name ∉ receipt.proofs ∧
      err = .missingPaymentProofFor name := by
  obtain ⟨chunk, hchunk, heq⟩ := Checks.exists_of_mapM_eq_error h
  obtain ⟨hchunk, hnew⟩ := mem_filter.mp hchunk
  exact ⟨_, mem_filter.mpr ⟨mem_map_of_mem hchunk, hnew⟩, merkleTask_eq_error.mp heq⟩

variable {results : List ChunkResult}

theorem mem_uploadedNames :
    name ∈ uploadedNames results ↔ ∃ result ∈ results, result.2 = .ok name := by
  simp only [uploadedNames, mem_toFinset, mem_filterMap]
  refine exists_congr fun result => and_congr_right fun _ => ?_
  cases result.2 <;> simp [Except.toOption]

theorem mem_failedChunks {failed : Chunk × NetworkError} :
    failed ∈ failedChunks results ↔ (failed.1, .error failed.2) ∈ results := by
  simp only [failedChunks, mem_filterMap]
  constructor
  · intro h
    obtain ⟨result, hmem, heq⟩ := h
    split at heq
    · cases heq
      exact hmem
    · cases heq
  · exact fun h => ⟨_, h, rfl⟩

def TaskEnded (client : Client) (task : Chunk × MerklePaymentProof) (result : ChunkResult) : Prop :=
  result.1 = task.1 ∧ ∀ name, result.2 = .ok name → name = task.1.name client.crypto

theorem runs_each_tasks (h : Runs (Fallible.each (fun task => do
      let result ← Fallible.attempt (client.uploadChunkWithMerkleProof task.1 task.2)
      return (task.1, result) : _ → ClientM MerklePutError ChunkResult) tasks) es (.ok results)) :
    List.Forall₂ (TaskEnded client) tasks results ∧
      ∀ name, StoredName client name es ↔ ∃ result ∈ results, result.2 = .ok name := by
  induction tasks generalizing es results with
  | nil =>
    obtain ⟨rfl, hresults⟩ := runs_each_nil.mp h
    cases hresults
    simp
  | cons task tasks ih =>
    obtain ⟨first, second, b, rest, rfl, rfl, hfirst, hrest⟩ := runs_each_cons_ok.mp h
    obtain ⟨hended, hstored⟩ := ih hrest
    obtain ⟨part, _, x, rfl, hrun, hpure⟩ := runs_attempt_bind_iff.mp hfirst
    obtain ⟨rfl, hb⟩ := runs_pure.mp hpure
    cases hb
    simp only [append_nil, storedName_append, hstored, exists_mem_cons_iff]
    rcases runs_uploadChunkWithMerkleProof hrun with ⟨rfl, hone⟩ | ⟨err, rfl, hnone⟩
    · refine ⟨.cons ⟨rfl, fun name hname => (Except.ok.inj hname).symm⟩ hended, fun name => ?_⟩
      simp [StoredName, hone]
    · refine ⟨.cons ⟨rfl, nofun⟩ hended, fun name => ?_⟩
      simp [StoredName, hnone]

theorem runs_runMerkleTasks {r : Except MerklePutError (List ChunkResult)}
    (h : Runs (client.runMerkleTasks tasks) es r) :
    ∃ results, r = .ok results ∧
      (∀ name, name ∈ uploadedNames results ↔ StoredName client name es) ∧
      ∀ name, name ∈ client.names (tasks.map Prod.fst) ↔
        name ∈ uploadedNames results ∨ name ∈ client.failedNames (failedChunks results) := by
  rcases runs_bind.mp h with ⟨e, herror, -⟩ | ⟨first, _, unordered, rfl, hfirst, h₁⟩
  · refine absurd herror (not_runs_each_error fun task part e hpart => ?_)
    obtain ⟨_, _, x, rfl, -, hpure⟩ := runs_attempt_bind_iff.mp hpart
    cases (runs_pure.mp hpure).2
  obtain ⟨hended, hstored⟩ := runs_each_tasks hfirst
  obtain ⟨order, rfl, rfl⟩ := runs_inAnyOrder.mp h₁
  have hperm := arrange_perm unordered order
  refine ⟨arrange unordered order, rfl, fun name => ?_, fun name => ?_⟩
  · have hquiet : ¬ StoredName client name [⟨.order unordered.length, order⟩] := by
      simp [StoredName, Stored, storedChunk]
    rw [storedName_append, or_iff_left hquiet, hstored, mem_uploadedNames]
    simp only [hperm.mem_iff]
  · simp only [names, failedNames, map_map, mem_map, mem_uploadedNames, mem_failedChunks,
      hperm.mem_iff, Function.comp_apply]
    constructor
    · intro hname
      obtain ⟨task, htask, rfl⟩ := hname
      obtain ⟨result, hresult, heq, hok⟩ := exists_right_of_forall₂ hended htask
      obtain ⟨chunk, outcome⟩ := result
      obtain rfl : chunk = task.1 := heq
      match outcome, hok, hresult with
      | .ok name, hok, hresult => exact .inl ⟨_, hresult, by rw [hok name rfl]⟩
      | .error err, _, hresult => exact .inr ⟨(task.1, err), hresult, rfl⟩
    · intro hname
      rcases hname with ⟨result, hresult, hname⟩ | ⟨failed, hfailed, rfl⟩
      · obtain ⟨task, htask, -, hok⟩ := exists_left_of_forall₂ hended hresult
        exact ⟨task, htask, (hok name hname).symm⟩
      · obtain ⟨task, htask, heq, -⟩ := exists_left_of_forall₂ hended hfailed
        exact ⟨task, htask, congrArg (Chunk.name client.crypto) heq.symm⟩

/-! ### The loop over the streams -/

def queued (client : Client) (streams : List EncryptionStream) : List XorName :=
  client.names (streams.flatMap EncryptionStream.produced)

section Loop

variable {limit : Nat} {upload : MerkleBatchUpload} {stream : EncryptionStream}
  {streams : List EncryptionStream}

theorem uploadBatchRemaining_stop (h : limit = 0 ∨ upload.streams = []) :
    client.uploadBatchRemaining receipt limit upload = pure upload := by
  rw [uploadBatchRemaining]
  split
  · rfl
  · rename_i hlimit
    split
    · rfl
    · rename_i stream streams hstreams
      rw [h.resolve_left hlimit] at hstreams
      cases hstreams

theorem uploadBatchRemaining_cons (hlimit : limit ≠ 0)
    (hstreams : upload.streams = stream :: streams) :
    client.uploadBatchRemaining receipt limit upload =
      (if (stream.nextBatch (min client.uploadFlowBatchSize limit)).1.getD [] = [] then do
        let datamap ← Fallible.fromExcept (Checks.okOr
          (stream.nextBatch (min client.uploadFlowBatchSize limit)).2.dataMapChunk
          .streamShouldHaveDatamap)
        client.uploadBatchRemaining receipt limit (upload.complete
          (stream.nextBatch (min client.uploadFlowBatchSize limit)).2 datamap streams)
      else do
        let tasks ← Fallible.fromExcept (client.merkleTasks receipt upload.dontReupload
          ((stream.nextBatch (min client.uploadFlowBatchSize limit)).1.getD []))
        let results ← client.runMerkleTasks tasks
        client.uploadBatchRemaining receipt (limit - tasks.length) (upload.addResults
          ((stream.nextBatch (min client.uploadFlowBatchSize limit)).2 :: streams) results)) := by
  rw [uploadBatchRemaining, if_neg hlimit]
  split
  · rename_i hnil
    rw [hnil] at hstreams
    cases hstreams
  · rename_i hcons
    rw [hcons] at hstreams
    cases hstreams
    exact dite_eq_ite

theorem queued_nextBatch (client : Client) (stream : EncryptionStream)
    (streams : List EncryptionStream) (limit : Nat) :
    client.queued (stream :: streams)
        = client.names ((stream.nextBatch (min client.uploadFlowBatchSize limit)).1.getD [])
          ++ client.queued ((stream.nextBatch (min client.uploadFlowBatchSize limit)).2 :: streams) ∧
      (client.names ((stream.nextBatch (min client.uploadFlowBatchSize limit)).1.getD [])).length
        ≤ limit := by
  obtain ⟨hbatch, hrest, -⟩ := stream.nextBatch_spec (min client.uploadFlowBatchSize limit)
  constructor
  · simp only [queued, names, flatMap_cons, hbatch, hrest, ← map_append,
      ← append_assoc, take_append_drop]
  · rw [names, length_map, hbatch, length_take]
    omega

theorem nextBatch_eq_nil (hsize : 0 < client.uploadFlowBatchSize) (hlimit : limit ≠ 0)
    (hchunks : (stream.nextBatch (min client.uploadFlowBatchSize limit)).1.getD [] = []) :
    stream.produced = [] ∧
      (stream.nextBatch (min client.uploadFlowBatchSize limit)).2.dataMapChunk
        = stream.finalDataMap := by
  have hpos : 0 < min client.uploadFlowBatchSize limit := by omega
  have hnil : stream.produced = [] := by
    rw [(stream.nextBatch_spec _).1, take_eq_nil_iff] at hchunks
    exact hchunks.resolve_left (Nat.ne_of_gt hpos)
  exact ⟨hnil, (stream.nextBatch_eq hpos).2.2.2 (by rwa [hnil])⟩

/-- What trying these names does to what exists and to what failed. -/
structure Tried (client : Client) (receipt : MerklePaymentReceipt) (es : List ClientExchange)
    (before after : Finset XorName) (failedBefore failedAfter : List (Chunk × NetworkError))
    (tried : List XorName) : Prop where
  proved : ∀ name ∈ tried, name ∈ receipt.proofs
  exists_iff : ∀ name, name ∈ after ↔ name ∈ before ∨ StoredName client name es
  stored : ∀ name, StoredName client name es → name ∈ tried
  ends : ∀ name ∈ tried, StoredName client name es ∨ name ∈ client.failedNames failedAfter
  failed : ∀ name ∈ client.failedNames failedAfter,
    name ∈ client.failedNames failedBefore ∨ name ∈ tried
  still_failed : ∀ name ∈ client.failedNames failedBefore, name ∈ client.failedNames failedAfter

theorem Tried.nil {done : Finset XorName} {failed : List (Chunk × NetworkError)} :
    Tried client receipt [] done done failed failed [] :=
  ⟨by simp, by simp, by simp, by simp, fun _ => .inl, fun _ => id⟩

theorem failedNames_append {first second : List (Chunk × NetworkError)} :
    client.failedNames (first ++ second) = client.failedNames first ++ client.failedNames second := by
  simp [failedNames, names]

theorem Tried.runTasks {first second : List ClientExchange} {results : List ChunkResult}
    {before after : Finset XorName} {failedBefore failedAfter : List (Chunk × NetworkError)}
    {window tried : List XorName} (hproved : ∀ name ∈ window, name ∈ receipt.proofs)
    (hstored : ∀ name, name ∈ uploadedNames results ↔ StoredName client name first)
    (hends : ∀ name, name ∈ window ↔
      name ∈ uploadedNames results ∨ name ∈ client.failedNames (failedChunks results))
    (h : Tried client receipt second (before ∪ uploadedNames results) after
      (failedBefore ++ failedChunks results) failedAfter tried) :
    Tried client receipt (first ++ second) before after failedBefore failedAfter
      (window ++ tried) := by
  refine ⟨fun name hname => ?_, fun name => ?_, fun name hname => ?_, fun name hname => ?_,
    fun name hname => ?_, fun name hname => ?_⟩
  · exact (mem_append.mp hname).elim (hproved name) (h.proved name)
  · rw [h.exists_iff, Finset.mem_union, hstored, storedName_append, or_assoc]
  · rw [mem_append]
    rcases storedName_append.mp hname with hname | hname
    · exact .inl ((hends name).mpr (.inl ((hstored name).mpr hname)))
    · exact .inr (h.stored name hname)
  · rw [storedName_append]
    rcases mem_append.mp hname with hname | hname
    · rcases (hends name).mp hname with hname | hname
      · exact .inl (.inl ((hstored name).mp hname))
      · refine .inr (h.still_failed name ?_)
        rw [failedNames_append]
        exact mem_append_right _ hname
    · exact (h.ends name hname).imp_left .inr
  · rw [mem_append]
    rcases h.failed name hname with hname | hname
    · rw [failedNames_append] at hname
      exact (mem_append.mp hname).imp_right fun hname => .inl ((hends name).mpr (.inr hname))
    · exact .inr (.inr hname)
  · refine h.still_failed name ?_
    rw [failedNames_append]
    exact mem_append_left _ hname

variable {r : Except MerklePutError MerkleBatchUpload}

theorem runs_uploadBatchRemaining (hsize : 0 < client.uploadFlowBatchSize)
    (h : Runs (client.uploadBatchRemaining receipt limit upload) es r) :
    (∃ uploaded tried, r = .ok uploaded ∧
      Round upload.dontReupload limit (client.queued upload.streams) tried
        (client.queued uploaded.streams) ∧
      Tried client receipt es upload.dontReupload uploaded.dontReupload upload.failedChunks
        uploaded.failedChunks tried) ∨
    (∃ name, r = .error (.missingPaymentProofFor name) ∧ name ∉ receipt.proofs ∧
      Comes upload.dontReupload limit (client.queued upload.streams) name) ∨
    r = .error .streamShouldHaveDatamap := by
  induction limit, upload using uploadBatchRemaining.induct client generalizing es with
  | case1 upload =>
    rw [uploadBatchRemaining_stop (.inl rfl)] at h
    obtain ⟨rfl, rfl⟩ := runs_pure.mp h
    exact .inl ⟨upload, [], rfl, Round.stop (.inl rfl), Tried.nil⟩
  | case2 limit upload hlimit hnil =>
    rw [uploadBatchRemaining_stop (.inr hnil)] at h
    obtain ⟨rfl, rfl⟩ := runs_pure.mp h
    exact .inl ⟨upload, [], rfl, Round.stop (.inr (by rw [hnil]; rfl)), Tried.nil⟩
  | case3 limit upload hlimit stream streams hstreams batchToGet chunks rest hchunks =>
    rename_i ih
    rw [uploadBatchRemaining_cons hlimit hstreams, if_pos hchunks] at h
    rcases runs_fromExcept_bind_iff.mp h with ⟨err, herr, rfl, rfl⟩ | ⟨datamap, -, hrest⟩
    · exact .inr (.inr (by rw [(Checks.okOr_eq_error.mp herr).2]))
    · have hqueue : client.queued upload.streams = client.queued streams := by
        rw [hstreams, queued, flatMap_cons, (nextBatch_eq_nil hsize hlimit hchunks).1]
        rfl
      rw [hqueue]
      exact ih datamap hrest
  | case4 limit upload hlimit stream streams hstreams batchToGet chunks rest hchunks =>
    rename_i ih
    rw [uploadBatchRemaining_cons hlimit hstreams, if_neg hchunks] at h
    obtain ⟨hqueue, hroom⟩ := client.queued_nextBatch stream streams limit
    rw [hstreams, hqueue]
    rcases runs_fromExcept_bind_iff.mp h with ⟨err, herr, -, rfl⟩ | ⟨tasks, htasks, h₁⟩
    · obtain ⟨name, hname, hproof, rfl⟩ := merkleTasks_error herr
      exact .inr (.inl ⟨name, rfl, hproof, Comes.inWindow hroom hname⟩)
    obtain ⟨hwindow, hproved⟩ := merkleTasks_ok htasks
    have hlength := length_of_merkleTasks htasks
    rcases runs_bind.mp h₁ with ⟨err, herr, -⟩ | ⟨first, second, results, rfl, hrun, h₂⟩
    · obtain ⟨_, hok, -⟩ := runs_runMerkleTasks herr
      cases hok
    obtain ⟨_, hok, hstored, hends⟩ := runs_runMerkleTasks hrun
    cases hok
    rw [hwindow] at hproved hends
    have hfinished : ∀ name ∈ uploadedNames results,
        name ∈ (client.names chunks).filter (· ∉ upload.dontReupload) := fun name hname =>
      (hends name).mpr (.inl hname)
    have hrest := ih tasks results h₂
    rw [hlength] at hrest
    rcases hrest with ⟨uploaded, tried, rfl, hround, htried⟩ | ⟨name, rfl, hproof, hcomes⟩ | rfl
    · exact .inl ⟨uploaded, _, rfl, Round.drawWindow hroom hfinished hround,
        Tried.runTasks hproved hstored hends htried⟩
    · exact .inr (.inl ⟨name, rfl, hproof, Comes.afterWindow hfinished hcomes⟩)
    · exact .inr (.inr rfl)

end Loop

variable {failed : List (Chunk × NetworkError)}

theorem runs_retryFailedMerkleChunks {retries : Nat} {alreadyExist : Finset XorName}
    {r : Except MerklePutError (List (Chunk × NetworkError) × Finset XorName)}
    (hproved : ∀ name ∈ client.failedNames failed, name ∈ receipt.proofs)
    (h : Runs (client.retryFailedMerkleChunks receipt retries failed alreadyExist) es r) :
    ∃ remaining after, r = .ok (remaining, after) ∧
      (∀ name, name ∈ after ↔ name ∈ alreadyExist ∨ StoredName client name es) ∧
      (∀ name, StoredName client name es → name ∈ client.failedNames failed) ∧
      (remaining = [] → ∀ name ∈ client.failedNames failed, name ∈ after) := by
  induction retries generalizing failed alreadyExist es with
  | zero =>
    obtain ⟨rfl, rfl⟩ := runs_pure.mp h
    refine ⟨failed, alreadyExist, rfl, by simp, by simp, ?_⟩
    rintro rfl name hname
    cases hname
  | succ retries ih =>
    rw [retryFailedMerkleChunks] at h
    by_cases hnil : failed = []
    · rw [if_pos hnil] at h
      obtain ⟨rfl, rfl⟩ := runs_pure.mp h
      refine ⟨failed, alreadyExist, rfl, by simp, by simp, fun _ name hname => ?_⟩
      rw [hnil] at hname
      cases hname
    rw [if_neg hnil] at h
    rcases runs_fromExcept_bind_iff.mp h with ⟨err, herr, -, -⟩ | ⟨tasks, htasks, h₁⟩
    · obtain ⟨name, hname, hproof, -⟩ := merkleTasks_error herr
      exact absurd (hproved name (mem_of_mem_filter hname)) hproof
    obtain ⟨hwindow, -⟩ := merkleTasks_ok htasks
    rcases runs_bind.mp h₁ with ⟨err, herr, -⟩ | ⟨first, second, results, rfl, hrun, h₂⟩
    · obtain ⟨_, hok, -⟩ := runs_runMerkleTasks herr
      cases hok
    obtain ⟨_, hok, hstored, hends⟩ := runs_runMerkleTasks hrun
    cases hok
    rw [hwindow] at hends
    have hagain : ∀ name ∈ client.failedNames (failedChunks results),
        name ∈ client.failedNames failed := fun name hname =>
      mem_of_mem_filter ((hends name).mpr (.inr hname))
    obtain ⟨remaining, after, rfl, hafter, hstoredLater, hall⟩ :=
      ih (fun name hname => hproved name (hagain name hname)) h₂
    refine ⟨remaining, after, rfl, fun name => ?_, fun name hname => ?_, fun hnone name hname => ?_⟩
    · rw [hafter, Finset.mem_union, hstored, storedName_append, or_assoc]
    · rcases storedName_append.mp hname with hname | hname
      · exact mem_of_mem_filter ((hends name).mpr (.inl ((hstored name).mpr hname)))
      · exact hagain name (hstoredLater name hname)
    · by_cases hexists : name ∈ alreadyExist
      · exact (hafter name).mpr (.inl (Finset.mem_union_left _ hexists))
      · rcases (hends name).mp (mem_filter.mpr ⟨hname, decide_eq_true hexists⟩) with
          hname | hname
        · exact (hafter name).mpr (.inl (Finset.mem_union_right _ hname))
        · exact hall hnone name hname

/-! ### Batches without room

A batch size of zero hands out no chunks: every stream looks exhausted at once.
-/

section NoRoom

variable {limit : Nat} {upload : MerkleBatchUpload}

theorem nextBatch_noRoom (hsize : client.uploadFlowBatchSize = 0) (stream : EncryptionStream)
    (limit : Nat) : stream.nextBatch (min client.uploadFlowBatchSize limit) = (some [], stream) := by
  rw [hsize]
  rfl

theorem runs_uploadBatchRemaining_noRoom (hsize : client.uploadFlowBatchSize = 0)
    (h : Runs (client.uploadBatchRemaining receipt limit upload) es r) :
    (r = .error .streamShouldHaveDatamap ∧ ∃ stream ∈ upload.streams, stream.dataMapChunk = none) ∨
    ∃ uploaded, r = .ok uploaded ∧ es = [] ∧
      uploaded.dontReupload = upload.dontReupload ∧
      uploaded.failedChunks = upload.failedChunks ∧ uploaded.streams ⊆ upload.streams ∧
      (limit ≠ 0 → ∀ stream ∈ upload.streams, stream.dataMapChunk ≠ none) := by
  induction limit, upload using uploadBatchRemaining.induct client generalizing es with
  | case1 upload =>
    rw [uploadBatchRemaining_stop (.inl rfl)] at h
    obtain ⟨rfl, rfl⟩ := runs_pure.mp h
    exact .inr ⟨upload, rfl, rfl, rfl, rfl, Subset.refl _, fun hzero => absurd rfl hzero⟩
  | case2 limit upload hlimit hnil =>
    rw [uploadBatchRemaining_stop (.inr hnil)] at h
    obtain ⟨rfl, rfl⟩ := runs_pure.mp h
    refine .inr ⟨upload, rfl, rfl, rfl, rfl, Subset.refl _, fun _ stream hstream => ?_⟩
    rw [hnil] at hstream
    cases hstream
  | case3 limit upload hlimit stream streams hstreams batchToGet chunks rest hchunks =>
    rename_i ih
    rw [uploadBatchRemaining_cons hlimit hstreams, if_pos hchunks, nextBatch_noRoom hsize] at h
    have hrest : rest = stream := congrArg Prod.snd (nextBatch_noRoom hsize stream limit)
    rw [hrest] at ih
    rw [hstreams]
    rcases runs_fromExcept_bind_iff.mp h with ⟨err, herr, -, rfl⟩ | ⟨datamap, hmap, h₁⟩
    · obtain ⟨hnone, rfl⟩ := Checks.okOr_eq_error.mp herr
      exact .inl ⟨rfl, stream, mem_cons_self, hnone⟩
    · rcases ih datamap h₁ with ⟨rfl, other, hother, hnone⟩ | hok
      · exact .inl ⟨rfl, other, mem_cons_of_mem _ hother, hnone⟩
      · obtain ⟨uploaded, rfl, hnone, hdont, hfailed, hsub, hmaps⟩ := hok
        refine .inr ⟨uploaded, rfl, hnone, hdont, hfailed, subset_cons_of_subset _ hsub,
          fun hzero => forall_mem_cons.mpr ⟨?_, hmaps hzero⟩⟩
        rw [Checks.okOr_eq_ok.mp hmap]
        exact Option.some_ne_none datamap
  | case4 limit upload hlimit stream streams hstreams batchToGet chunks rest hchunks =>
    refine absurd ?_ hchunks
    exact congrArg (fun batch => batch.1.getD []) (nextBatch_noRoom hsize stream limit)

theorem exists_runs_uploadBatchRemaining_noRoom (receipt : MerklePaymentReceipt) (limit : Nat)
    (upload : MerkleBatchUpload) (hsize : client.uploadFlowBatchSize = 0)
    (hmaps : ∀ stream ∈ upload.streams, stream.dataMapChunk ≠ none) :
    ∃ uploaded, Runs (client.uploadBatchRemaining receipt limit upload) [] (.ok uploaded) ∧
      uploaded.dontReupload = upload.dontReupload ∧
      uploaded.failedChunks = upload.failedChunks ∧
      ∀ stream ∈ uploaded.streams, stream.dataMapChunk ≠ none := by
  obtain ⟨es, r, hrun, -⟩ := exists_runs sampleAnswer
    (client.uploadBatchRemaining receipt limit upload)
  rcases runs_uploadBatchRemaining_noRoom hsize hrun with
    ⟨-, stream, hstream, hnone⟩ | ⟨uploaded, rfl, rfl, hdont, hfailed, hsub, -⟩
  · exact absurd hnone (hmaps stream hstream)
  · exact ⟨uploaded, hrun, hdont, hfailed, fun stream hstream => hmaps stream (hsub hstream)⟩

end NoRoom

theorem runs_uploadBatchRemaining_missing {limit : Nat} {upload : MerkleBatchUpload}
    (h : Runs (client.uploadBatchRemaining receipt limit upload) es
      (.error (.missingPaymentProofFor name))) :
    0 < client.uploadFlowBatchSize ∧ name ∉ receipt.proofs ∧
      Comes upload.dontReupload limit (client.queued upload.streams) name := by
  rcases Nat.eq_zero_or_pos client.uploadFlowBatchSize with hzero | hsize
  · rcases runs_uploadBatchRemaining_noRoom hzero h with ⟨herr, -⟩ | ⟨_, hok, -⟩
    · cases herr
    · cases hok
  · rcases runs_uploadBatchRemaining hsize h with ⟨_, _, hok, -⟩ | ⟨other, herr, hcomes⟩ | herr
    · cases hok
    · cases herr
      exact ⟨hsize, hcomes⟩
    · cases herr

variable {streams : List EncryptionStream}

theorem runs_uploadBatchWithMerkle {limit : Nat} {uploaded : MerkleBatchUpload}
    (h : Runs (client.uploadBatchWithMerkle streams receipt dontReupload limit) es (.ok uploaded)) :
    (∀ name, name ∈ uploaded.dontReupload ↔ name ∈ dontReupload ∨ StoredName client name es) ∧
      ∀ name ∈ client.failedNames uploaded.failedChunks, name ∈ receipt.proofs := by
  rcases Nat.eq_zero_or_pos client.uploadFlowBatchSize with hzero | hsize
  · rcases runs_uploadBatchRemaining_noRoom hzero h with
      ⟨herr, -⟩ | ⟨_, hok, rfl, hdont, hfailed, -⟩
    · cases herr
    · cases hok
      rw [hdont, hfailed]
      exact ⟨by simp, forall_mem_nil _⟩
  · rcases runs_uploadBatchRemaining hsize h with ⟨_, tried, hok, -, htried⟩ | ⟨_, herr, -⟩ | herr
    · cases hok
      exact ⟨htried.exists_iff, fun name hname =>
        htried.proved name ((htried.failed name hname).resolve_left not_mem_nil)⟩
    · cases herr
    · cases herr

/-! ### Uploads that fail at first -/

theorem exists_runs_uploadChunkWithMerkleProof (hput : 0 < client.chunks.putRetry.backoff)
    (chunk : Chunk) (proof : MerklePaymentProof) :
    (∃ es err, Runs (client.uploadChunkWithMerkleProof chunk proof) es (.error err)) ∧
      ∃ es name, Runs (client.uploadChunkWithMerkleProof chunk proof) es (.ok name) := by
  constructor
  · obtain ⟨es, r, hrun, hanswers⟩ := exists_runs
      (fun | .putRecord _ _ _ => .error .networkDriverOffline
           | request => sampleAnswer request) (client.uploadChunkWithMerkleProof chunk proof)
    rcases runs_uploadChunkWithMerkleProof hrun with ⟨-, hstored⟩ | ⟨err, rfl, -⟩
    · -- Nothing is stored where every put fails.
      obtain ⟨e, he, hchunk⟩ := (hstored chunk).mpr rfl
      have hanswer := hanswers e he
      unfold storedChunk at hchunk
      split at hchunk
      · cases hanswer
      · cases hchunk
    · exact ⟨es, err, hrun⟩
  · have hnodes : ∃ es, Runs (storingNodes (.chunkAddress (chunk.name client.crypto))) es
        (.ok []) := by
      refine exists_runs_attempt_bind ⟨_, runs_withRetries_of_ok (by decide)
        (runs_request_bind (x := .ok []) (runs_fromExcept.mpr ⟨rfl, rfl⟩))⟩ ?_
      exact ⟨[], runs_return⟩
    obtain ⟨es, hrun⟩ : ∃ es, Runs (client.uploadRecordWithMerkleProof
        (.chunkAddress (chunk.name client.crypto)) .chunk (.chunk chunk) proof) es (.ok ()) := by
      refine exists_runs_bind hnodes
        (exists_runs_attempt_bind ⟨_, runs_putRecordWithRetries hput⟩ ?_)
      exact ⟨[], runs_return⟩
    exact ⟨es, _, runs_bind_last hrun runs_return⟩

theorem arrange_refl {α : Type} (l : List α) : arrange l (Equiv.refl _) = l := ofFn_get l

theorem exists_runs_runMerkleTasks (client : Client) {Q : Except NetworkError XorName → Prop}
    (h : ∀ chunk proof, ∃ es x, Runs (client.uploadChunkWithMerkleProof chunk proof) es x ∧ Q x)
    (tasks : List (Chunk × MerklePaymentProof)) :
    ∃ es results, Runs (client.runMerkleTasks tasks) es (.ok results) ∧
      ∀ result ∈ results, Q result.2 := by
  have htask : ∀ task ∈ tasks, ∃ part result, Runs (do
      let result ← Fallible.attempt (client.uploadChunkWithMerkleProof task.1 task.2)
      return (task.1, result) : ClientM MerklePutError ChunkResult) part (.ok result) ∧
        Q result.2 ∧ ∀ e ∈ part, True := by
    intro task _
    obtain ⟨part, x, hrun, hQ⟩ := h task.1 task.2
    exact ⟨part, (task.1, x), runs_attempt_bind_iff.mpr
      ⟨part, [], x, (append_nil part).symm, hrun, runs_return⟩, hQ,
      fun _ _ => trivial⟩
  obtain ⟨es, results, hruns, hall, -⟩ := exists_runs_each htask
  refine ⟨_, results, runs_bind_ok hruns (runs_inAnyOrder.mpr
    ⟨Equiv.refl _, rfl, congrArg Except.ok (arrange_refl results).symm⟩), fun result hresult => ?_⟩
  obtain ⟨task, -, hQ⟩ := exists_left_of_forall₂ hall hresult
  exact hQ

variable (hput : 0 < client.chunks.putRetry.backoff)

include hput

variable (tasks : List (Chunk × MerklePaymentProof))

theorem exists_runs_failing :
    ∃ es results, Runs (client.runMerkleTasks tasks) es (.ok results) ∧
      uploadedNames results = ∅ := by
  obtain ⟨es, results, hrun, hall⟩ := exists_runs_runMerkleTasks client
    (Q := fun x => ∃ err, x = .error err) (fun chunk proof => by
      obtain ⟨⟨es, err, hrun⟩, -⟩ := exists_runs_uploadChunkWithMerkleProof hput chunk proof
      exact ⟨es, _, hrun, err, rfl⟩) tasks
  refine ⟨es, results, hrun, Finset.eq_empty_iff_forall_notMem.mpr fun name hname => ?_⟩
  obtain ⟨result, hresult, hok⟩ := mem_uploadedNames.mp hname
  obtain ⟨err, herr⟩ := hall result hresult
  rw [herr] at hok
  cases hok

theorem exists_runs_succeeding :
    ∃ es results, Runs (client.runMerkleTasks tasks) es (.ok results) ∧
      failedChunks results = [] := by
  obtain ⟨es, results, hrun, hall⟩ := exists_runs_runMerkleTasks client
    (Q := fun x => ∃ name, x = .ok name) (fun chunk proof => by
      obtain ⟨-, es, name, hrun⟩ := exists_runs_uploadChunkWithMerkleProof hput chunk proof
      exact ⟨es, _, hrun, name, rfl⟩) tasks
  refine ⟨es, results, hrun, eq_nil_iff_forall_not_mem.mpr fun failed hfailed => ?_⟩
  obtain ⟨name, hok⟩ := hall _ (mem_failedChunks.mp hfailed)
  cases hok

theorem exists_runs_uploadBatchRemaining (hsize : 0 < client.uploadFlowBatchSize)
    (receipt : MerklePaymentReceipt) (limit : Nat) (upload : MerkleBatchUpload)
    (hmaps : ∀ stream ∈ upload.streams, stream.finalDataMap ≠ none) :
    ∃ es r, Runs (client.uploadBatchRemaining receipt limit upload) es r ∧
      ((∃ name, r = .error (.missingPaymentProofFor name)) ∨
        ∃ uploaded, r = .ok uploaded ∧ uploaded.dontReupload = upload.dontReupload ∧
          (∀ name, name ∈ client.failedNames uploaded.failedChunks ↔
            name ∈ client.failedNames upload.failedChunks ∨
            name ∈ ((client.queued upload.streams).filter (· ∉ upload.dontReupload)).take limit) ∧
          (client.queued uploaded.streams).filter (· ∉ upload.dontReupload)
            = ((client.queued upload.streams).filter (· ∉ upload.dontReupload)).drop limit ∧
          ∀ stream ∈ uploaded.streams, stream.finalDataMap ≠ none) := by
  induction limit, upload using uploadBatchRemaining.induct client with
  | case1 upload =>
    rw [uploadBatchRemaining_stop (.inl rfl)]
    refine ⟨[], _, runs_return, .inr ⟨upload, rfl, rfl, ?_, ?_, hmaps⟩⟩
    · simp
    · rfl
  | case2 limit upload hlimit hnil =>
    rw [uploadBatchRemaining_stop (.inr hnil)]
    refine ⟨[], _, runs_return, .inr ⟨upload, rfl, rfl, ?_, ?_, hmaps⟩⟩
    · simp [hnil, queued, names]
    · simp [hnil, queued, names]
  | case3 limit upload hlimit stream streams hstreams batchToGet chunks rest hchunks =>
    rename_i ih
    obtain ⟨hproduced, hdatamap⟩ := nextBatch_eq_nil hsize hlimit hchunks
    rw [hstreams] at hmaps
    obtain ⟨hmap, hmaps⟩ := forall_mem_cons.mp hmaps
    obtain ⟨datamap, hfinal⟩ := Option.ne_none_iff_exists'.mp hmap
    have hqueue : client.queued upload.streams = client.queued streams := by
      rw [hstreams, queued, flatMap_cons, hproduced]
      rfl
    obtain ⟨es, r, hrun, hends⟩ := ih datamap hmaps
    rw [uploadBatchRemaining_cons hlimit hstreams, if_pos hchunks, hqueue]
    exact ⟨es, r, runs_fromExcept_bind_iff.mpr (.inr
      ⟨datamap, Checks.okOr_eq_ok.mpr (hdatamap.trans hfinal), hrun⟩), hends⟩
  | case4 limit upload hlimit stream streams hstreams batchToGet chunks rest hchunks =>
    rename_i ih
    rw [uploadBatchRemaining_cons hlimit hstreams, if_neg hchunks]
    match htasks : client.merkleTasks receipt upload.dontReupload chunks with
    | .error err =>
      obtain ⟨name, -, -, rfl⟩ := merkleTasks_error htasks
      exact ⟨[], _, runs_fromExcept_bind_iff.mpr (.inl ⟨_, rfl, rfl, rfl⟩), .inl ⟨name, rfl⟩⟩
    | .ok tasks =>
      obtain ⟨first, results, hfirst, hnone⟩ := exists_runs_failing hput tasks
      obtain ⟨_, hok, -, hends⟩ := runs_runMerkleTasks hfirst
      cases hok
      obtain ⟨hwindow, -⟩ := merkleTasks_ok htasks
      obtain ⟨hqueue, hroom⟩ := client.queued_nextBatch stream streams limit
      rw [hwindow] at hends
      have hlength := length_of_merkleTasks htasks
      have hfits : tasks.length ≤ limit := by
        rw [hlength]
        exact (length_filter_le _ _).trans hroom
      rw [hstreams] at hmaps
      obtain ⟨hmap, hmaps⟩ := forall_mem_cons.mp hmaps
      obtain ⟨es, r, hrun, hrest⟩ := ih tasks results
        (forall_mem_cons.mpr ⟨(stream.nextBatch_spec batchToGet).2.2 ▸ hmap, hmaps⟩)
      refine ⟨first ++ es, r, runs_fromExcept_bind_iff.mpr (.inr
        ⟨tasks, rfl, runs_bind_ok hfirst hrun⟩), hrest.imp_right fun hok => ?_⟩
      have hsame : (upload.addResults (rest :: streams) results).dontReupload
          = upload.dontReupload := by
        rw [MerkleBatchUpload.addResults, hnone, Finset.union_empty]
      obtain ⟨uploaded, rfl, hdont, hfailed, hleft, hmapsAfter⟩ := hok
      rw [hsame] at hdont hfailed hleft
      rw [hstreams, hqueue, filter_append, take_append, drop_append,
        take_of_length_le (hlength ▸ hfits), drop_of_length_le (hlength ▸ hfits), ← hlength]
      refine ⟨uploaded, rfl, hdont, fun name => ?_, hleft, hmapsAfter⟩
      have hwindowFailed : name ∈ client.failedNames (failedChunks results) ↔
          name ∈ (client.names chunks).filter (· ∉ upload.dontReupload) := by
        rw [hends, hnone]
        exact (or_iff_right (Finset.notMem_empty name)).symm
      rw [hfailed, MerkleBatchUpload.addResults, failedNames_append, mem_append,
        hwindowFailed, mem_append, or_assoc]

theorem exists_runs_retryFailedMerkleChunks {retries : Nat} (hretries : 0 < retries)
    (alreadyExist : Finset XorName)
    (hproved : ∀ name ∈ client.failedNames failed, name ∈ receipt.proofs) :
    ∃ es after,
      Runs (client.retryFailedMerkleChunks receipt retries failed alreadyExist) es
        (.ok ([], after)) ∧
      ∀ name, name ∈ after ↔ name ∈ alreadyExist ∨ name ∈ client.failedNames failed := by
  obtain ⟨es, after, hrun⟩ : ∃ es after,
      Runs (client.retryFailedMerkleChunks receipt retries failed alreadyExist) es
        (.ok ([], after)) := by
    obtain ⟨more, rfl⟩ := Nat.exists_eq_succ_of_ne_zero (Nat.ne_of_gt hretries)
    rw [retryFailedMerkleChunks]
    by_cases hnil : failed = []
    · rw [hnil]
      exact ⟨[], alreadyExist, runs_return⟩
    rw [if_neg hnil]
    match htasks : client.merkleTasks receipt alreadyExist (failed.map Prod.fst) with
    | .error err =>
      obtain ⟨name, hname, hproof, -⟩ := merkleTasks_error htasks
      exact absurd (hproved name (mem_of_mem_filter hname)) hproof
    | .ok tasks =>
      obtain ⟨es, results, hrun, hnone⟩ := exists_runs_succeeding hput tasks
      refine ⟨es, alreadyExist ∪ uploadedNames results, runs_fromExcept_bind
        (runs_bind_last hrun ?_)⟩
      rw [hnone]
      cases more with
      | zero => exact runs_return
      | succ more =>
        exact runs_return
  refine ⟨es, after, hrun, fun name => ?_⟩
  obtain ⟨remaining, _, hok, hafter, hstored, hall⟩ := runs_retryFailedMerkleChunks hproved hrun
  cases hok
  constructor
  · intro hname
    exact ((hafter name).mp hname).imp_right (hstored name)
  · intro hname
    rcases hname with hname | hname
    · exact (hafter name).mpr (.inl hname)
    · exact hall rfl name hname

end Autonomi.Client
