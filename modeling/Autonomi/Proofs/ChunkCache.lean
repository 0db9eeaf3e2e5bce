/-
Chunks by their content, and the cache in between.

A chunk's address is the hash of its content, so a reader can tell by itself whether it
got the right one.  `chunk_get` does not look: it hands on the chunk in the first record
that came in, and writes it to the cache under the address it was asked for, where every
later call finds it.

A session is what happens in one cache directory, from the time it is empty: any number
of calls, finished or cut off anywhere, their cache operations interleaved in any way.
-/
import Autonomi.Proofs.ClientReads

namespace Autonomi.Client

open Lib Lib.Checks Lib.Fallible List

/-! ### The cache directory -/

def ClientRequest.isCacheOp : ClientRequest → Bool
  | .loadChunk _ | .storeChunk _ _ | .deleteChunk _ => true
  | _ => false

abbrev CacheFiles := XorName → Option Bytes

def written : ClientExchange → Option (XorName × Bytes)
  | ⟨.storeChunk address value, outcome⟩ =>
    match (outcome : WriteOutcome) with
    | .written => some (address, value)
    | .failed => none
    | .truncated length => some (address, value.take length)
  | _ => none

theorem written_eq_some {e : ClientExchange} {address : XorName} {content : Bytes}
    (h : written e = some (address, content)) :
    ∃ value, e = ⟨.storeChunk address value, WriteOutcome.written⟩ ∧ content = value ∨
      ∃ length, e = ⟨.storeChunk address value, WriteOutcome.truncated length⟩ ∧
        content = value.take length := by
  obtain ⟨request, response⟩ := e
  cases request with
  | storeChunk a value =>
    cases (response : WriteOutcome) with
    | failed => cases h
    | written =>
      obtain ⟨rfl, rfl⟩ := Prod.mk.inj (Option.some.inj h)
      exact ⟨value, .inl ⟨rfl, rfl⟩⟩
    | truncated length =>
      cases h
      exact ⟨value, .inr ⟨length, rfl, rfl⟩⟩
  | _ => cases h

def CacheFiles.after (files : CacheFiles) : ClientExchange → CacheFiles
  | ⟨.deleteChunk address, removed⟩ =>
    match (removed : Bool) with
    | true => Function.update files address none
    | false => files
  | e =>
    match written e with
    | some (address, content) => Function.update files address (some content)
    | none => files

theorem CacheFiles.after_eq_some {files : CacheFiles} {e : ClientExchange} {address : XorName}
    {content : Bytes} (h : files.after e address = some content) :
    written e = some (address, content) ∨ files address = some content := by
  have hupdate : ∀ (a : XorName) (new : Option Bytes),
      Function.update files a new address = some content →
      (a = address ∧ new = some content) ∨ files address = some content := by
    intro a new hnew
    by_cases ha : address = a
    · subst ha
      rw [Function.update_self] at hnew
      exact .inl ⟨rfl, hnew⟩
    · rw [Function.update_of_ne ha] at hnew
      exact .inr hnew
  obtain ⟨request, response⟩ := e
  cases request with
  | deleteChunk a =>
    cases (response : Bool) with
    | false => exact .inr h
    | true =>
      rcases hupdate a none h with ⟨-, hnone⟩ | hold
      · cases hnone
      · exact .inr hold
  | storeChunk a value =>
    cases (response : WriteOutcome) with
    | failed => exact .inr h
    | written | truncated length =>
      rcases hupdate a _ h with ⟨rfl, hsome⟩ | hold
      · exact .inl (congrArg (fun c => some (a, c)) (Option.some.inj hsome))
      · exact .inr hold
  | _ => exact .inr h

/-- A file that is read is read as it is; reading may also fail. -/
def CacheFiles.Answers (files : CacheFiles) : ClientExchange → Prop
  | ⟨.loadChunk address, answer⟩ => (answer : Option Bytes) = none ∨ answer = files address
  | _ => True

/-- The exchanges happened in this order, from these files on. -/
def Consistent : CacheFiles → List ClientExchange → Prop
  | _, [] => True
  | files, e :: log => files.Answers e ∧ Consistent (files.after e) log

structure ChunkCall where
  address : XorName
  exchanges : List ClientExchange
  result : Except GetError Chunk

/-- Calls that share a cache directory, which was empty at first. -/
structure CacheSession (client : Client) where
  calls : List ChunkCall
  /-- What happened in the directory, in order. -/
  log : List ClientExchange
  runs : ∀ call ∈ calls, Runs (chunkGet client call.address) call.exchanges call.result
  logged : ∀ call ∈ calls, ∀ e ∈ call.exchanges, e.request.isCacheOp = true → e ∈ log
  /-- Only `chunk_get` writes, and it returns right after writing. -/
  stored : ∀ e ∈ log, ∀ address value, e.request = .storeChunk address value →
    ∃ call ∈ calls, e ∈ call.exchanges
  consistent : Consistent (fun _ => none) log

/-! ### One call -/

variable {client : Client} {address : XorName} {es : List ClientExchange} {chunk : Chunk}

theorem chunkFromRecords_eq_ok {records : List Record} :
    chunkFromRecords records = .ok chunk ↔ ∃ record rest, records = record :: rest ∧
      record.value.kind = some (.dataOnly .chunk) ∧ record.value.asChunk = some chunk := by
  cases records with
  | nil => simp [chunkFromRecords]
  | cons record rest =>
    simp only [chunkFromRecords, bind_eq_ok, okOr_eq_ok, List.cons.injEq]
    constructor
    · rintro ⟨kind, hkind, h⟩
      by_cases hchunk : kind = .dataOnly .chunk
      · rw [if_pos hchunk, okOr_eq_ok] at h
        exact ⟨record, rest, ⟨rfl, rfl⟩, hchunk ▸ hkind, h⟩
      · rw [if_neg hchunk] at h
        cases h
    · rintro ⟨record, rest, ⟨rfl, rfl⟩, hkind, h⟩
      exact ⟨_, hkind, by simpa using h⟩

def fetchedChunk : Except NetworkError (Option (List Record)) → Except GetError Chunk
  | .error e => .error (.network e)
  | .ok none => .error .recordNotFound
  | .ok (some records) => chunkFromRecords records

variable {r : Except GetError Chunk}

theorem runs_fetchChunkFromNetwork :
    Runs (fetchChunkFromNetwork client address) es r ↔
      ∃ got, Runs (getRecordWithRetries (.chunkAddress address) client.chunks) es got ∧
        r = fetchedChunk got := by
  have hfetch : client.fetchChunkFromNetwork address = attempt (getRecordWithRetries
      (.chunkAddress address) client.chunks) >>= fun got => fromExcept (fetchedChunk got) := by
    refine bind_congr fun got => ?_
    rcases got with e | (_ | records) <;> rfl
  simp only [hfetch, runs_attempt_bind_iff, runs_fromExcept]
  constructor
  · rintro ⟨first, _, got, rfl, hget, rfl, hr⟩
    exact ⟨got, by simpa using hget, hr⟩
  · rintro ⟨got, hget, hr⟩
    exact ⟨es, [], got, by simp, hget, rfl, hr⟩

theorem runs_tryLoadChunkFromCache {r : Except GetError (Option Chunk)}
    (h : Runs (tryLoadChunkFromCache client address) es r) :
    (es = [] ∧ ∃ message, r = .error (.configuration message)) ∨
    (client.chunkCacheEnabled = true ∧ getChunkCacheDir client = .ok () ∧
      ∃ answer : Option Bytes, es = [⟨.loadChunk address, answer⟩] ∧
        r = .ok (answer.map Chunk.mk)) ∨
    (es = [] ∧ client.chunkCacheEnabled = false ∧ r = .ok none) := by
  unfold tryLoadChunkFromCache at h
  by_cases henabled : client.chunkCacheEnabled = true
  · rw [if_pos henabled] at h
    rcases runs_fromExcept_bind_iff.mp h with ⟨e, he, rfl, rfl⟩ | ⟨_, hdir, hload⟩
    · unfold getChunkCacheDir Checks.reject at he
      split at he
      · cases he
        exact .inl ⟨rfl, _, rfl⟩
      · cases he
    · obtain ⟨answer, rest, rfl, hrest⟩ := runs_request_bind_iff.mp hload
      obtain ⟨rfl, rfl⟩ := runs_pure.mp hrest
      exact .inr (.inl ⟨henabled, hdir, answer, rfl, rfl⟩)
  · rw [if_neg henabled] at h
    obtain ⟨rfl, rfl⟩ := runs_pure.mp h
    exact .inr (.inr ⟨rfl, by simpa using henabled, rfl⟩)

theorem runs_tryCacheChunk {r : Except GetError Unit}
    (hdir : client.chunkCacheEnabled = true → getChunkCacheDir client = .ok ())
    (h : Runs (tryCacheChunk client address chunk) es r) :
    r = .ok () ∧ ∀ e ∈ es, ∃ outcome, e = ⟨.storeChunk address chunk.value, outcome⟩ := by
  unfold tryCacheChunk at h
  by_cases henabled : client.chunkCacheEnabled = true
  · rw [if_pos henabled, hdir henabled] at h
    rcases runs_fromExcept_bind_iff.mp h with ⟨e, he, -, -⟩ | ⟨_, -, hstore⟩
    · cases he
    · obtain ⟨outcome, rest, rfl, hrest⟩ := runs_request_bind_iff.mp hstore
      obtain ⟨rfl, rfl⟩ := runs_pure.mp hrest
      refine ⟨rfl, ?_⟩
      intro e he
      exact ⟨outcome, mem_singleton.mp he⟩
  · rw [if_neg henabled] at h
    obtain ⟨rfl, rfl⟩ := runs_pure.mp h
    exact ⟨rfl, forall_mem_nil _⟩

inductive ChunkGetRun (client : Client) (address : XorName) :
    List ClientExchange → Except GetError Chunk → Prop
  /-- There is no directory for the cache. -/
  | misconfigured (message : String) :
      ChunkGetRun client address [] (.error (.configuration message))
  | hit (value : Bytes) :
      ChunkGetRun client address [⟨.loadChunk address, some value⟩] (.ok ⟨value⟩)
  /-- Looked up in vain or not at all, then fetched, and stored if that can be done. -/
  | fetched {lookup fetch store : List ClientExchange} {r : Except GetError Chunk}
      (hlookup : ∀ e ∈ lookup, e = ⟨.loadChunk address, none⟩)
      (hfetch : Runs (fetchChunkFromNetwork client address) fetch r)
      (hstore : ∀ e ∈ store, ∃ chunk outcome,
        r = .ok chunk ∧ e = ⟨.storeChunk address chunk.value, outcome⟩) :
      ChunkGetRun client address (lookup ++ fetch ++ store) r

theorem chunkGetRun_of_runs (h : Runs (chunkGet client address) es r) :
    ChunkGetRun client address es r := by
  rcases runs_bind.mp h with ⟨e, hload, rfl⟩ | ⟨lookup, rest, cached, rfl, hload, hrest⟩
  · rcases runs_tryLoadChunkFromCache hload with ⟨rfl, message, he⟩ | ⟨_, _, _, _, he⟩ | ⟨_, _, he⟩
    · rw [Except.error.inj he]
      exact .misconfigured message
    · cases he
    · cases he
  cases cached with
  | some chunk =>
    obtain ⟨rfl, rfl⟩ := runs_pure.mp hrest
    rcases runs_tryLoadChunkFromCache hload with ⟨_, _, he⟩ | ⟨_, _, answer, rfl, he⟩ | ⟨_, _, he⟩
    · cases he
    · cases answer with
      | none => cases he
      | some value =>
        cases he
        exact .hit value
    · cases he
  | none =>
    have hlookup : (∀ e ∈ lookup, e = ⟨.loadChunk address, none⟩) ∧
        (client.chunkCacheEnabled = true → getChunkCacheDir client = .ok ()) := by
      rcases runs_tryLoadChunkFromCache hload with
        ⟨_, _, he⟩ | ⟨_, hdir, answer, rfl, he⟩ | ⟨rfl, hdisabled, -⟩
      · cases he
      · cases answer with
        | none => exact ⟨fun e he => mem_singleton.mp he, fun _ => hdir⟩
        | some value => cases he
      · refine ⟨forall_mem_nil _, ?_⟩
        rw [hdisabled]
        exact fun h => absurd h Bool.false_ne_true
    rcases runs_bind.mp hrest with
      ⟨e, hfetch, rfl⟩ | ⟨fetch, store, chunk, rfl, hfetch, hstore⟩
    · rw [← append_nil (_ ++ _)]
      exact .fetched hlookup.1 hfetch fun e he => absurd he not_mem_nil
    · rcases runs_bind.mp hstore with ⟨e, hcache, -⟩ | ⟨write, last, _, rfl, hcache, hlast⟩
      · cases (runs_tryCacheChunk hlookup.2 hcache).1
      · obtain ⟨rfl, rfl⟩ := runs_pure.mp hlast
        rw [append_nil, ← append_assoc]
        refine .fetched hlookup.1 hfetch ?_
        intro e he
        obtain ⟨outcome, rfl⟩ := (runs_tryCacheChunk hlookup.2 hcache).2 e he
        exact ⟨chunk, outcome, rfl, rfl⟩

/-! ### The exchanges with the network -/

/-- What of a call's exchanges went over the network. -/
def networkPart (es : List ClientExchange) : List ClientExchange :=
  es.filter fun e => !e.request.isCacheOp

variable (key : NetworkAddress)

theorem asks_queryPeers (peers : List PeerId) :
    Asks (fun q => q.isCacheOp = false) (queryPeers key peers) := by
  induction peers with
  | nil => exact asks_pure
  | cons peer peers ih =>
    exact asks_bind (asks_request rfl) fun _ =>
      asks_bind ih fun _ => asks_pure

theorem asks_fallback :
    Asks (fun q => q.isCacheOp = false) (fetchRecordsFromClosestPeersFallback key) := by
  refine asks_bind (asks_request rfl) ?_
  rintro (_ | peers)
  · exact asks_pure
  · exact asks_bind (asks_queryPeers key peers) fun _ =>
      asks_bind (asks_bind (asks_request rfl) fun _ =>
        asks_pure) fun _ => asks_pure

theorem asks_getRecordAttempts (quorum : Quorum) (attempts : Nat) :
    Asks (fun q => q.isCacheOp = false) (getRecordAttempts key quorum attempts) := by
  induction attempts with
  | zero => exact asks_fallback key
  | succ attempts ih =>
    refine asks_bind (asks_attempt ?_) ?_
    · exact asks_call_bind rfl fun _ => asks_fromExcept
    · rintro (e | (_ | record))
      · cases e
        case splitRecord holders => exact asks_throw
        all_goals exact asks_ite asks_throw ih
      · exact ih
      · exact asks_pure

theorem runs_getRecordAttempts_ne_nil {key : NetworkAddress} {quorum : Quorum} {attempts : Nat}
    {r : Except NetworkError (Option (List Record))}
    (h : Runs (getRecordAttempts key quorum attempts) es r) : es ≠ [] := by
  cases attempts with
  | zero =>
    obtain ⟨_, _, rfl, -⟩ := runs_request_bind_iff.mp h
    exact cons_ne_nil _ _
  | succ attempts =>
    obtain ⟨first, second, _, rfl, hget, -⟩ := runs_attempt_bind_iff.mp h
    obtain ⟨_, _, rfl, -⟩ := runs_request_bind_iff.mp hget
    exact cons_ne_nil _ _

theorem networkPart_fetched {lookup fetch store : List ClientExchange}
    (hlookup : ∀ e ∈ lookup, e = ⟨.loadChunk address, none⟩)
    (hfetch : Runs (fetchChunkFromNetwork client address) fetch r)
    (hstore : ∀ e ∈ store, ∃ chunk outcome,
      r = .ok chunk ∧ e = ⟨.storeChunk address chunk.value, outcome⟩) :
    networkPart (lookup ++ fetch ++ store) = fetch := by
  have hlookup' : networkPart lookup = [] := by
    refine filter_eq_nil_iff.mpr ?_
    intro e he
    rw [hlookup e he]
    simp [ClientRequest.isCacheOp]
  have hstore' : networkPart store = [] := by
    refine filter_eq_nil_iff.mpr ?_
    intro e he
    obtain ⟨_, _, -, rfl⟩ := hstore e he
    simp [ClientRequest.isCacheOp]
  have hfetch' : networkPart fetch = fetch := by
    obtain ⟨got, hget, -⟩ := runs_fetchChunkFromNetwork.mp hfetch
    refine filter_eq_self.mpr ?_
    intro e he
    rw [asks_runs (asks_getRecordAttempts _ _ _) hget e he]
    rfl
  have happend : networkPart (lookup ++ fetch ++ store)
      = networkPart lookup ++ networkPart fetch ++ networkPart store := by
    simp [networkPart]
  rw [happend, hlookup', hstore', hfetch', nil_append, append_nil]

/-! ### Whole sessions -/

def HashesTo (client : Client) (address : XorName) (content : Bytes) : Prop :=
  client.crypto.fromContent content = address

theorem loaded_hashesTo {log : List ClientExchange}
    (hwritten : ∀ e ∈ log, ∀ address content, written e = some (address, content) →
      HashesTo client address content) :
    ∀ {files : CacheFiles}, Consistent files log →
      (∀ address content, files address = some content → HashesTo client address content) →
      ∀ address value, (⟨.loadChunk address, some value⟩ : ClientExchange) ∈ log →
        HashesTo client address value := by
  induction log with
  | nil => intro files _ _ address value hmem; cases hmem
  | cons e log ih =>
    intro files hconsistent hfiles address value hmem
    obtain ⟨hanswer, hrest⟩ := hconsistent
    rcases mem_cons.mp hmem with rfl | hmem
    · rcases hanswer with hnone | hsome
      · cases hnone
      · exact hfiles address value hsome.symm
    · refine ih (fun e he => hwritten e (mem_cons_of_mem _ he)) hrest ?_ address value hmem
      intro address content hcontent
      rcases CacheFiles.after_eq_some hcontent with hwrite | hold
      · exact hwritten e mem_cons_self address content hwrite
      · exact hfiles address content hold

/-- The chunk in the first record a call was delivered has the call's address. -/
def FirstRecordGenuine (client : Client) (call : ChunkCall) : Prop :=
  ∀ record rest chunk,
    Runs (getRecordWithRetries (.chunkAddress call.address) client.chunks)
      (networkPart call.exchanges) (.ok (some (record :: rest))) →
    record.value.kind = some (.dataOnly .chunk) → record.value.asChunk = some chunk →
    chunk.name client.crypto = call.address

/-- A write that was cut short left a file that has the address all the same. -/
def TruncationGenuine (client : Client) (e : ClientExchange) : Prop :=
  ∀ address value length, e = ⟨.storeChunk address value, WriteOutcome.truncated length⟩ →
    HashesTo client address (value.take length)

theorem FirstRecordGenuine.name_eq {call : ChunkCall} (h : FirstRecordGenuine client call)
    {fetch : List ClientExchange} (hpart : networkPart call.exchanges = fetch)
    (hfetch : Runs (fetchChunkFromNetwork client call.address) fetch (.ok chunk)) :
    chunk.name client.crypto = call.address := by
  obtain ⟨got, hget, hchunk⟩ := runs_fetchChunkFromNetwork.mp hfetch
  rcases got with e | (_ | records)
  · cases hchunk
  · cases hchunk
  · obtain ⟨record, rest, rfl, hkind, hasChunk⟩ := chunkFromRecords_eq_ok.mp hchunk.symm
    exact h record rest chunk (hpart ▸ hget) hkind hasChunk

theorem ChunkGetRun.store_mem (h : ChunkGetRun client address es r) {a : XorName} {value : Bytes}
    {outcome : WriteOutcome} (hmem : (⟨.storeChunk a value, outcome⟩ : ClientExchange) ∈ es) :
    ∃ chunk, a = address ∧ value = chunk.value ∧ r = .ok chunk ∧
      Runs (fetchChunkFromNetwork client address) (networkPart es) (.ok chunk) := by
  cases h with
  | misconfigured message => cases hmem
  | hit value => cases mem_singleton.mp hmem
  | @fetched lookup fetch store r hlookup hfetch hstore =>
    rcases mem_append.mp hmem with hmem | hmem
    · rcases mem_append.mp hmem with hmem | hmem
      · cases hlookup _ hmem
      · obtain ⟨got, hget, -⟩ := runs_fetchChunkFromNetwork.mp hfetch
        cases asks_runs (asks_getRecordAttempts _ _ _) hget _ hmem
    · obtain ⟨chunk, outcome', rfl, heq⟩ := hstore _ hmem
      cases heq
      rw [networkPart_fetched hlookup hfetch hstore]
      exact ⟨chunk, rfl, rfl, rfl, hfetch⟩

/--
**What the cache hands out, and when it is what was asked for.**  In any session, all
chunks returned and all files left in the cache have the hash they go by exactly when
each call was delivered a chunk of its address first, and no write was cut short to
something else.
-/
theorem chunks_genuine_iff (client : Client) (session : CacheSession client) :
    ((∀ call ∈ session.calls, ∀ chunk, call.result = .ok chunk →
        chunk.name client.crypto = call.address) ∧
      (∀ e ∈ session.log, ∀ address content, written e = some (address, content) →
        HashesTo client address content)) ↔
    (∀ call ∈ session.calls, FirstRecordGenuine client call) ∧
      (∀ e ∈ session.log, TruncationGenuine client e) := by
  constructor
  · rintro ⟨hresults, hwrites⟩
    constructor
    · intro call hcall record rest chunk hget hkind hasChunk
      refine hresults call hcall chunk ?_
      have hfetch : ∀ {fetch r}, networkPart call.exchanges = fetch →
          Runs (fetchChunkFromNetwork client call.address) fetch r → r = .ok chunk := by
        intro fetch r hpart hfetch
        obtain ⟨got, hgot, rfl⟩ := runs_fetchChunkFromNetwork.mp hfetch
        obtain rfl := Program.executes_unique (hpart ▸ hget) hgot
        exact chunkFromRecords_eq_ok.mpr ⟨record, rest, rfl, hkind, hasChunk⟩
      have hrun := chunkGetRun_of_runs (session.runs call hcall)
      generalize hes : call.exchanges = es at hrun hget hfetch
      generalize hresult : call.result = r at hrun
      cases hrun with
      | misconfigured message | hit value => exact absurd rfl (runs_getRecordAttempts_ne_nil hget)
      | fetched hlookup hrunFetch hstore =>
        exact hfetch (networkPart_fetched hlookup hrunFetch hstore) hrunFetch
    · rintro e he address value length rfl
      exact hwrites _ he address _ rfl
  · rintro ⟨hfirst, htruncated⟩
    have hwrites : ∀ e ∈ session.log, ∀ address content, written e = some (address, content) →
        HashesTo client address content := by
      intro e he address content hwritten
      obtain ⟨value, ⟨rfl, rfl⟩ | ⟨length, rfl, rfl⟩⟩ := written_eq_some hwritten
      · obtain ⟨call, hcall, hmem⟩ := session.stored _ he address content rfl
        obtain ⟨chunk, rfl, rfl, -, hfetch⟩ :=
          (chunkGetRun_of_runs (session.runs call hcall)).store_mem hmem
        exact (hfirst call hcall).name_eq rfl hfetch
      · exact htruncated _ he address value length rfl
    refine ⟨?_, hwrites⟩
    intro call hcall chunk hresult
    have hrun := chunkGetRun_of_runs (session.runs call hcall)
    have hlogged := session.logged call hcall
    have hgenuine : ∀ fetch, networkPart call.exchanges = fetch →
        Runs (fetchChunkFromNetwork client call.address) fetch (.ok chunk) →
        chunk.name client.crypto = call.address :=
      fun _ hpart hfetch => (hfirst call hcall).name_eq hpart hfetch
    generalize call.exchanges = es at hrun hlogged hgenuine
    rw [hresult] at hrun
    cases hrun with
    | hit value =>
      exact loaded_hashesTo hwrites session.consistent (fun _ _ h => nomatch h) call.address value
        (hlogged _ mem_cons_self rfl)
    | fetched hlookup hfetch hstore =>
      exact hgenuine _ (networkPart_fetched hlookup hfetch hstore) hfetch

/-! ### A wrong chunk that stays -/

def wrongChunk : Chunk := ⟨[1, 2, 3]⟩

def wrongRecord : Record := ⟨[], .ofChunk wrongChunk⟩

variable (address : XorName)

/-- The chunk is fetched and cached for an address that is not its own. -/
def wrongCall : ChunkCall where
  address
  exchanges :=
    [⟨.loadChunk address, none⟩,
      ⟨.getRecord (.chunkAddress address) .one, .ok (agreeing wrongRecord)⟩,
      ⟨.storeChunk address wrongChunk.value, WriteOutcome.written⟩]
  result := .ok wrongChunk

def cachedCall : ChunkCall where
  address
  exchanges := [⟨.loadChunk address, some wrongChunk.value⟩]
  result := .ok wrongChunk

theorem runs_sampleLoad (answer : Option Bytes) :
    Runs (tryLoadChunkFromCache sampleClient address) [⟨.loadChunk address, answer⟩]
      (.ok (answer.map Chunk.mk)) := by
  exact runs_request_bind_iff.mpr ⟨answer, [], rfl, runs_return⟩

theorem runs_wrongCall :
    Runs (chunkGet sampleClient address) (wrongCall address).exchanges (.ok wrongChunk) := by
  have hget : Runs (getRecordWithRetries (.chunkAddress address) sampleClient.chunks) _ _ :=
    runs_getRecordWithRetries_found (by decide)
      (updateGetRecord_agreeing .one (by decide) wrongRecord)
  have hfetch : Runs (fetchChunkFromNetwork sampleClient address) _ (.ok wrongChunk) :=
    runs_fetchChunkFromNetwork.mpr ⟨_, hget, rfl⟩
  have hload := runs_sampleLoad address none
  have hstore : Runs (tryCacheChunk sampleClient address wrongChunk)
      [⟨.storeChunk address wrongChunk.value, WriteOutcome.written⟩] (.ok ()) := by
    exact runs_request_bind_iff.mpr ⟨WriteOutcome.written, [], rfl, runs_return⟩
  exact runs_bind_ok hload (runs_bind_ok hfetch (runs_bind_ok hstore runs_return))

theorem runs_cachedCall :
    Runs (chunkGet sampleClient address) (cachedCall address).exchanges (.ok wrongChunk) :=
  runs_bind_last (runs_sampleLoad address (some wrongChunk.value))
    runs_return

def wrongSession : CacheSession sampleClient where
  calls := [wrongCall address, cachedCall address]
  log :=
    [⟨.loadChunk address, none⟩, ⟨.storeChunk address wrongChunk.value, WriteOutcome.written⟩,
      ⟨.loadChunk address, some wrongChunk.value⟩]
  runs := by
    simp only [forall_mem_cons]
    exact ⟨runs_wrongCall address, runs_cachedCall address, forall_mem_nil _⟩
  logged := by
    simp only [forall_mem_cons, wrongCall, cachedCall]
    simp [ClientRequest.isCacheOp]
  stored := by
    intro e he a value hrequest
    refine ⟨wrongCall address, mem_cons_self, ?_⟩
    simp only [mem_cons, not_mem_nil, or_false] at he
    rcases he with rfl | rfl | rfl
    · cases hrequest
    · simp [wrongCall]
    · cases hrequest
  consistent := by
    refine ⟨.inl rfl, trivial, .inr ?_, trivial⟩
    exact (Function.update_self address (some wrongChunk.value) fun _ => none).symm

/-- One wrong answer is returned and cached, and returned again from the cache. -/
theorem chunks_not_always_genuine :
    ¬ ∀ (client : Client) (session : CacheSession client),
      (∀ call ∈ session.calls, ∀ chunk, call.result = .ok chunk →
        chunk.name client.crypto = call.address) ∧
      (∀ e ∈ session.log, ∀ address content, written e = some (address, content) →
        HashesTo client address content) := by
  intro h
  have hname := (h sampleClient (wrongSession (bytes32 0))).1 (cachedCall (bytes32 0))
    (by simp [wrongSession]) wrongChunk rfl
  revert hname
  decide

end Autonomi.Client
