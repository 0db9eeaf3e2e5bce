/-
What a read returns.

A read resolves the records that were delivered, by counter and by copies, and only then
looks at the signature of the one that is left.
-/
import Autonomi.Client.Reads

namespace Autonomi.Client

open Lib Lib.Checks Lib.Plurality Lib.Fallible List

/-! ### Resolution by leaders -/

section Resolve

variable {T κ ε : Type} [DecidableEq T] [DecidableEq κ]

def itemsOf (deserialize : Record → Except ε T) (records : List Record) : List T :=
  records.filterMap fun record => (deserialize record).toOption

def verdict (forkError : Finset T → ε) (corruptError : ε) : List T → Except ε T
  | [] => .error corruptError
  | [one] => .ok one
  | best => .error (forkError best.toFinset)

variable {deserialize : Record → Except ε T} {counterOf : T → UInt64} {content : T → κ}
  {sameContent : T → T → Bool} {forkError : Finset T → ε} {corruptError : ε}

theorem resolveRecordsFromPeers_eq (records : List Record) :
    resolveRecordsFromPeers deserialize counterOf sameContent forkError corruptError records
      = verdict forkError corruptError
          (leaders sameContent (top (fun t => (counterOf t).toNat) (itemsOf deserialize records))) := by
  unfold resolveRecordsFromPeers
  cases hlast : ((itemsOf deserialize records).mergeSort
      fun a b => (counterOf a).toNat ≤ (counterOf b).toNat).getLast? with
  | none =>
    have hempty : itemsOf deserialize records = [] := by
      have hlength := (mergeSort_perm (itemsOf deserialize records)
        fun a b => decide ((counterOf a).toNat ≤ (counterOf b).toNat)).length_eq
      rw [List.getLast?_eq_none_iff.mp hlast] at hlength
      exact length_eq_zero_iff.mp hlength.symm
    simp only [itemsOf] at hlast hempty
    simp [hempty, itemsOf, top, leaders, tally, verdict]
  | some last =>
    have htop := filter_last_eq_top (fun t => (counterOf t).toNat) hlast
    simp only [itemsOf] at hlast htop
    simp only [hlast, htop, itemsOf]
    rfl

theorem verdict_eq_ok {best : List T} (hnodup : best.Nodup) {x : T} :
    verdict forkError corruptError best = .ok x ↔ ∀ y, y ∈ best ↔ y = x := by
  match best with
  | [] =>
    simp only [verdict, reduceCtorEq, not_mem_nil, false_iff, not_forall]
    exact ⟨x, by simp⟩
  | [one] =>
    simp only [verdict, Except.ok.injEq, mem_singleton]
    constructor
    · rintro rfl y
      exact Iff.rfl
    · intro h
      exact (h one).mp rfl
  | one :: two :: rest =>
    simp only [verdict, reduceCtorEq, false_iff]
    intro h
    have hone := (h one).mp mem_cons_self
    have htwo := (h two).mp (mem_cons_of_mem _ mem_cons_self)
    exact (nodup_cons.mp hnodup).1 (by rw [hone, ← htwo]; exact mem_cons_self)

variable (forkError corruptError) in
theorem verdict_cases {best : List T} (hne : best ≠ []) :
    (∃ x, best = [x] ∧ verdict forkError corruptError best = .ok x) ∨
    (∃ s : Finset T, (∀ y, y ∈ s ↔ y ∈ best) ∧
      verdict forkError corruptError best = .error (forkError s)) := by
  match best with
  | [] => exact absurd rfl hne
  | [one] => exact .inl ⟨one, rfl, rfl⟩
  | one :: two :: rest =>
    exact .inr ⟨(one :: two :: rest).toFinset, fun y => mem_toFinset, rfl⟩

theorem verdict_congr {best best' : List T} (hnodup : best.Nodup) (hnodup' : best'.Nodup)
    (h : ∀ y, y ∈ best ↔ y ∈ best') :
    verdict forkError corruptError best = verdict forkError corruptError best' := by
  have hperm := (perm_ext_iff_of_nodup hnodup hnodup').mpr h
  match best, best', hperm.length_eq with
  | [], [], _ => rfl
  | [one], [one'], _ =>
    obtain rfl := mem_singleton.mp ((h one).mp mem_cons_self)
    rfl
  | one :: two :: rest, one' :: two' :: rest', _ =>
    have hset : (one :: two :: rest).toFinset = (one' :: two' :: rest').toFinset :=
      toFinset_eq_of_perm _ _ hperm
    simp only [verdict, hset]

section Leaders

variable (hsame : ∀ a b, sameContent a b = true ↔ content a = content b)
include hsame

variable (content) in
theorem resolveRecordsFromPeers_eq_ok {records : List Record} {x : T} :
    resolveRecordsFromPeers deserialize counterOf sameContent forkError corruptError records = .ok x
      ↔ LeadsAlone (fun t => (counterOf t).toNat) content (itemsOf deserialize records) x := by
  rw [resolveRecordsFromPeers_eq, verdict_eq_ok (nodup_leaders hsame _)]
  simp only [mem_leaders hsame, LeadsAlone, Plurality.Leads]

omit [DecidableEq T] in
theorem mem_leaders_top {items : List T} {x : T} :
    x ∈ leaders sameContent (top (fun t => (counterOf t).toNat) items) ↔
      Leads (fun t => (counterOf t).toNat) content items x :=
  mem_leaders hsame

end Leaders

end Resolve

/-! ### A read is the resolution of what was delivered -/

def deliveredRecords (key : NetworkAddress) (strategy : Strategy) :
    ClientM NetworkError (Option (List Record)) := do
  match ← attempt (getRecordWithRetries key strategy) with
  | .ok found => return found
  | .error (.splitRecord holders) => do
    let records ← inAnyOrder (holders.map Prod.snd)
    return some records
  | .error e => throw e

def resolveAndVerify {T ε : Type} (resolve : List Record → Except ε T)
    (verify : T → Except ε Unit) (records : List Record) : Except ε T := do
  let item ← resolve records
  verify item
  return item

variable {records : List Record}

theorem resolveAndVerify_eq_ok {T ε : Type} {resolve : List Record → Except ε T}
    {verify : T → Except ε Unit} {x : T} :
    resolveAndVerify resolve verify records = .ok x ↔
      resolve records = .ok x ∧ verify x = .ok () := by
  simp only [resolveAndVerify, bind_eq_ok, pure, Except.pure, Except.ok.injEq]
  constructor
  · rintro ⟨item, hitem, ⟨⟩, hverify, rfl⟩
    exact ⟨hitem, hverify⟩
  · rintro ⟨hitem, hverify⟩
    exact ⟨x, hitem, (), hverify, rfl⟩

section Reads

variable {T ε : Type} {key : NetworkAddress} {strategy : Strategy}
  {resolve : List Record → Except ε T} {notFound : ε} {networkError : NetworkError → ε}
  {verify : T → Except ε Unit} {es : List ClientExchange} {r : Except ε T}

def readOutcome (resolve : List Record → Except ε T) (notFound : ε)
    (networkError : NetworkError → ε) (verify : T → Except ε Unit) :
    Except NetworkError (Option (List Record)) → Except ε T
  | .ok (some records) => resolveAndVerify resolve verify records
  | .ok none => .error notFound
  | .error e => .error (networkError e)

theorem runs_getResolved :
    Runs (getResolved key strategy resolve notFound networkError verify) es r ↔
      ∃ got, Runs (deliveredRecords key strategy) es got ∧
        r = readOutcome resolve notFound networkError verify got := by
  -- after the records are there, nothing is asked any more
  have hresolve : ∀ records, (fromExcept (resolve records) >>= fun item =>
        fromExcept (verify item) >>= fun _ => pure item : ClientM ε T)
      = fromExcept (resolveAndVerify resolve verify records) := by
    intro records
    have hverify : ∀ item, (fromExcept (verify item) >>= fun _ => pure item : ClientM ε T)
        = fromExcept (verify item >>= fun _ => pure item) := fun item =>
      fromExcept_bind (verify item) fun _ => Except.ok item
    rw [funext hverify, fromExcept_bind]
    rfl
  simp only [getResolved, deliveredRecords, hresolve]
  refine runs_attempt_bind_iff_exists fun x second => ?_
  rcases x with e | (_ | records)
  · cases e with
    | splitRecord holders =>
      simp only [runs_inAnyOrder_bind_iff, runs_fromExcept, runs_pure]
      constructor
      · rintro ⟨order, _, rfl, rfl, rfl⟩
        exact ⟨_, ⟨order, _, rfl, rfl, rfl⟩, rfl⟩
      · rintro ⟨_, ⟨order, _, rfl, rfl, rfl⟩, rfl⟩
        exact ⟨order, _, rfl, rfl, rfl⟩
    | _ => exact runs_throw.trans (by simp [runs_throw, readOutcome, and_assoc])
  · exact runs_throw.trans (by simp [runs_pure, readOutcome, and_assoc])
  · simp [runs_fromExcept, runs_pure, readOutcome, and_assoc]

theorem runs_getResolved_delivered {records : List Record}
    (h : Runs (deliveredRecords key strategy) es (.ok (some records))) :
    Runs (getResolved key strategy resolve notFound networkError verify) es r ↔
      r = resolveAndVerify resolve verify records := by
  rw [runs_getResolved]
  constructor
  · rintro ⟨got, hgot, rfl⟩
    obtain rfl := Program.executes_unique h hgot
    rfl
  · rintro rfl
    exact ⟨_, h, rfl⟩

theorem runs_getResolved_ok {x : T} :
    Runs (getResolved key strategy resolve notFound networkError verify) es (.ok x) ↔
      ∃ records, Runs (deliveredRecords key strategy) es (.ok (some records)) ∧
        resolveAndVerify resolve verify records = .ok x := by
  rw [runs_getResolved]
  constructor
  · rintro ⟨got, hgot, hx⟩
    rcases got with e | (_ | records)
    · cases hx
    · cases hx
    · exact ⟨records, hgot, hx.symm⟩
  · rintro ⟨records, hgot, hx⟩
    exact ⟨_, hgot, hx.symm⟩

end Reads

/-! ### The items of each type -/

def pointersIn (records : List Record) : List Pointer := itemsOf pointerFromRecord records

/-- The scratchpads among the records, whatever kind the header names. -/
def scratchpadsIn (records : List Record) : List Scratchpad :=
  records.filterMap fun record => record.value.asScratchpad

def scratchpadContent (s : Scratchpad) : UInt64 × Bytes := (s.dataEncoding, s.encryptedData)

/-- Who leads among pointers: equal pointers are copies of each other. -/
abbrev LeadsPointers := Leads (fun p : Pointer => p.counter.toNat) id

/-- Who leads among scratchpads: copies agree in encoding and data only. -/
abbrev LeadsScratchpads := Leads (fun s : Scratchpad => s.counter.toNat) scratchpadContent

theorem itemsOf_scratchpadFromRecord (owner : PublicKey) (records : List Record) :
    itemsOf (scratchpadFromRecord owner) records = scratchpadsIn records := by
  simp [itemsOf, scratchpadsIn, scratchpadFromRecord]

theorem resolvePointers_eq_ok {x : Pointer} :
    resolvePointers records = .ok x ↔
      LeadsAlone (fun p : Pointer => p.counter.toNat) id (pointersIn records) x :=
  resolveRecordsFromPeers_eq_ok id (by simp)

theorem resolveScratchpads_eq_ok {owner : PublicKey} {x : Scratchpad} :
    resolveScratchpads owner records = .ok x ↔
      LeadsAlone (fun s : Scratchpad => s.counter.toNat) scratchpadContent
        (scratchpadsIn records) x := by
  rw [resolveScratchpads, resolveRecordsFromPeers_eq_ok scratchpadContent
    (by simp [scratchpadContent]), itemsOf_scratchpadFromRecord]

/-! ### When a read succeeds -/

variable {client : Client} {owner : PublicKey} {es : List ClientExchange}

theorem runs_pointerGet_ok {x : Pointer} :
    Runs (pointerGet client owner) es (.ok x) ↔ ∃ records,
      Runs (deliveredRecords (.pointerAddress owner) client.pointer) es (.ok (some records)) ∧
      LeadsAlone (fun p : Pointer => p.counter.toNat) id (pointersIn records) x ∧
      x.verifySignature client.crypto client.rmpTarget = true := by
  rw [pointerGet, runs_getResolved_ok]
  simp [resolveAndVerify_eq_ok, resolvePointers_eq_ok, pointerVerify]

theorem runs_scratchpadGet_ok {x : Scratchpad} :
    Runs (scratchpadGet client owner) es (.ok x) ↔ ∃ records,
      Runs (deliveredRecords (.scratchpadAddress owner) client.scratchpad) es
        (.ok (some records)) ∧
      LeadsAlone (fun s : Scratchpad => s.counter.toNat) scratchpadContent
        (scratchpadsIn records) x ∧
      x.verifySignature client.crypto = true ∧
      x.isTooBig client.scratchpadStructSize = false := by
  rw [scratchpadGet, runs_getResolved_ok]
  simp [resolveAndVerify_eq_ok, resolveScratchpads_eq_ok, scratchpadVerify]

theorem resolveEntries_eq_ok {entries : List GraphEntry} {x : GraphEntry} :
    resolveEntries entries = .ok x ↔ ∀ y, Wins id entries y ↔ y = x := by
  have hsame : ∀ a b : GraphEntry, decide (a = b) = true ↔ id a = id b := by simp
  have hverdict : resolveEntries entries = .ok x ↔
      verdict (fun _ => GraphError.serialization) (.getError .recordNotFound)
        (leaders (fun a b => decide (a = b)) entries) = .ok x := by
    unfold resolveEntries verdict
    rcases leaders (fun a b => decide (a = b)) entries with _ | ⟨one, _ | ⟨two, rest⟩⟩ <;> simp
  rw [hverdict, verdict_eq_ok (nodup_leaders hsame _)]
  simp only [mem_leaders hsame]

/-- If there are entries, one of them is chosen or some of them are a fork. -/
theorem resolveEntries_cases {entries : List GraphEntry} (hne : entries ≠ []) :
    (∃ entry ∈ entries, resolveEntries entries = .ok entry) ∨
      ∃ fork, fork ≠ [] ∧ fork ⊆ entries ∧ resolveEntries entries = .error (.fork fork) := by
  have hsame : ∀ a b : GraphEntry, decide (a = b) = true ↔ id a = id b := by simp
  have hmem : ∀ x, x ∈ leaders (fun a b => decide (a = b)) entries ↔ Wins id entries x :=
    fun _ => mem_leaders hsame
  obtain ⟨winner, hwinner⟩ := exists_wins id hne
  unfold resolveEntries
  generalize leaders (fun a b => decide (a = b)) entries = best at hmem
  rcases best with _ | ⟨one, _ | ⟨two, rest⟩⟩
  · exact absurd ((hmem winner).mpr hwinner) not_mem_nil
  · have hone := (hmem one).mp mem_cons_self
    exact .inl ⟨one, (mem_of_firstLike hone.1).1, rfl⟩
  · refine .inr ⟨one :: two :: rest, cons_ne_nil _ _, fun x hx => ?_, rfl⟩
    exact (mem_of_firstLike ((hmem x).mp hx).1).1

theorem runs_graphEntryGet_ok {x : GraphEntry} :
    Runs (graphEntryGet client owner) es (.ok x) ↔ ∃ records,
      Runs (getRecordWithRetries (.graphEntryAddress owner) client.graphEntry) es
        (.ok (some records)) ∧
      ∀ y, Wins id (allEntries records) y ↔ y = x := by
  simp only [graphEntryGet, runs_attempt_bind_iff, ← resolveEntries_eq_ok]
  constructor
  · rintro ⟨first, second, got, rfl, hget, hrest⟩
    rcases got with e | (_ | records)
    · exact absurd (runs_throw.mp hrest).2 (by simp)
    · exact absurd (runs_throw.mp hrest).2 (by simp)
    · obtain ⟨rfl, hx⟩ := runs_fromExcept.mp hrest
      exact ⟨records, by simpa using hget, hx.symm⟩
  · rintro ⟨records, hget, hx⟩
    exact ⟨es, [], _, by simp, hget, runs_fromExcept.mpr ⟨rfl, hx.symm⟩⟩

/-! ### Who a result belongs to -/

variable {address : NetworkAddress}

theorem runs_getRecord {quorum : Quorum} (query : KadQuery) :
    Runs (getRecord address quorum) [⟨.getRecord address quorum, .ok query⟩]
      (updateGetRecord quorum query.finish query.found []) :=
  runs_request_bind (runs_fromExcept_bind
    (runs_fromExcept.mpr ⟨rfl, rfl⟩))

variable {record : Record}

theorem runs_getRecordWithRetries_found {strategy : Strategy} {query : KadQuery}
    (hattempts : 0 < strategy.getRetry.backoff)
    (h : updateGetRecord strategy.getQuorum query.finish query.found [] = .ok (some record)) :
    Runs (getRecordWithRetries address strategy)
      [⟨.getRecord address strategy.getQuorum, .ok query⟩] (.ok (some [record])) := by
  obtain ⟨attempts, hattempts⟩ := Nat.exists_eq_succ_of_ne_zero (Nat.pos_iff_ne_zero.mp hattempts)
  rw [getRecordWithRetries, hattempts, getRecordAttempts, runs_attempt_bind_iff]
  exact ⟨_, [], _, rfl, h ▸ runs_getRecord query, runs_return⟩

theorem runs_deliveredRecords_found {strategy : Strategy} {found : Option (List Record)}
    (h : Runs (getRecordWithRetries address strategy) es (.ok found)) :
    Runs (deliveredRecords address strategy) es (.ok found) :=
  runs_attempt_bind_iff.mpr
    ⟨es, [], _, by simp, h, runs_return⟩

/-! ### A query whose peers agree -/

theorem getMaxContentHoldersCount_unanimous {holders : Holders} (hne : holders ≠ [])
    (hall : ∀ holder ∈ holders, holder.2 = record) :
    getMaxContentHoldersCount holders = some holders.length := by
  have hcounts : (holders.map fun holder => holders.countP fun other =>
      other.2.value = holder.2.value) = List.replicate holders.length holders.length := by
    refine eq_replicate_iff.mpr ⟨length_map _, fun count hcount => ?_⟩
    obtain ⟨holder, hholder, rfl⟩ := mem_map.mp hcount
    refine countP_eq_length.mpr fun other hother => ?_
    rw [hall other hother, hall holder hholder]
    exact decide_eq_true rfl
  rw [getMaxContentHoldersCount, hcounts, List.max?_replicate_of_pos (length_pos_iff.mpr hne)]

theorem updateGetRecord_unanimous {quorum : Quorum} {finish : KadEnd} :
    ∀ (peers : List PeerId) (holders : Holders), (holders.map Prod.fst ++ peers).Nodup →
      (∀ holder ∈ holders, holder.2 = record) → holders.length < quorum.amount →
      quorum.amount ≤ holders.length + peers.length →
      updateGetRecord quorum finish (peers.map fun peer => (some peer, record)) holders
        = .ok (some record) := by
  intro peers
  induction peers with
  | nil =>
    intro holders _ _ hfew henough
    exact absurd henough (Nat.not_le_of_lt hfew)
  | cons peer peers ih =>
    intro holders hnodup hall hfew henough
    have hnew : peer ∉ holders.map Prod.fst := fun hmem =>
      disjoint_of_nodup_append hnodup hmem mem_cons_self
    have hinsert : holders.insert peer record = holders ++ [(peer, record)] := by
      rw [Holders.insert, filter_eq_self.mpr]
      intro holder hholder
      exact decide_eq_true fun heq => hnew (heq ▸ mem_map_of_mem hholder)
    have hall' : ∀ holder ∈ holders ++ [(peer, record)], holder.2 = record := by
      intro holder hholder
      rcases mem_append.mp hholder with hholder | hholder
      · exact hall holder hholder
      · rw [mem_singleton.mp hholder]
    have hcount := getMaxContentHoldersCount_unanimous (by simp) hall'
    have hlength : (holders ++ [(peer, record)]).length = holders.length + 1 := length_append
    rw [map_cons, updateGetRecord]
    simp only [hinsert, hcount, Option.any_some, decide_eq_true_eq]
    by_cases hquorum : quorum.amount ≤ (holders ++ [(peer, record)]).length
    · -- the quorum is reached, and there is one record among the holders
      have hone : ((holders ++ [(peer, record)]).map Prod.snd).dedup = [record] := by
        have hsame : (holders ++ [(peer, record)]).map Prod.snd
            = List.replicate (holders.length + 1) record := by
          refine eq_replicate_iff.mpr ⟨by simp, fun r hr => ?_⟩
          obtain ⟨holder, hholder, rfl⟩ := mem_map.mp hr
          exact hall' holder hholder
        rw [hsame, replicate_dedup (Nat.succ_ne_zero _)]
      rw [if_pos hquorum, sendGetRecordResult, if_neg (Nat.not_lt_of_le hquorum), hone]
    · rw [if_neg hquorum]
      refine ih _ ?_ hall' (not_le.mp hquorum) ?_
      · simpa using hnodup
      · simp only [length_cons] at henough
        omega

/-- A key, and a signature that verifies under it. -/
def sampleKey (n : UInt8) : PublicKey := Vector.replicate 48 n

def sampleSignature (n : UInt8) : Signature := Vector.replicate 96 n

def agreeing (record : Record) : KadQuery where
  found := [(some [1], record), (some [2], record), (some [3], record)]
  finish := .finishedWithNoAdditionalRecord

theorem updateGetRecord_agreeing (quorum : Quorum) (h : quorum.amount ≤ 3) (record : Record) :
    updateGetRecord quorum (agreeing record).finish (agreeing record).found []
      = .ok (some record) :=
  updateGetRecord_unanimous [[1], [2], [3]] [] (by simp) (forall_mem_nil _) quorum.amount_pos h

end Autonomi.Client
