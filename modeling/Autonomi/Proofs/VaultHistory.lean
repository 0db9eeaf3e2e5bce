/-
Whose commitments the node reads back.

Over any history the contract logs at most one payment per pool hash: a call that goes
through finds no payment under its hash and leaves one there, and nothing ever takes it
away again.

What is decoded equals the recorded call's argument when the input says so, as it does
for a transaction that calls the contract directly; the contract never sees the input of
a transaction that reaches it through another contract, and neither does the handler
check it.
-/
import Autonomi.Evm.VaultHandler
import Autonomi.Proofs.CostUnits

namespace Autonomi

open Lib Lib.Checks MerklePaymentVault List

variable {c : Crypto} {ln : Int → Option Int}

/-! ### At most one payment per pool hash -/

/-- Every logged payment is still recorded, and no hash is logged twice. -/
structure Recorded (acc : State × List Log) : Prop where
  kept : ∀ log ∈ acc.2, (acc.1 log.event.winnerPoolHash).depth ≠ 0
  once : (acc.2.map fun log => log.event.winnerPoolHash).Nodup

theorem execute_records {call : VaultCall} {env : Env} {s s' : State} {event : MerklePaymentMade}
    (h : call.execute c ln env s = .ok (s', event)) :
    (s event.winnerPoolHash).depth = 0 ∧ (s' event.winnerPoolHash).depth ≠ 0 ∧
      ∀ hash, hash ≠ event.winnerPoolHash → s' hash = s hash := by
  cases call with
  | payForMerkleTree depth pools ts | payForMerkleTree2 depth pools ts =>
    have hrec := payWith_records h
    exact ⟨hrec.fresh, hrec.paid, hrec.frame⟩

theorem runCall_recorded {tx : Transaction} {acc : State × List Log} {call : Env × VaultCall}
    (hacc : Recorded acc) : Recorded (runCall c ln tx acc call) := by
  unfold runCall
  split
  · rename_i s event hexec
    obtain ⟨hfresh, hpaid, hframe⟩ := execute_records hexec
    -- The hash just paid for was not logged before: what is logged has a payment.
    have hnew : ∀ log ∈ acc.2, log.event.winnerPoolHash ≠ event.winnerPoolHash := by
      intro log hlog heq
      exact hacc.kept log hlog (by rw [heq]; exact hfresh)
    refine ⟨?_, ?_⟩
    · intro log hlog
      rcases mem_append.mp hlog with hold | hlast
      · show (s log.event.winnerPoolHash).depth ≠ 0
        rw [hframe _ (hnew log hold)]
        exact hacc.kept log hold
      · rw [mem_singleton.mp hlast]
        exact hpaid
    · rw [map_append, nodup_append]
      refine ⟨hacc.once, nodup_singleton _, ?_⟩
      intro hash hold hash' hlast
      obtain ⟨log, hlog, rfl⟩ := mem_map.mp hold
      rw [mem_singleton.mp hlast]
      exact hnew log hlog
  · exact hacc

theorem runTransaction_recorded {tx : Transaction} {acc : State × List Log}
    (hacc : Recorded acc) : Recorded (runTransaction c ln acc tx) :=
  List.foldlRecOn tx.calls (runCall c ln tx) hacc fun _ hb _ _ => runCall_recorded hb

/-- **No history pays for a pool hash twice.** -/
theorem runHistory_recorded (txs : List Transaction) : Recorded (runHistory c ln txs) := by
  refine List.foldlRecOn txs (runTransaction c ln) ⟨?_, nodup_nil⟩ fun _ hb _ _ =>
    runTransaction_recorded hb
  intro log hlog
  cases hlog

theorem log_unique {chain : Chain} {log log' : Log} (h : log ∈ chain.logs c ln)
    (h' : log' ∈ chain.logs c ln) (heq : log.event.winnerPoolHash = log'.event.winnerPoolHash) :
    log = log' :=
  inj_on_of_nodup_map (runHistory_recorded chain.transactions).once h h' heq

/-- **A recorded payment stands for good**, whatever transactions follow. -/
theorem payment_stands (txs later : List Transaction) (hash : PoolHash) :
    ((runHistory c ln txs).1 hash).depth = 0 ∨
      (runHistory c ln (txs ++ later)).1 hash = (runHistory c ln txs).1 hash := by
  simp only [or_iff_not_imp_left, runHistory, foldl_append]
  generalize foldl (runTransaction c ln) (State.init, []) txs = start
  intro hpaid
  show _ ∈ {acc : State × List Log | acc.1 hash = start.1 hash}
  refine foldlRecOn later _ rfl fun _ hacc tx _ => foldlRecOn tx.calls _ hacc fun acc hacc _ _ => ?_
  unfold runCall
  split
  · rename_i hexec
    -- A call that goes through finds nothing under its hash.
    obtain ⟨hfresh, -, hframe⟩ := execute_records hexec
    refine (hframe hash ?_).trans hacc
    rintro rfl
    exact hpaid (hacc ▸ hfresh)
  · exact hacc

/-! ### What the handler returns -/

/-- The commitments `pools` are the argument of the packed call that recorded the payment. -/
def Chain.ExecutedWith (chain : Chain) (c : Crypto) (ln : Int → Option Int)
    (winnerPoolHash : PoolHash) (pools : List PoolCommitmentPacked) : Prop :=
  ∃ log ∈ chain.logs c ln, log.event.winnerPoolHash = winnerPoolHash ∧
    log.call.packedCommitments = some pools

/-- The recording event lies in the blocks the handler asks for. -/
def Chain.InLookback (chain : Chain) (nowUnix : Nat) (ts : UInt64) (log : Log) : Prop :=
  chain.currentBlock - lookback nowUnix ts.toNat ≤ log.blockNumber ∧
    log.blockNumber ≤ chain.currentBlock

variable {abiDecode : Bytes → Except String (UInt8 × List PoolCommitmentPacked × UInt64)}

private theorem find?_eq_some_of_unique {α : Type} {l : List α} {test : α → Bool} {a : α}
    (hmem : a ∈ l) (htest : test a = true) (hunique : ∀ b ∈ l, test b = true → b = a) :
    l.find? test = some a := by
  cases hfind : l.find? test with
  | none => exact absurd htest (List.find?_eq_none.mp hfind a hmem)
  | some b =>
    rw [hunique b (mem_of_find?_eq_some hfind) (List.find?_some hfind)]

/-- The handler returns the decoded input of the transaction behind the one event. -/
theorem getPaymentPackedCommitments_ok {chain : Chain} {nowUnix : Nat} {hash : PoolHash}
    {ts : UInt64} {pools : List PoolCommitmentPacked} :
    getPaymentPackedCommitments abiDecode (chain.provider c ln) nowUnix hash ts = .ok pools ↔
      ∃ log ∈ chain.logs c ln, log.event.winnerPoolHash = hash ∧
        chain.InLookback nowUnix ts log ∧
        ∃ tx ∈ chain.transactions, log.transactionHash = some tx.hash ∧
          ∃ depth ts', abiDecode tx.input = .ok (depth, pools, ts') := by
  simp only [getPaymentPackedCommitments, Chain.provider, bind_eq_ok, mapError_eq_ok, okOr_eq_ok,
    Except.ok.injEq, exists_eq_left', List.head?_filter]
  constructor
  · intro h
    obtain ⟨log, hlog, txHash, hhash, tx, htx, decoded, hdecoded, hpools⟩ := h
    have hlogTest := List.find?_some hlog
    have htxTest := List.find?_some htx
    simp only [decide_eq_true_eq] at hlogTest htxTest
    refine ⟨log, mem_of_find?_eq_some hlog, hlogTest.1, hlogTest.2, tx,
      mem_of_find?_eq_some htx, ?_, decoded.1, decoded.2.2, ?_⟩
    · rw [hhash, htxTest]
    · rw [hdecoded, ← Except.ok.inj hpools]
  · intro h
    obtain ⟨log, hmem, hhash, hrange, tx, htx, htxHash, depth, ts', hdecoded⟩ := h
    refine ⟨log, ?_, tx.hash, htxHash, tx, ?_, _, hdecoded, rfl⟩
    · refine find?_eq_some_of_unique hmem (decide_eq_true ⟨hhash, hrange⟩) ?_
      intro log' hmem' htest
      exact log_unique hmem' hmem ((of_decide_eq_true htest).1.trans hhash.symm)
    · refine find?_eq_some_of_unique htx (decide_eq_true rfl) ?_
      intro tx' hmem' htest
      exact inj_on_of_nodup_map chain.hashes_nodup hmem' htx (of_decide_eq_true htest)

/--
**What is read back is what was executed exactly when the input says so.**  For
every history, pool hash and time of asking: the handler returns nothing but the
argument of the recording `payForMerkleTree2` call iff, where the recording event is
within the lookback, the input of its transaction either does not decode as such a
call or decodes to the commitments that call was executed with.
-/
theorem commitments_executed_iff (c : Crypto) (ln : Int → Option Int)
    (abiDecode : Bytes → Except String (UInt8 × List PoolCommitmentPacked × UInt64))
    (chain : Chain) (nowUnix : Nat) (hash : PoolHash) (ts : UInt64) :
    (∀ pools,
      getPaymentPackedCommitments abiDecode (chain.provider c ln) nowUnix hash ts = .ok pools →
        chain.ExecutedWith c ln hash pools) ↔
      ∀ log ∈ chain.logs c ln, log.event.winnerPoolHash = hash →
        chain.InLookback nowUnix ts log →
        ∀ tx ∈ chain.transactions, log.transactionHash = some tx.hash →
          ∀ depth pools ts', abiDecode tx.input = .ok (depth, pools, ts') →
            log.call.packedCommitments = some pools := by
  constructor
  · intro hexecuted log hlog hhash hrange tx htx htxHash depth pools ts' hdecoded
    obtain ⟨log', hlog', hhash', hcall⟩ := hexecuted pools (getPaymentPackedCommitments_ok.mpr
        ⟨log, hlog, hhash, hrange, tx, htx, htxHash, depth, ts', hdecoded⟩)
    rw [log_unique hlog hlog' (hhash.trans hhash'.symm)]
    exact hcall
  · intro hinput pools hreturned
    obtain ⟨log, hlog, hhash, hrange, tx, htx, htxHash, depth, ts', hdecoded⟩ :=
      getPaymentPackedCommitments_ok.mp hreturned
    exact ⟨log, hlog, hhash, hinput log hlog hhash hrange tx htx htxHash depth pools ts' hdecoded⟩

/-! ### At the sample payment -/

/-- The sample payment, made through a contract that was called with other commitments. -/
def Sample.relayed : Transaction where
  hash := bytes32 77
  blockNumber := 10
  input := [1]
  calls := [(Sample.env, .payForMerkleTree2 1
    [Sample.commitment Sample.word, Sample.commitment 1] Sample.timestamp)]

/-- The input of the relayed transaction reads as a call with the honest words throughout. -/
def Sample.decodeInput (input : Bytes) :
    Except String (UInt8 × List PoolCommitmentPacked × UInt64) :=
  if input = [1] then
    .ok (1, [Sample.commitment Sample.word, Sample.commitment Sample.word], Sample.timestamp)
  else .error "type check failed"

def Sample.chain : Chain where
  transactions := [Sample.relayed]
  currentBlock := 12
  hashes_nodup := by simp

def Sample.paidLog : Log where
  event := Sample.paidEvent
  transactionHash := some (bytes32 77)
  blockNumber := 10
  call := .payForMerkleTree2 1 [Sample.commitment Sample.word, Sample.commitment 1] Sample.timestamp

open Sample

private theorem sample_logs :
    chain.logs Crypto.simple (fun _ => none) = [paidLog] := by
  obtain ⟨s', hpaid, -⟩ := sample_paid 1 (.inr rfl)
  have hcall : runCall Crypto.simple (fun _ => none) relayed (State.init, [])
      (env, paidLog.call) = (s', [paidLog]) := by
    unfold runCall
    simp only [paidLog, VaultCall.execute]
    rw [hpaid]
    rfl
  simp only [Chain.logs, runHistory, chain, foldl_cons, foldl_nil]
  unfold runTransaction
  rw [show relayed.calls = [(env, paidLog.call)] from rfl, foldl_cons, foldl_nil, hcall]

/--
The commitments read back need not be those that were executed: the outer calldata
of a relayed payment is the relaying caller's to choose.
-/
theorem commitments_not_always_executed :
    ¬ ∀ (c : Crypto) (ln : Int → Option Int)
        (abiDecode : Bytes → Except String (UInt8 × List PoolCommitmentPacked × UInt64))
        (chain : Chain) (nowUnix : Nat) (hash : PoolHash) (ts : UInt64)
        (pools : List PoolCommitmentPacked),
      getPaymentPackedCommitments abiDecode (chain.provider c ln) nowUnix hash ts = .ok pools →
        chain.ExecutedWith c ln hash pools := by
  intro hclaim
  have hreturned : getPaymentPackedCommitments decodeInput
      (chain.provider Crypto.simple fun _ => none) 1700000100
      paidEvent.winnerPoolHash timestamp
      = .ok [commitment word, commitment word] := by
    refine getPaymentPackedCommitments_ok.mpr ⟨paidLog, ?_, rfl, ?_, relayed, ?_, rfl,
      1, timestamp, rfl⟩
    · rw [sample_logs]
      exact mem_singleton_self _
    · exact ⟨by decide, by decide⟩
    · exact mem_singleton_self _
  obtain ⟨log, hlog, -, hcall⟩ := hclaim _ _ _ _ _ _ _ _ hreturned
  rw [sample_logs] at hlog
  rw [mem_singleton.mp hlog] at hcall
  -- The second commitment executed has the word 1.
  have hword := congrArg (fun l : List PoolCommitmentPacked =>
    (l.getD 1 (commitment 0)).words[0]) (Option.some.inj hcall)
  exact absurd hword (by decide +kernel)

/-! ### Whether a payment is found -/

def timestampTolerance : Nat := 24 * 60 * 60

/-- The timestamps that `respond_merkle_candidate_quote` signs at a time. -/
def signsTimestamp (now merklePaymentTimestamp : Nat) : Bool :=
  merklePaymentTimestamp ≤ now + timestampTolerance &&
    now - merklePaymentTimestamp ≤ merklePaymentExpiration + timestampTolerance

/-- A payment made at `paid` is found at `now`, if the chain has added at most four blocks in a
second since then. -/
def FoundAt (paid now ts : UInt64) : Prop :=
  ∀ (c : Crypto) (ln : Int → Option Int) (chain : Chain), ∀ log ∈ chain.logs c ln,
    log.blockNumber ≤ chain.currentBlock →
    chain.currentBlock ≤ log.blockNumber + arbitrumBlocksPerSecond * (now.toNat - paid.toNat) →
    chain.InLookback now.toNat ts log ∧
      ∀ tx ∈ chain.transactions, log.transactionHash = some tx.hash →
        ∀ abiDecode depth pools ts', abiDecode tx.input = .ok (depth, pools, ts') →
          getPaymentPackedCommitments abiDecode (chain.provider c ln) now.toNat
            log.event.winnerPoolHash ts = .ok pools

theorem FoundAt.le_lookback {paid now ts : UInt64} (hfound : FoundAt paid now ts) :
    arbitrumBlocksPerSecond * (now.toNat - paid.toNat) ≤ lookback now.toNat ts.toNat := by
  -- The sample payment, with as many blocks behind it as there can be.
  have hpaid := hfound Crypto.simple (fun _ => none)
    { chain with currentBlock := 10 + arbitrumBlocksPerSecond * (now.toNat - paid.toNat) } paidLog
    (sample_logs ▸ mem_singleton_self _) (Nat.le_add_right _ _) le_rfl
  have hrange := hpaid.1.1
  simp only [paidLog] at hrange
  omega

/-- **A payment is found** exactly if the lookback covers the blocks since it was made. -/
theorem payment_found_iff (paid now ts : UInt64) :
    FoundAt paid now ts ↔
      arbitrumBlocksPerSecond * (now.toNat - paid.toNat) ≤ lookback now.toNat ts.toNat := by
  constructor
  · exact FoundAt.le_lookback
  · intro hrate c ln chain log hlog hmined hblocks
    have hrange : chain.InLookback now.toNat ts log := ⟨by omega, hmined⟩
    refine ⟨hrange, fun tx htx hhash abiDecode depth pools ts' hdecoded => ?_⟩
    exact getPaymentPackedCommitments_ok.mpr
      ⟨log, hlog, rfl, hrange, tx, htx, hhash, depth, ts', hdecoded⟩

/-- The lookback starts at the timestamp, which may be a day after the payment. -/
theorem signed_payment_not_found :
    signsTimestamp 0 86400 = true ∧
    validatePaymentTimestamp (.ok 86400) 86400 86400 = .ok () ∧ ¬ FoundAt 0 86400 86400 :=
  ⟨by decide, rfl, fun h => absurd h.le_lookback (by decide)⟩

end Autonomi
