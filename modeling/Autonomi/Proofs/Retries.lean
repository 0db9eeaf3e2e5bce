/-
How often one call gets its calldata executed.

A transaction of the call is at risk if it succeeded or can still be mined.  Nothing the
chain does by itself puts more transactions at risk; only a broadcast that gets through
does, by one.  So as long as nothing is at risk whenever a broadcast gets through, the
calldata is executed at most once.
-/
import Autonomi.Evm.Mempool

namespace Autonomi.Retry

open Lib Lib.Fallible List

/-! ### Transactions at risk -/

/-- Succeeded, or pending with a nonce that is not used up. -/
def AtRisk (accountNonce : Nat) (tx : SentTx) : Prop :=
  tx.status = .succeeded ∨ (tx.status = .pending ∧ accountNonce ≤ tx.nonce)

instance (accountNonce : Nat) (tx : SentTx) : Decidable (AtRisk accountNonce tx) :=
  inferInstanceAs (Decidable (_ ∨ _))

variable (chain : Chain)

/-- No transaction of the call has succeeded or can still be mined. -/
def Chain.Settled : Prop := ∀ tx ∈ chain.sent, ¬ AtRisk chain.accountNonce tx

/-- How many transactions of the call are at risk. -/
def Chain.atRisk : Nat :=
  chain.sent.countP fun tx => AtRisk chain.accountNonce tx

variable {chain : Chain}

theorem Chain.Settled.atRisk_eq_zero (h : chain.Settled) : chain.atRisk = 0 := by
  rw [atRisk, countP_eq_zero]
  intro tx htx
  simpa using h tx htx

theorem Chain.executions_le_atRisk : chain.executions ≤ chain.atRisk := by
  refine countP_mono_left ?_
  intro tx _ hsucceeded
  simp only [decide_eq_true_eq] at hsucceeded ⊢
  exact .inl hsucceeded

theorem AtRisk.mono {n m : Nat} (hle : n ≤ m) {tx : SentTx} (h : AtRisk m tx) : AtRisk n tx := by
  rcases h with h | ⟨hpending, hnonce⟩
  · exact .inl h
  · exact .inr ⟨hpending, hle.trans hnonce⟩

theorem countP_atRisk_mono {n m : Nat} (hle : n ≤ m) (sent : List SentTx) :
    (sent.countP fun tx => AtRisk m tx) ≤ sent.countP fun tx => AtRisk n tx := by
  refine countP_mono_left ?_
  intro tx _ h
  simp only [decide_eq_true_eq] at h ⊢
  exact h.mono hle

theorem countP_set_le {sent : List SentTx} {i n : Nat} {old new : SentTx}
    (hold : sent[i]? = some old) (hrisk : AtRisk n new → AtRisk n old) :
    ((sent.set i new).countP fun tx => AtRisk n tx) ≤ sent.countP fun tx => AtRisk n tx := by
  obtain ⟨hi, rfl⟩ := List.getElem?_eq_some_iff.mp hold
  rw [countP_set hi]
  by_cases hnew : AtRisk n new
  · have hpos : 0 < sent.countP fun tx => AtRisk n tx :=
      countP_pos_iff.mpr ⟨sent[i], getElem_mem hi, by simpa using hrisk hnew⟩
    simp only [hnew, hrisk hnew, decide_true, if_true]
    omega
  · simp only [hnew, decide_false, Bool.false_eq_true, if_false]
    omega

theorem Chain.atRisk_step {chain' : Chain} {event : ChainEvent}
    (h : chain.step event = some chain') : chain'.atRisk ≤ chain.atRisk := by
  cases event with
  | mine i success =>
    simp only [step] at h
    split at h
    · rename_i nonce hi
      split at h
      · rename_i hnonce
        cases h
        refine Nat.le_trans (countP_atRisk_mono (Nat.le_succ chain.accountNonce) _) ?_
        exact countP_set_le hi fun _ => .inr ⟨rfl, Nat.le_of_eq hnonce.symm⟩
      · cases h
    · cases h
  | mineOther =>
    cases h
    exact countP_atRisk_mono (Nat.le_succ chain.accountNonce) _
  | drop i =>
    simp only [step] at h
    split at h
    · rename_i nonce hi
      cases h
      refine countP_set_le hi ?_
      intro hrisk
      rcases hrisk with hstatus | ⟨hstatus, -⟩
      · cases hstatus
      · cases hstatus
    · cases h
  | sendOther nonce =>
    cases h
    exact le_rfl

/-! ### Runs that broadcast only when nothing is at risk -/

/-- A broadcast that gets through does so when nothing is at risk. -/
def BroadcastsSettled (s : SendState) : SendLabel → Prop
  | .answer environment unheard =>
    ∀ tx next, s.program = .ask (.sendTransaction tx) next →
      takenIn unheard (environment (.sendTransaction tx)) = true → s.chain.Settled
  | .chain _ => True

theorem Chain.onAnswer_cases (environment : (q : ProviderRequest) → q.Response) (unheard : Bool)
    (q : ProviderRequest) : chain.onAnswer unheard q (environment q) = chain ∨
    ∃ tx, q = .sendTransaction tx ∧
      takenIn unheard (environment (.sendTransaction tx)) = true ∧
      chain.onAnswer unheard q (environment q)
        = { chain with sent := chain.sent ++ [⟨tx.nonce.getD chain.nextNonce, .pending⟩] } := by
  cases q with
  | sendTransaction tx =>
    by_cases htaken : takenIn unheard (environment (.sendTransaction tx)) = true
    · exact .inr ⟨tx, rfl, htaken, if_pos htaken⟩
    · exact .inl (if_neg htaken)
  | _ => exact .inl rfl

theorem Chain.atRisk_append (tx : SentTx) :
    { chain with sent := chain.sent ++ [tx] }.atRisk ≤ chain.atRisk + 1 := by
  simp only [atRisk, countP_append]
  exact Nat.add_le_add_left (countP_le_length ..) _

theorem atRisk_le_one_step {s s' : SendState} {label : SendLabel} (h : s.chain.atRisk ≤ 1)
    (hguard : BroadcastsSettled s label) (hstep : sendStep s label = some s') :
    s'.chain.atRisk ≤ 1 := by
  cases label with
  | answer environment unheard =>
    cases hprogram : s.program with
    | done r => simp [sendStep, hprogram] at hstep
    | ask q next =>
      simp only [sendStep, hprogram, Option.some.injEq] at hstep
      obtain rfl := hstep
      rcases s.chain.onAnswer_cases environment unheard q with heq | ⟨tx, rfl, htaken, heq⟩
      · rw [heq]
        exact h
      · have hsettled := hguard tx next hprogram htaken
        rw [heq]
        refine Nat.le_trans (s.chain.atRisk_append _) ?_
        exact Nat.le_of_eq (congrArg (· + 1) hsettled.atRisk_eq_zero)
  | chain event =>
    obtain ⟨chain, hchain, rfl⟩ := Option.map_eq_some_iff.mp hstep
    exact (Chain.atRisk_step hchain).trans h

/-! ### Every broadcast goes out without a nonce -/

/-- A request that leaves the nonce to the provider. -/
def LeavesNonce : ProviderRequest → Prop
  | .sendTransaction tx => tx.nonce = none
  | _ => True

def nonceMonitor : Program.Monitor ProviderRequest ProviderRequest.Response Unit :=
  ⟨fun _ q => LeavesNonce q, fun _ _ _ => ()⟩

/-- The error carries no nonce for the next attempt to go on with. -/
def CarriesNoNonce : TransactionError → Prop
  | .transactionFailedToConfirm _ nonce => nonce = none
  | _ => True

/-- Leaves every nonce to the provider, and knows of none in the end. -/
def Nonceless {α : Type} (p : ProviderM TransactionError α) : Prop :=
  Fallible.Obeys nonceMonitor (fun _ r => ∀ e, r = .error e → CarriesNoNonce e) () p

section Rules

variable {ε α β : Type}

theorem nonceless_pure {a : α} : Nonceless (pure a) :=
  obeys_pure fun _ h => nomatch h

theorem nonceless_throw {e : TransactionError} (h : CarriesNoNonce e) :
    Nonceless (throw e : ProviderM TransactionError α) :=
  obeys_throw fun _ he => Except.error.inj he ▸ h

theorem nonceless_mapError {x : Except ε α} {f : ε → TransactionError}
    (h : ∀ e, CarriesNoNonce (f e)) : Nonceless (Fallible.fromExcept (x.mapError f)) := by
  refine obeys_fromExcept ?_
  intro e he
  cases x with
  | ok _ => cases he
  | error reason => exact Except.error.inj he ▸ h reason

theorem nonceless_request {q : ProviderRequest} (h : LeavesNonce q) :
    Nonceless (Fallible.request q : ProviderM TransactionError q.Response) :=
  obeys_request h fun _ _ he => nomatch he

theorem nonceless_bind {p : ProviderM TransactionError α} {f : α → ProviderM TransactionError β}
    (hp : Nonceless p) (hf : ∀ a, Nonceless (f a)) : Nonceless (p >>= f) := by
  refine obeys_bind (obeys_mono ?_ hp)
  intro _ r hr
  cases r with
  | ok a => exact hf a
  | error e => exact fun e' he => hr e' (congrArg Except.error (Except.error.inj he))

theorem nonceless_attempt {p : ProviderM ε α} (hp : Fallible.Asks LeavesNonce p) :
    Nonceless (Fallible.attempt p) :=
  obeys_attempt (obeys_mono (fun _ _ _ _ he => nomatch he) hp)

end Rules

theorem nonceless_getEip1559Fees (config : MaxFeePerGas) : Nonceless (getEip1559Fees config) := by
  cases config with
  | auto =>
    exact nonceless_bind (nonceless_request trivial) fun _ =>
      nonceless_bind (nonceless_mapError fun _ => trivial) fun _ => nonceless_pure
  | limitedAuto limit =>
    refine nonceless_bind (nonceless_request trivial) fun _ =>
      nonceless_bind (nonceless_mapError fun _ => trivial) fun fees => ?_
    by_cases h : fees.maxFeePerGas > limit
    · rw [if_pos h]
      exact nonceless_throw trivial
    · rw [if_neg h]
      exact nonceless_pure
  | custom maxFee =>
    exact nonceless_bind (nonceless_request trivial) fun _ =>
      nonceless_bind (nonceless_mapError fun _ => trivial) fun _ => nonceless_pure
  | unlimited => exact nonceless_pure

theorem asks_retry {ε α : Type} {action : ProviderM ε α}
    (h : Fallible.Asks LeavesNonce action) (retries : Nat) :
    Fallible.Asks LeavesNonce (retry action retries) := by
  induction retries with
  | zero => exact h
  | succ retries ih =>
    refine asks_bind (asks_attempt h) ?_
    rintro (e | result)
    · exact ih
    · exact asks_pure

theorem nonceless_sendTransaction (calldata recipient : Bytes) (config : MaxFeePerGas) :
    Nonceless (sendTransaction calldata recipient none config) := by
  refine nonceless_bind (nonceless_getEip1559Fees config) fun fees => ?_
  refine nonceless_bind (nonceless_request trivial) fun _ => ?_
  refine nonceless_bind (nonceless_mapError fun _ => trivial) fun estimatedGas => ?_
  refine nonceless_bind (nonceless_request rfl) fun answer => ?_
  cases (answer : Broadcast) with
  | failed error | timeout => exact nonceless_throw trivial
  | pending hash =>
    have hwatch : Fallible.Asks LeavesNonce
        (retry (do Fallible.fromExcept (← watch hash) : ProviderM String TxHash) maxRetries) :=
      asks_retry (asks_call (show LeavesNonce (.watch hash) from trivial)) maxRetries
    refine nonceless_bind (nonceless_attempt hwatch) fun watched => ?_
    cases watched with
    | error e => exact nonceless_throw rfl
    | ok hash =>
      refine nonceless_bind (nonceless_request trivial) fun receipt => ?_
      rcases (receipt : Except String (Option Receipt)) with e | (_ | receipt)
      · exact nonceless_throw rfl
      · exact nonceless_throw rfl
      · by_cases hstatus : receipt.status = true
        · simp only [hstatus, if_true]
          exact nonceless_pure
        · simp only [hstatus]
          exact nonceless_throw trivial

theorem nonceless_sendAttempts (calldata recipient : Bytes) (config : MaxFeePerGas)
    (retries : Nat) : Nonceless (sendAttempts calldata recipient config retries none) := by
  induction retries with
  | zero => exact nonceless_sendTransaction calldata recipient config
  | succ retries ih =>
    refine obeys_bind (obeys_attempt (obeys_mono ?_
      (nonceless_sendTransaction calldata recipient config)))
    intro _ r hr
    cases r with
    | ok result => exact nonceless_pure
    | error e =>
      have hnonce := hr e rfl
      cases e with
      | transactionFailedToConfirm reason nonce =>
        obtain rfl : nonce = none := hnonce
        exact ih
      | transactionReverted message data nonce => exact nonceless_throw trivial
      | _ => exact ih

/-! ### Two transactions at risk -/

namespace Chain

theorem le_firstFree (taken : List Nat) (fuel n : Nat) : n ≤ firstFree taken fuel n := by
  induction fuel generalizing n with
  | zero => exact Nat.le_refl n
  | succ fuel ih =>
    unfold firstFree
    split
    · exact Nat.le_of_succ_le (ih (n + 1))
    · exact Nat.le_refl n

/-- Each number that is taken makes the list of those still ahead shorter. -/
theorem firstFree_not_mem (taken : List Nat) (fuel n : Nat)
    (h : (taken.filter fun m => n ≤ m).length ≤ fuel) : firstFree taken fuel n ∉ taken := by
  induction fuel generalizing n with
  | zero =>
    intro hmem
    have hfilter : n ∈ taken.filter fun m => n ≤ m := mem_filter.mpr ⟨hmem, by simp⟩
    rw [length_eq_zero_iff.mp (Nat.le_zero.mp h)] at hfilter
    cases hfilter
  | succ fuel ih =>
    unfold firstFree
    split
    · rename_i hmem
      refine ih (n + 1) ?_
      have hlt : (taken.filter fun m => n + 1 ≤ m).length
          < (taken.filter fun m => n ≤ m).length := by
        have hfilter : (taken.filter fun m => n + 1 ≤ m)
            = (taken.filter fun m => n ≤ m).filter fun m => n + 1 ≤ m := by
          rw [filter_filter]
          refine filter_congr ?_
          intro m _
          simp only [← Bool.decide_and, decide_eq_decide]
          omega
        rw [hfilter, length_filter_lt_length_iff_exists]
        exact ⟨n, mem_filter.mpr ⟨hmem, by simp⟩, by simp⟩
      omega
    · assumption

theorem nextNonce_not_mem (chain : Chain) : chain.nextNonce ∉ chain.occupied :=
  firstFree_not_mem _ _ _ (length_filter_le ..)

theorem accountNonce_le_nextNonce (chain : Chain) : chain.accountNonce ≤ chain.nextNonce :=
  le_firstFree ..

/-- The events that let a transaction be mined: others take the nonces before its own. -/
def mineUp (chain : Chain) (i nonce : Nat) : List ChainEvent :=
  List.replicate (nonce - chain.accountNonce) .mineOther ++ [.mine i true]

theorem run_mineOther (k : Nat) (chain : Chain) :
    ∃ others, runSteps step chain (List.replicate k .mineOther)
      = some ⟨chain.accountNonce + k, chain.sent, others⟩ := by
  induction k generalizing chain with
  | zero => exact ⟨chain.others, rfl⟩
  | succ k ih =>
    obtain ⟨others, h⟩ := ih ⟨chain.accountNonce + 1, chain.sent,
        chain.others.filter fun nonce => nonce ≠ chain.accountNonce⟩
    refine ⟨others, ?_⟩
    refine h.trans ?_
    simp only [Option.some.injEq, mk.injEq, and_true]
    omega

theorem run_mineUp {i nonce : Nat}
    (hi : chain.sent[i]? = some ⟨nonce, .pending⟩) (hnonce : chain.accountNonce ≤ nonce) :
    ∃ others, runSteps step chain (chain.mineUp i nonce)
      = some ⟨nonce + 1, chain.sent.set i ⟨nonce, .succeeded⟩, others⟩ := by
  obtain ⟨others, hothers⟩ := run_mineOther (nonce - chain.accountNonce) chain
  refine ⟨others, ?_⟩
  rw [mineUp, runSteps_append, hothers]
  have hsum : chain.accountNonce + (nonce - chain.accountNonce) = nonce := by omega
  simp [runSteps, step, hi, hsum]

theorem executions_set {sent : List SentTx} {i nonce : Nat}
    (hi : sent[i]? = some ⟨nonce, .pending⟩) (accountNonce : Nat) (others others' : List Nat)
    (accountNonce' : Nat) :
    executions ⟨accountNonce, sent.set i ⟨nonce, .succeeded⟩, others⟩
      = executions ⟨accountNonce', sent, others'⟩ + 1 := by
  obtain ⟨hlt, hget⟩ := List.getElem?_eq_some_iff.mp hi
  simp [executions, countP_set hlt, hget]

theorem mine_both {i j a b : Nat} (hij : i ≠ j) (hab : a < b)
    (hi : chain.sent[i]? = some ⟨a, .pending⟩) (hj : chain.sent[j]? = some ⟨b, .pending⟩)
    (ha : chain.accountNonce ≤ a) :
    ∃ events t, runSteps step chain events = some t ∧ 2 ≤ t.executions := by
  obtain ⟨others, hfirst⟩ := run_mineUp hi ha
  have hj' : (chain.sent.set i ⟨a, .succeeded⟩)[j]? = some ⟨b, .pending⟩ := by
    rw [List.getElem?_set_ne hij]
    exact hj
  let mined : Chain := ⟨a + 1, chain.sent.set i ⟨a, .succeeded⟩, others⟩
  obtain ⟨others', hsecond⟩ := @run_mineUp mined _ _ hj' hab
  refine ⟨chain.mineUp i a ++ mined.mineUp j b, ⟨b + 1, mined.sent.set j ⟨b, .succeeded⟩, others'⟩,
    ?_, ?_⟩
  · rw [runSteps_append, hfirst]
    exact hsecond
  · rw [executions_set hj' _ _ others (a + 1), executions_set hi _ _ chain.others chain.accountNonce]
    omega

theorem executions_of_not_settled (h : ¬ chain.Settled) :
    ∃ events t,
      runSteps step { chain with sent := chain.sent ++ [⟨chain.nextNonce, .pending⟩] } events
        = some t ∧ 2 ≤ t.executions := by
  obtain ⟨tx, htx, hrisk⟩ : ∃ tx ∈ chain.sent, AtRisk chain.accountNonce tx := by
    simpa [Settled] using h
  obtain ⟨i, hlt, hi⟩ := mem_iff_getElem.mp htx
  have hi' : (chain.sent ++ [⟨chain.nextNonce, .pending⟩])[i]? = some tx := by
    rw [List.getElem?_append_left hlt, List.getElem?_eq_getElem hlt, hi]
  have hnew : (chain.sent ++ [⟨chain.nextNonce, .pending⟩])[chain.sent.length]?
      = some ⟨chain.nextNonce, .pending⟩ := by simp
  rcases hrisk with hsucceeded | ⟨hpending, hnonce⟩
  · obtain ⟨others, hrun⟩ := @run_mineUp
      { chain with sent := chain.sent ++ [⟨chain.nextNonce, .pending⟩] } _ _ hnew
      chain.accountNonce_le_nextNonce
    refine ⟨_, _, hrun, ?_⟩
    rw [executions_set hnew _ _ chain.others chain.accountNonce]
    have hpos : 0 < executions ⟨chain.accountNonce,
        chain.sent ++ [⟨chain.nextNonce, .pending⟩], chain.others⟩ :=
      countP_pos_iff.mpr ⟨tx, mem_append_left _ htx, by simpa using hsucceeded⟩
    omega
  · obtain ⟨nonce, status⟩ := tx
    obtain rfl : status = .pending := hpending
    have hne : nonce ≠ chain.nextNonce := by
      rintro rfl
      refine chain.nextNonce_not_mem (mem_append_left _ ?_)
      exact mem_map.mpr ⟨_, mem_filter.mpr ⟨htx, by simp⟩, rfl⟩
    rcases Nat.lt_or_gt_of_ne hne with hless | hmore
    · exact mine_both (Nat.ne_of_lt hlt) hless hi' hnew hnonce
    · exact mine_both (Nat.ne_of_gt hlt) hmore hnew hi' chain.accountNonce_le_nextNonce

end Chain

/-! ### Whole runs -/

theorem nonceless_run {calldata recipient : Bytes} {config : MaxFeePerGas} {accountNonce : Nat}
    {others : List Nat} {labels : List SendLabel} {s : SendState}
    (h : GuardedRun sendStep (fun _ _ => True)
      (.start calldata recipient config accountNonce others) labels s) :
    Program.Obeys nonceMonitor (fun _ _ => True) () s.program := by
  have hstart : Program.Obeys nonceMonitor (fun _ _ => True) ()
      (SendState.start calldata recipient config accountNonce others).program :=
    Program.obeys_mono (fun _ _ _ => trivial)
      (nonceless_sendAttempts calldata recipient config maxRetries)
  refine h.invariant (I := fun s => Program.Obeys nonceMonitor (fun _ _ => True) () s.program) ?_
    hstart
  intro s label s' hs _ hstep
  cases label with
  | answer environment unheard =>
    cases hprogram : s.program with
    | done r => simp [sendStep, hprogram] at hstep
    | ask q next =>
      simp only [sendStep, hprogram, Option.some.injEq] at hstep
      obtain rfl := hstep
      rw [hprogram] at hs
      exact hs.2 (environment q)
  | chain event =>
    obtain ⟨chain, -, rfl⟩ := Option.map_eq_some_iff.mp hstep
    exact hs

theorem runSteps_chain {s : SendState} {events : List ChainEvent}
    (h : runSteps Chain.step s.chain events = some chain) :
    runSteps sendStep s (events.map .chain) = some { s with chain } := by
  induction events generalizing s with
  | nil =>
    cases h
    rfl
  | cons event events ih =>
    obtain ⟨chain', hchain, hrest⟩ := Option.bind_eq_some_iff.mp h
    have hstep : sendStep s (.chain event) = some { s with chain := chain' } := by
      simp [sendStep, hchain]
    rw [map_cons, runSteps, hstep]
    exact ih hrest

/--
**When one call executes its calldata at most once.**  In every run in which each
broadcast that gets through finds all earlier transactions of the call settled (none
succeeded, none that can still be mined), the calldata is executed at most once.  And
whenever one gets through that does not find them settled, the chain can go on so that
the calldata is executed twice.
-/
theorem retries_execute_once (calldata recipient : Bytes) (config : MaxFeePerGas)
    (accountNonce : Nat) (others : List Nat) :
    (∀ labels s, GuardedRun sendStep BroadcastsSettled
        (.start calldata recipient config accountNonce others) labels s →
      s.chain.executions ≤ 1) ∧
    (∀ labels s label s', GuardedRun sendStep (fun _ _ => True)
        (.start calldata recipient config accountNonce others) labels s →
      sendStep s label = some s' → ¬ BroadcastsSettled s label →
      ∃ (events : List ChainEvent) (t : SendState),
        runSteps sendStep s' (events.map SendLabel.chain) = some t ∧
        2 ≤ t.chain.executions) := by
  constructor
  · intro labels s h
    refine Nat.le_trans s.chain.executions_le_atRisk ?_
    exact h.invariant
      (fun _ _ _ hs hguard hstep => atRisk_le_one_step hs hguard hstep) (Nat.zero_le 1)
  · intro labels s label s' h hstep hguard
    cases label with
    | chain event => exact absurd trivial hguard
    | answer environment unheard =>
      obtain ⟨tx, next, hprogram, htaken, hsettled⟩ : ∃ tx next,
          s.program = .ask (.sendTransaction tx) next ∧
          takenIn unheard (environment (.sendTransaction tx)) = true ∧ ¬ s.chain.Settled := by
        simpa [BroadcastsSettled] using hguard
      have hnonce : tx.nonce = none := by
        have hobeys := nonceless_run h
        rw [hprogram] at hobeys
        exact hobeys.1
      obtain ⟨events, chain, hrun, htwice⟩ := Chain.executions_of_not_settled hsettled
      have hs' : s'.chain
          = { s.chain with sent := s.chain.sent ++ [⟨s.chain.nextNonce, .pending⟩] } := by
        simp only [sendStep, hprogram, Option.some.injEq] at hstep
        rw [← hstep]
        simp [Chain.onAnswer, htaken, hnonce]
      exact ⟨events, _, runSteps_chain (hs' ▸ hrun), htwice⟩

/-- A provider that takes every transaction in and never sees one confirmed. -/
def unconfirmed : (q : ProviderRequest) → q.Response
  | .estimateEip1559Fees => .error "unavailable"
  | .estimateGas _ => .ok 100
  | .sendTransaction _ => .pending (Vector.replicate 32 0)
  | .watch _ => .error "timeout"
  | .getTransactionReceipt _ => .ok none

/-- The call as far as the second broadcast; then both transactions are mined. -/
def delayedMining : List SendLabel :=
  List.replicate 8 (.answer unconfirmed false) ++ [.chain (.mine 0 true), .chain (.mine 1 true)]

/-- The first transaction is only late, and the retry adds a second one. -/
theorem retries_execute_twice :
    ¬ ∀ (calldata recipient : Bytes) (config : MaxFeePerGas) (accountNonce : Nat)
      (others : List Nat) (labels : List SendLabel) (s : SendState),
      runSteps sendStep (.start calldata recipient config accountNonce others) labels = some s →
      s.chain.executions ≤ 1 := by
  intro h
  have hrun : (runSteps sendStep (.start [] [] .unlimited 0 []) delayedMining).map
      (fun s => s.chain.executions) = some 2 := by decide
  obtain ⟨s, hs, htwo⟩ := Option.map_eq_some_iff.mp hrun
  exact absurd (h [] [] .unlimited 0 [] delayedMining s hs) (by omega)

/-- A single broadcast that is mined. -/
theorem retries_execute_once_mined :
    ∃ s, GuardedRun sendStep BroadcastsSettled (.start [] [] .unlimited 0 [])
        [.answer unconfirmed false, .answer unconfirmed false, .chain (.mine 0 true)] s ∧
      s.chain.executions = 1 ∧ s.chain.executions ≤ 1 := by
  have hsettled : ∀ (s : SendState) (environment : (q : ProviderRequest) → q.Response)
      (unheard : Bool), s.chain.sent = [] → BroadcastsSettled s (.answer environment unheard) := by
    intro s environment unheard hnone tx next _ _ tx htx
    rw [hnone] at htx
    cases htx
  have hrun : ∃ s, GuardedRun sendStep BroadcastsSettled (.start [] [] .unlimited 0 [])
      [.answer unconfirmed false, .answer unconfirmed false, .chain (.mine 0 true)] s ∧
      s.chain.executions = 1 :=
    ⟨_, .cons (hsettled _ _ _ rfl) rfl (.cons (hsettled _ _ _ rfl) rfl
      (.cons trivial rfl (.nil _))), by decide⟩
  obtain ⟨s, hs, hone⟩ := hrun
  exact ⟨s, hs, hone, (retries_execute_once [] [] .unlimited 0 []).1 _ s hs⟩

end Autonomi.Retry
