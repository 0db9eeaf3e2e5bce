/-
What a caller gets to see of payments that went through.

The wallet's error for quotes still carries the transactions made before, but
`Client::pay` hands on only its first part, and the loop over trees drops the merged
receipt with its `?`.  So after a failed transaction the caller holds an error without
proofs: nothing is lost exactly when nothing had been paid.
-/
import Autonomi.Client.MerklePayments
import Autonomi.Proofs.MerkleTrees
import Autonomi.Proofs.Quotes

namespace Autonomi.Client

open Lib Lib.Fallible List

/-! ### Payments in a run -/

def confirmedPayments : ClientExchange → List QuotePayment
  | ⟨.payForQuotes batch, .ok _⟩ => batch
  | _ => []

def paymentFailed : ClientExchange → Bool
  | ⟨.payForQuotes _, .error _⟩ => true
  | _ => false

def treeConfirmed : ClientExchange → Bool
  | ⟨.payForMerkleTree _ _ _, .ok _⟩ => true
  | _ => false

def treeFailed : ClientExchange → Bool
  | ⟨.payForMerkleTree _ _ _, .error _⟩ => true
  | _ => false

def NoPayment : ClientRequest → Prop
  | .payForQuotes _ | .payForMerkleTree _ _ _ => False
  | _ => True

theorem NoPayment.traceless {e : ClientExchange} (h : NoPayment e.request) :
    confirmedPayments e = [] ∧ paymentFailed e = false ∧
      treeConfirmed e = false ∧ treeFailed e = false := by
  obtain ⟨request, response⟩ := e
  cases request
  case payForQuotes => exact absurd h id
  case payForMerkleTree => exact absurd h id
  all_goals exact ⟨rfl, rfl, rfl, rfl⟩

/-! ### What does not pay -/

section Asks

variable {ε α : Type} {P : ClientRequest → Prop}

theorem asks_getStoreQuotes (client : Client) (dataType : DataTypes)
    (contentAddrs : List (XorName × Nat)) (horder : ∀ n, P (.order n))
    (hpeers : ∀ address count, P (.getClosestPeers address count))
    (hquote : ∀ address peer type size, P (.getQuote address peer type size))
    (hprice : ∀ metrics, P (.getMarketPrice metrics)) :
    Asks P (client.getStoreQuotes dataType contentAddrs) := by
  have hgetQuote : ∀ address type size peer,
      Asks P (client.getQuote address type size peer) := fun address type size peer =>
    asks_call_bind (hquote address peer type size) fun _ =>
      asks_bind asks_fromExcept fun _ => asks_pure
  have hpeersRetried : ∀ address count, Asks P (getClosestPeersWithRetries address count) :=
    fun address count => asks_withRetries (asks_call (hpeers address count)) _
  have hgetQuotes : ∀ address type size, Asks P (client.getQuotes address type size) :=
    fun address type size => asks_bind (hpeersRetried address _) fun _ =>
      asks_bind
        (asks_each fun peer _ => asks_attempt (hgetQuote address type size peer))
        fun _ => asks_bind (asks_inAnyOrder horder _) fun _ => asks_fromExcept
  have hfetch : ∀ type content, Asks P (client.fetchStoreQuote type content) :=
    fun type content => asks_bind
      (asks_mapError (asks_withRetries (hgetQuotes _ _ _) _)) fun _ => asks_pure
  have hprices : ∀ quotes, Asks P (marketPrices quotes) := by
    intro quotes
    refine asks_call_bind (hprice _) fun amounts => ?_
    match amounts with
    | [] | [value] | _ :: _ :: _ => exact asks_pure
  refine asks_bind ?_ fun _ => asks_bind asks_fromExcept fun _ =>
    asks_bind (asks_each fun quotes _ => hprices quotes) fun _ =>
      asks_bind (asks_inAnyOrder horder _) fun _ => asks_fromExcept
  exact asks_bind (asks_each fun content _ => asks_attempt (hfetch _ content)) fun _ =>
      asks_inAnyOrder horder _

theorem asks_ensureTokens (spender : Spender) (total : Amount) (hbalance : P .balanceOfTokens)
    (hallowance : P (.tokenAllowance spender))
    (happrove : ∀ amount, P (.approveToSpendTokens spender amount)) :
    Asks P (Wallet.ensureTokens spender total) := by
  refine asks_call_bind hbalance fun _ => asks_bind asks_reject fun _ =>
    asks_call_bind hallowance fun _ => asks_ite ?_ asks_pure
  exact asks_call_bind (happrove _) fun _ => asks_pure

theorem asks_getMerklePaymentEvent (hash : Retry.TxHash) (attempts : Nat)
    (hevent : P (.merklePaymentEvent hash)) :
    Asks P (Wallet.getMerklePaymentEvent hash attempts) := by
  induction attempts with
  | zero => exact asks_call hevent
  | succ attempts ih =>
    refine asks_bind (asks_request hevent) fun answer => ?_
    match (answer : Except String (PoolHash × Amount)) with
    | .ok event => exact asks_pure
    | .error _ => exact ih

theorem asks_prepareMerkleBatch (client : Client) (dataType : DataTypes) (dataSize : Nat)
    (addresses : List XorName) (hsalts : P (.drawSalts (paddedAddresses addresses)))
    (htime : P .unixTime) (hpool : ∀ target timestamp,
      P (.getMerkleCandidatePool target dataType dataSize timestamp)) :
    Asks P (client.prepareMerkleBatch dataType addresses dataSize) := by
  refine asks_call_bind hsalts fun _ => asks_call_bind htime fun _ =>
    asks_bind asks_fromExcept fun _ => asks_bind (asks_each fun midpoint _ => ?_) fun _ => asks_pure
  exact asks_call_bind (hpool _ _) fun _ => asks_bind asks_fromExcept fun _ => asks_pure

end Asks

/-! ### Quotes -/

/-- The receipt in a result of `pay` covers a payment. -/
def HandedBack (client : Client) (r : Except PayError (Receipt × Nat)) (payment : QuotePayment) :
    Prop :=
  ∃ receipt free address proof, r = .ok (receipt, free) ∧ receipt.lookup address = some proof ∧
    ∃ quote ∈ proof.1.peerQuotes,
      quote.2.hash client.crypto client.rmpMetrics = payment.quoteHash

variable {r : Except Wallet.PayForQuotesError (Wallet.TxHashes × Retry.GasInfo)}

variable {es : List ClientExchange}

theorem runs_payBatches {bs : List (List QuotePayment)} {hashes : Wallet.TxHashes}
    {gas : Retry.GasInfo}
    (h : Runs (Wallet.payBatches bs hashes gas) es r) :
    ((∃ paid, r = .ok paid) ∧ ∀ e ∈ es,
      paymentFailed e = false ∧ ∀ payment ∈ confirmedPayments e, payment ∈ bs.flatten) ∨
    ((∃ error, r = .error error) ∧ ∃ e ∈ es, paymentFailed e = true) := by
  induction bs generalizing hashes gas es with
  | nil =>
    obtain ⟨rfl, rfl⟩ := runs_pure.mp h
    exact .inl ⟨⟨_, rfl⟩, forall_mem_nil _⟩
  | cons batch rest ih =>
    obtain ⟨answer, es, rfl, hrest⟩ := runs_request_bind_iff.mp h
    match (answer : Except String (Retry.TxHash × Retry.GasInfo)), hrest with
    | .error e, hrest =>
      obtain ⟨-, rfl⟩ := runs_throw.mp hrest
      exact .inr ⟨⟨_, rfl⟩, _, mem_cons_self, rfl⟩
    | .ok (txHash, info), hrest =>
      rcases ih hrest with ⟨hok, hall⟩ | ⟨herror, e, he, hfailed⟩
      · refine .inl ⟨hok, forall_mem_cons.mpr ⟨⟨rfl, ?_⟩, ?_⟩⟩
        · intro payment hpayment
          exact mem_append_left _ hpayment
        · intro e he
          refine ⟨(hall e he).1, fun payment hpayment => ?_⟩
          exact mem_append_right _ ((hall e he).2 payment hpayment)
      · exact .inr ⟨herror, e, mem_cons_of_mem _ he, hfailed⟩

variable {client : Client}

theorem handedBack_of_mem {quotes : StoreQuote} {payment : QuotePayment}
    (h : payment ∈ client.payments quotes.entries) (free : Nat) :
    HandedBack client (.ok (client.receiptFromStoreQuotes quotes, free)) payment := by
  obtain ⟨entry, hentry, hpayment⟩ := mem_flatMap.mp h
  obtain ⟨quote, hquote, rfl⟩ := mem_map.mp hpayment
  exact ⟨_, free, entry.1, _, rfl,
    lookup_receiptFromStoreQuotesFiltered client quotes.nodupKeys hentry (ne_nil_of_mem hquote),
    (quote.peer, quote.quote), mem_map.mpr ⟨quote, hquote, rfl⟩, rfl⟩

theorem not_handedBack_error {error : PayError} {payment : QuotePayment} :
    ¬ HandedBack client (.error error) payment := by
  intro h
  obtain ⟨receipt, free, address, proof, h, -⟩ := h
  cases h

theorem runs_payForQuotes {payments : List QuotePayment}
    (h : Runs (Wallet.payForQuotes payments) es r) :
    (∀ e ∈ es, paymentFailed e = false ∧ ∀ payment ∈ confirmedPayments e,
      payment ∈ payments ∧ ∃ paid, r = .ok paid) ∨
    ((∃ error, r = .error error) ∧ ∃ e ∈ es, paymentFailed e = true) := by
  have hquiet := asks_mapError (f := fun e => (⟨e, ∅⟩ : Wallet.PayForQuotesError))
    (asks_ensureTokens (P := NoPayment) .dataPayments (payments.map QuotePayment.amount).sum
      trivial trivial fun _ => trivial)
  have htraceless : ∀ {e : ClientExchange}, NoPayment e.request →
      paymentFailed e = false ∧ ∀ payment ∈ confirmedPayments e,
        payment ∈ payments ∧ ∃ paid, r = .ok paid := by
    intro e he
    rw [he.traceless.1]
    exact ⟨he.traceless.2.1, forall_mem_nil _⟩
  rcases runs_bind.mp h with ⟨error, herror, -⟩ | ⟨first, second, _, rfl, hok, hpay⟩
  · exact .inl fun e he => htraceless (asks_runs hquiet herror e he)
  · rcases runs_payBatches hpay with ⟨hpaid, hall⟩ | ⟨herror, e, he, hfailed⟩
    · refine .inl (forall_mem_append.mpr ⟨?_, ?_⟩)
      · exact fun e he => htraceless (asks_runs hquiet hok e he)
      · intro e he
        refine ⟨(hall e he).1, fun payment hpayment => ⟨?_, hpaid⟩⟩
        have hbatch := (hall e he).2 payment hpayment
        rw [Wallet.paymentBatches, flatten_batches] at hbatch
        exact mem_of_mem_filter hbatch
    · exact .inr ⟨herror, e, mem_append_right first he, hfailed⟩

theorem runs_pay {dataType : DataTypes} {contentAddrs : List (XorName × Nat)} {wallet : Wallet}
    {r : Except PayError (Receipt × Nat)}
    (h : Runs (client.pay dataType contentAddrs wallet) es r) :
    (∀ e ∈ es, paymentFailed e = false ∧ ∀ payment ∈ confirmedPayments e,
      HandedBack client r payment) ∨
    ((∃ error, r = .error error) ∧ ∃ e ∈ es, paymentFailed e = true) := by
  have htraceless : ∀ {e : ClientExchange}, NoPayment e.request →
      paymentFailed e = false ∧ ∀ payment ∈ confirmedPayments e, HandedBack client r payment := by
    intro e he
    rw [he.traceless.1]
    exact ⟨he.traceless.2.1, forall_mem_nil _⟩
  have hquotes := asks_mapError (f := PayError.cost)
    (asks_getStoreQuotes (P := NoPayment) client dataType contentAddrs
      (fun _ => trivial) (fun _ _ => trivial) (fun _ _ _ _ => trivial) (fun _ => trivial))
  rcases runs_reject_bind_iff.mp h with ⟨-, rfl, -⟩ | ⟨-, hget⟩
  · exact .inl fun e he => absurd he not_mem_nil
  rcases runs_bind.mp hget with
    ⟨error, herror, -⟩ | ⟨first, second, quotes, rfl, hok, hrest⟩
  · exact .inl fun e he => htraceless (asks_runs hquotes herror e he)
  have hfirst := fun e he => htraceless (asks_runs hquotes hok e he)
  by_cases hempty : quotes.entries ≠ []
  · rw [if_pos hempty] at hrest
    obtain ⟨order, rest, rfl, hpays⟩ := runs_inAnyOrder_bind_iff.mp hrest
    rcases runs_bind.mp hpays with
      ⟨error, herror, rfl⟩ | ⟨pays, last, paid, rfl, hpaid, hlast⟩
    · obtain ⟨x, hx, hxe⟩ := runs_mapError.mp herror
      rcases runs_payForQuotes hx with hall | ⟨-, e, he, hfailed⟩
      · refine .inl (forall_mem_append.mpr ⟨hfirst, forall_mem_cons.mpr ⟨htraceless trivial, ?_⟩⟩)
        intro e he
        refine ⟨(hall e he).1, fun payment hpayment => ?_⟩
        obtain ⟨-, paid, rfl⟩ := (hall e he).2 payment hpayment
        cases hxe
      · exact .inr ⟨⟨error, rfl⟩, e, mem_append_right first (mem_cons_of_mem _ he), hfailed⟩
    · obtain ⟨rfl, rfl⟩ := runs_pure.mp hlast
      rcases runs_payForQuotes (runs_mapError_ok.mp hpaid) with hall | ⟨⟨error, hr⟩, -⟩
      · refine .inl (forall_mem_append.mpr ⟨hfirst, forall_mem_cons.mpr ⟨htraceless trivial, ?_⟩⟩)
        rw [append_nil]
        intro e he
        refine ⟨(hall e he).1, fun payment hpayment => handedBack_of_mem ?_ _⟩
        have hmem := ((hall e he).2 payment hpayment).1
        exact (List.Perm.flatMap_right _ (arrange_perm _ order)).mem_iff.mp hmem
      · cases hr
  · rw [if_neg hempty] at hrest
    obtain ⟨rfl, -⟩ := runs_pure.mp hrest
    rw [append_nil]
    exact .inl hfirst

/-! ### Trees -/

def proofsIn : Except MerklePaymentError MerklePaymentReceipt →
    AList fun _ : XorName => MerklePaymentProof
  | .ok receipt => receipt.proofs
  | .error _ => ∅

variable {client : Client} {wallet : Wallet} {dataType : DataTypes} {dataSize : Nat}
  {es : List ClientExchange}

theorem traceless_of_noPayment (h : ∀ e ∈ es, NoPayment e.request) :
    es.countP treeConfirmed = 0 ∧ ∀ e ∈ es, treeFailed e = false := by
  refine ⟨countP_eq_zero.mpr fun e he => ?_, fun e he => (h e he).traceless.2.2.2⟩
  rw [(h e he).traceless.2.2.1]
  exact Bool.false_ne_true

theorem runs_payForMerkleTree_ok {depth : UInt8} {commitments : List PoolCommitment}
    {timestamp : UInt64} {paid : PoolHash × Amount × Retry.GasInfo}
    (h : Runs (wallet.payForMerkleTree depth commitments timestamp) es (.ok paid)) :
    es.countP treeConfirmed = 1 ∧ ∀ e ∈ es, treeFailed e = false := by
  obtain ⟨-, h₁⟩ := runs_reject_bind_eq_ok.mp h
  obtain ⟨packed, -, h₂⟩ := runs_fromExcept_bind_eq_ok.mp h₁
  obtain ⟨estimate, _, rfl, h₃⟩ := runs_request_bind_iff.mp h₂
  obtain ⟨cost, -, h₄⟩ := runs_fromExcept_bind_eq_ok.mp h₃
  obtain ⟨tokens, _, _, rfl, htokens, h₅⟩ := runs_bind_eq_ok.mp h₄
  obtain ⟨sent, _, rfl, h₆⟩ := runs_request_bind_iff.mp h₅
  obtain ⟨tx, hsent, h₇⟩ := runs_fromExcept_bind_eq_ok.mp h₆
  obtain ⟨event, last, _, rfl, hevent, h₈⟩ := runs_bind_eq_ok.mp h₇
  obtain ⟨rfl, -⟩ := runs_pure.mp h₈
  obtain ⟨htokensCount, htokensFailed⟩ := traceless_of_noPayment
    (asks_runs (asks_ensureTokens _ _ trivial trivial fun _ => trivial) htokens)
  obtain ⟨heventCount, heventFailed⟩ := traceless_of_noPayment
    (asks_runs (asks_getMerklePaymentEvent _ _ trivial) (runs_mapError_ok.mp hevent))
  match (sent : Except String (Retry.TxHash × Retry.GasInfo)), hsent with
  | .ok answer, _ =>
    constructor
    · simp [countP_cons, htokensCount, heventCount, treeConfirmed]
    · intro e he
      simp only [mem_cons, mem_append, append_nil] at he
      rcases he with rfl | he | rfl | he
      · rfl
      · exact htokensFailed e he
      · rfl
      · exact heventFailed e he

theorem mem_addressProofs {tree : MerkleTree} {winnerPool : MerklePaymentCandidatePool}
    {addresses : List XorName} {i : Nat} {proofs : AList fun _ : XorName => MerklePaymentProof}
    (h : client.addressProofs tree winnerPool i addresses = .ok proofs) (address : XorName) :
    address ∈ proofs ↔ address ∈ addresses := by
  induction addresses generalizing i proofs with
  | nil =>
    cases h
    exact iff_of_false (AList.notMem_empty address) not_mem_nil
  | cons first addresses ih =>
    simp only [addressProofs, Checks.bind_eq_ok] at h
    obtain ⟨dataProof, -, rest, hrest, hproofs⟩ := h
    cases hproofs
    rw [mem_cons, ← ih hrest]
    by_cases hmem : first ∈ rest
    · rw [if_pos hmem]
      refine (or_iff_right_of_imp ?_).symm
      rintro rfl
      exact hmem
    · rw [if_neg hmem, AList.mem_insert]

theorem runs_payForSingleMerkleBatch_ok {addresses : List XorName}
    {receipt : MerklePaymentReceipt}
    (h : Runs (client.payForSingleMerkleBatch dataType addresses dataSize wallet) es
      (.ok receipt)) :
    es.countP treeConfirmed = 1 ∧ (∀ e ∈ es, treeFailed e = false) ∧
      ∀ address, address ∈ receipt.proofs ↔ address ∈ addresses := by
  obtain ⟨first, _, prepared, rfl, hprepare, h₁⟩ := runs_bind_eq_ok.mp h
  obtain ⟨second, _, paid, rfl, hpay, h₂⟩ := runs_bind_eq_ok.mp h₁
  obtain ⟨winnerPool, -, h₃⟩ := runs_fromExcept_bind_eq_ok.mp h₂
  obtain ⟨proofs, hproofs, h₄⟩ := runs_fromExcept_bind_eq_ok.mp h₃
  obtain ⟨rfl, hreceipt⟩ := runs_pure.mp h₄
  obtain ⟨hprepareCount, hprepareFailed⟩ := traceless_of_noPayment
    (asks_runs (asks_prepareMerkleBatch client dataType dataSize addresses trivial trivial
      fun _ _ => trivial) hprepare)
  obtain ⟨hpayCount, hpayFailed⟩ := runs_payForMerkleTree_ok (runs_mapError_ok.mp hpay)
  rw [append_nil]
  refine ⟨?_, forall_mem_append.mpr ⟨hprepareFailed, hpayFailed⟩, ?_⟩
  · rw [countP_append, hprepareCount, hpayCount]
  · cases hreceipt
    exact mem_addressProofs (Checks.mapError_eq_ok.mp hproofs)

theorem runs_payForMerkleBatches_ok {bs : List (List XorName)}
    {merged receipt : MerklePaymentReceipt}
    (h : Runs (client.payForMerkleBatches dataType dataSize wallet bs merged) es (.ok receipt)) :
    (∀ e ∈ es, treeFailed e = false) ∧
      ∀ address, (address ∈ merged.proofs ∨ address ∈ bs.flatten) → address ∈ receipt.proofs := by
  induction bs generalizing merged es with
  | nil =>
    obtain ⟨rfl, hreceipt⟩ := runs_pure.mp h
    cases hreceipt
    refine ⟨forall_mem_nil _, fun address haddress => ?_⟩
    exact haddress.resolve_right not_mem_nil
  | cons batch bs ih =>
    obtain ⟨first, second, paid, rfl, hpaid, hrest⟩ := runs_bind_eq_ok.mp h
    obtain ⟨-, hfirst, hproofs⟩ := runs_payForSingleMerkleBatch_ok hpaid
    obtain ⟨hsecond, hmem⟩ := ih hrest
    refine ⟨forall_mem_append.mpr ⟨hfirst, hsecond⟩, fun address haddress => hmem address ?_⟩
    rw [flatten_cons, mem_append] at haddress
    rw [MerklePaymentReceipt.merge, AList.mem_union]
    rcases haddress with hmerged | hbatch | hlater
    · exact .inl (.inr hmerged)
    · exact .inl (.inl ((hproofs address).mpr hbatch))
    · exact .inr hlater

/-! ### Trees that get paid -/

/-- At every midpoint of that time there are nodes whose quotes go through. -/
def CandidatesAnswer (client : Client) (timestamp : UInt64) : Prop :=
  ∀ midpoint : MidpointProof, midpoint.merklePaymentTimestamp = timestamp →
    ∃ nodes packed,
      (⟨midpoint, nodes⟩ : MerklePaymentCandidatePool).verifySignatures client.crypto timestamp
        = .ok () ∧
      (⟨midpoint, nodes⟩ : MerklePaymentCandidatePool).toCommitmentPacked client.crypto
        = .ok packed

theorem candidatesAnswer_simple (client : Client) (hcrypto : client.crypto = Crypto.simple) :
    client.CandidatesAnswer Sample.timestamp := by
  intro midpoint _
  have hok : ((Vector.replicate candidatesPerPool (⟨(Sample.candidate 0).rewardAddress,
      (Sample.candidate 0).quotingMetrics⟩ : CandidateNode)).mapM CandidateNode.toPacked).isOk
      = true := by decide +kernel
  obtain ⟨packed, hpacked⟩ := Checks.isOk_iff.mp hok
  let pool : MerklePaymentCandidatePool :=
    ⟨midpoint, Vector.replicate candidatesPerPool (Sample.candidate 0)⟩
  refine ⟨pool.candidateNodes, ⟨pool.hash client.crypto, packed⟩, by rw [hcrypto]; rfl, ?_⟩
  rw [MerklePaymentCandidatePool.toCommitmentPacked, PoolCommitment.toPacked,
    MerklePaymentCandidatePool.toCommitment, Vector.map_replicate, hpacked]
  rfl

section Paid

variable {timestamp : UInt64} {addresses : List XorName}

theorem length_paddedAddresses (hne : addresses ≠ []) (hmax : addresses.length ≤ 256) :
    2 ≤ (paddedAddresses addresses).length ∧ (paddedAddresses addresses).length ≤ 256 := by
  match addresses with
  | [] => exact absurd rfl hne
  | [onlyOne] => exact ⟨le_rfl, by simp [paddedAddresses]⟩
  | first :: second :: rest => exact ⟨by simp [paddedAddresses], hmax⟩

theorem getElem?_paddedAddresses {i : Nat} {address : XorName}
    (h : addresses[i]? = some address) : (paddedAddresses addresses)[i]? = some address := by
  match addresses, i with
  | [], _ | [onlyOne], 0 | first :: second :: rest, _ => exact h

theorem exists_runs_prepareMerkleBatch (dataType : DataTypes) (dataSize : Nat)
    (hanswer : client.CandidatesAnswer timestamp)
    (hne : addresses ≠ []) (hmax : addresses.length ≤ 256) :
    ∃ es tree pools commitments packed,
      Runs (client.prepareMerkleBatch dataType addresses dataSize) es
        (.ok (tree, pools, commitments, timestamp)) ∧
      tree.BuiltFrom client.crypto bytes32 (paddedAddresses addresses) ∧ pools ≠ [] ∧
      commitments.mapM PoolCommitment.toPacked = .ok packed := by
  obtain ⟨hmin, hmax⟩ := length_paddedAddresses hne hmax
  obtain ⟨tree, htree, built⟩ := MerkleTree.fromXornames_ok (c := client.crypto) bytes32 bytes32
    hmin hmax
  obtain ⟨candidates, hcandidates, hlength, hall⟩ := built.candidates timestamp
  have hpool : ∀ midpoint ∈ candidates, ∃ part pool,
      Runs (client.buildSingleCandidatePool dataType dataSize midpoint) part (.ok pool) ∧
        (∃ packed, pool.toCommitmentPacked client.crypto = .ok packed) ∧ ∀ e ∈ part, True := by
    intro midpoint hmidpoint
    obtain rfl := (hall midpoint hmidpoint).1
    obtain ⟨nodes, packed, hverify, hpacked⟩ := hanswer midpoint rfl
    have hrun : Runs (client.buildSingleCandidatePool dataType dataSize midpoint)
        [⟨.getMerkleCandidatePool (midpoint.address client.crypto) dataType dataSize
          midpoint.merklePaymentTimestamp, .ok nodes⟩] (.ok ⟨midpoint, nodes⟩) := by
      refine runs_request_bind (runs_fromExcept_bind ?_)
      exact runs_fromExcept_bind_eq_ok.mpr ⟨(), Checks.mapError_eq_ok.mpr hverify, runs_return⟩
    exact ⟨_, _, hrun, ⟨packed, hpacked⟩, fun _ _ => trivial⟩
  obtain ⟨es, pools, hruns, hpacked, -⟩ := exists_runs_each hpool
  obtain ⟨packed, hcommitments, -⟩ := Checks.mapM_ok_of_forall
    (l := pools.map (·.toCommitment client.crypto)) (by
      intro commitment hcommitment
      obtain ⟨pool, hmem, rfl⟩ := mem_map.mp hcommitment
      obtain ⟨-, -, packed, hok⟩ := exists_left_of_forall₂ hpacked hmem
      exact ⟨packed, hok, trivial⟩)
  refine ⟨⟨.drawSalts (paddedAddresses addresses), (bytes32, bytes32)⟩
    :: ⟨.unixTime, .ok timestamp⟩ :: es, tree, pools, _, packed, ?_, built, ?_, hcommitments⟩
  · refine runs_request_bind ?_
    refine runs_fromExcept_bind_eq_ok.mpr ⟨tree, Checks.mapError_eq_ok.mpr htree, ?_⟩
    refine runs_request_bind (runs_fromExcept_bind ?_)
    refine runs_fromExcept_bind_eq_ok.mpr ⟨candidates, Checks.mapError_eq_ok.mpr hcandidates, ?_⟩
    exact runs_bind_last hruns runs_return
  · rw [← length_pos_iff, ← hpacked.length_eq, hlength]
    exact Nat.two_pow_pos _

/-- The exchanges before the transaction, with a wallet that has enough. -/
def beforePayment (depth : UInt8) (commitments : List PoolCommitment) (timestamp : UInt64) :
    List ClientExchange :=
  [⟨.estimateMerkleTreeCost depth commitments timestamp, .ok 0⟩, ⟨.balanceOfTokens, .ok 0⟩,
    ⟨.tokenAllowance .merklePayments, .ok 0⟩]

theorem runs_ensureTokens (spender : Spender) :
    Runs (Wallet.ensureTokens spender 0)
      [⟨.balanceOfTokens, .ok 0⟩, ⟨.tokenAllowance spender, .ok 0⟩] (.ok ()) := by
  refine runs_request_bind (runs_fromExcept_bind ?_)
  refine runs_reject_bind (by decide) ?_
  exact runs_request_bind (runs_fromExcept_bind runs_return)

section Wallets

variable {commitments : List PoolCommitment} {packed : List PoolCommitmentPacked} (depth : UInt8)
  (timestamp : UInt64) (hnetwork : wallet.network.hasMerklePayments = true)
  (hpacked : commitments.mapM PoolCommitment.toPacked = .ok packed)

include hnetwork hpacked

theorem runs_payForMerkleTree_after {rest : List ClientExchange}
    {r : Except WalletError (PoolHash × Amount × Retry.GasInfo)} (hrest : Runs (do
        let (txHash, gasInfo) ← Fallible.fromExcept
          ((← sendPayForMerkleTree depth packed timestamp).mapError
            WalletError.merklePaymentVaultContract)
        let (winnerPoolHash, amount) ← Fallible.mapError .merklePaymentVaultContract
          (Wallet.getMerklePaymentEvent txHash (Wallet.maxEventAttempts - 1))
        return (winnerPoolHash, amount, gasInfo)) rest r) :
    Runs (wallet.payForMerkleTree depth commitments timestamp)
      (beforePayment depth commitments timestamp ++ rest) r := by
  refine runs_reject_bind (by simp [hnetwork]) ?_
  rw [hpacked]
  refine runs_fromExcept_bind (runs_request_bind (runs_fromExcept_bind ?_))
  exact runs_bind_ok (runs_ensureTokens .merklePayments) hrest

theorem runs_payForMerkleTree :
    (∀ message, Runs (wallet.payForMerkleTree depth commitments timestamp)
      (beforePayment depth commitments timestamp ++
        [⟨.payForMerkleTree depth packed timestamp, .error message⟩])
      (.error (.merklePaymentVaultContract message))) ∧
    ∀ hash gas winner, Runs (wallet.payForMerkleTree depth commitments timestamp)
      (beforePayment depth commitments timestamp ++
        [⟨.payForMerkleTree depth packed timestamp, .ok (hash, gas)⟩,
          ⟨.merklePaymentEvent hash, .ok (winner, 0)⟩]) (.ok (winner, 0, gas)) := by
  constructor
  · intro message
    refine runs_payForMerkleTree_after depth timestamp hnetwork hpacked (runs_request_bind ?_)
    exact runs_fromExcept_bind_iff.mpr (.inl ⟨_, rfl, rfl, rfl⟩)
  · intro hash gas winner
    refine runs_payForMerkleTree_after depth timestamp hnetwork hpacked
      (runs_request_bind (runs_fromExcept_bind ?_))
    have hevent : Runs (Wallet.getMerklePaymentEvent hash (Wallet.maxEventAttempts - 1))
        [⟨.merklePaymentEvent hash, .ok (winner, 0)⟩] (.ok (winner, 0)) :=
      runs_request_bind runs_return
    exact runs_bind_last (runs_mapError_ok.mpr hevent) runs_return

end Wallets

theorem exists_addressProofs {tree : MerkleTree} {leaves : List XorName}
    (built : tree.BuiltFrom client.crypto bytes32 leaves)
    (winnerPool : MerklePaymentCandidatePool) {i : Nat}
    (haddresses : ∀ j address, addresses[j]? = some address → leaves[i + j]? = some address) :
    ∃ proofs, client.addressProofs tree winnerPool i addresses = .ok proofs := by
  induction addresses generalizing i with
  | nil => exact ⟨∅, rfl⟩
  | cons address addresses ih =>
    obtain ⟨branch, hbranch, -⟩ := built.addressProof (haddresses 0 address rfl)
    obtain ⟨proofs, hproofs⟩ := ih fun j other hother => by
      rw [Nat.add_assoc, Nat.add_comm 1 j]
      exact haddresses (j + 1) other hother
    exact ⟨_, by rw [addressProofs, ← Nat.add_zero i, hbranch, hproofs]; rfl⟩

variable (wallet : Wallet) (dataType : DataTypes) (dataSize : Nat)
  (hanswer : client.CandidatesAnswer timestamp)
  (hnetwork : wallet.network.hasMerklePayments = true) (addresses : List XorName)
  (hne : addresses ≠ []) (hmax : addresses.length ≤ 256)

include hanswer hnetwork hne hmax

theorem exists_runs_payForSingleMerkleBatch :
    ∃ es receipt, Runs (client.payForSingleMerkleBatch dataType addresses dataSize wallet) es
      (.ok receipt) := by
  obtain ⟨es, tree, pools, commitments, packed, hprepare, built, hpools, hpacked⟩ :=
    exists_runs_prepareMerkleBatch dataType dataSize hanswer hne hmax
  obtain ⟨pool, rest, rfl⟩ := exists_cons_of_ne_nil hpools
  have hleaves : ∀ j address, addresses[j]? = some address →
      (paddedAddresses addresses)[0 + j]? = some address := by
    intro j address haddress
    rw [Nat.zero_add]
    exact getElem?_paddedAddresses haddress
  obtain ⟨proofs, hproofs⟩ := exists_addressProofs built pool hleaves
  have hpay := (runs_payForMerkleTree tree.depth timestamp hnetwork hpacked).2 (bytes32 0)
    Wallet.noGas (pool.hash client.crypto)
  refine ⟨_, { MerklePaymentReceipt.empty with proofs, amountPaid := 0 },
    runs_bind_ok hprepare (runs_bind_last (runs_mapError_ok.mpr hpay) ?_)⟩
  refine runs_fromExcept_bind_eq_ok.mpr ⟨pool,
    Checks.okOr_eq_ok.mpr (List.find?_cons_of_pos (decide_eq_true rfl)), ?_⟩
  exact runs_fromExcept_bind_eq_ok.mpr ⟨proofs, Checks.mapError_eq_ok.mpr hproofs, runs_return⟩

theorem exists_runs_payForSingleMerkleBatch_failed :
    ∃ es error, Runs (client.payForSingleMerkleBatch dataType addresses dataSize wallet) es
      (.error error) ∧ es.countP treeConfirmed = 0 ∧ ∃ e ∈ es, treeFailed e = true := by
  obtain ⟨es, tree, pools, commitments, packed, hprepare, -, -, hpacked⟩ :=
    exists_runs_prepareMerkleBatch dataType dataSize hanswer hne hmax
  have hpay := (runs_payForMerkleTree tree.depth timestamp hnetwork hpacked).1 "execution reverted"
  refine ⟨_, _, runs_bind_ok hprepare (runs_bind.mpr (.inl
    ⟨_, runs_mapError.mpr ⟨_, hpay, rfl⟩, rfl⟩)), ?_, ?_⟩
  · rw [countP_append, (traceless_of_noPayment
      (asks_runs (asks_prepareMerkleBatch client dataType dataSize addresses trivial trivial
      fun _ _ => trivial) hprepare)).1]
    rfl
  · exact ⟨⟨.payForMerkleTree tree.depth packed timestamp, .error "execution reverted"⟩,
      by simp, rfl⟩

end Paid

/-! ### What is kept -/

/--
**When no confirmed payment is lost.**  A caller of `pay` is handed back all confirmed
payments exactly when no transaction failed after one was confirmed.  If the payment
for a tree fails, the caller of `pay_for_merkle_batch` is handed the proofs of the
trees paid before exactly when there were none; a call that succeeds hands back the
proofs of all of them.
-/
theorem confirmed_payments_kept_iff (client : Client) (wallet : Wallet) (dataType : DataTypes) :
    (∀ contentAddrs es r, Runs (client.pay dataType contentAddrs wallet) es r →
      ((∀ e ∈ es, ∀ payment ∈ confirmedPayments e, HandedBack client r payment) ↔
        ((∃ e ∈ es, paymentFailed e = true) → ∀ e ∈ es, confirmedPayments e = []))) ∧
    (∀ contentAddrs dataSize es r,
      Runs (client.payForMerkleBatch dataType contentAddrs dataSize wallet) es r →
      (∃ e ∈ es, treeFailed e = true) ∨ (∃ receipt, r = .ok receipt) →
      ((∀ address ∈ ((batches maxLeaves contentAddrs).take (es.countP treeConfirmed)).flatten,
          address ∈ proofsIn r) ↔
        ((∃ e ∈ es, treeFailed e = true) → es.countP treeConfirmed = 0))) := by
  constructor
  · intro contentAddrs es r h
    rcases runs_pay h with hall | ⟨⟨error, rfl⟩, hfailed⟩
    · refine ⟨fun _ hfailed => ?_, fun _ e he => (hall e he).2⟩
      obtain ⟨e, he, hfailed⟩ := hfailed
      rw [(hall e he).1] at hfailed
      cases hfailed
    · constructor
      · intro hall _ e he
        exact eq_nil_iff_forall_not_mem.mpr fun payment hpayment =>
          not_handedBack_error (hall e he payment hpayment)
      · intro hnone e he payment hpayment
        rw [hnone hfailed e he] at hpayment
        cases hpayment
  · intro contentAddrs dataSize es r h hends
    match r, h, hends with
    | .ok receipt, h, _ =>
      obtain ⟨hnone, hproofs⟩ := runs_payForMerkleBatches_ok (runs_reject_bind_eq_ok.mp h).2
      constructor
      · intro _ hfailed
        obtain ⟨e, he, hfailed⟩ := hfailed
        rw [hnone e he] at hfailed
        cases hfailed
      · intro _ address haddress
        refine hproofs address (.inr ?_)
        exact ((take_sublist _ _).flatten.mem haddress)
    | .error error, h, hends =>
      have hfailed := hends.resolve_right fun hok => by obtain ⟨receipt, hok⟩ := hok; cases hok
      have hbatches : batches maxLeaves contentAddrs ≠ [] := by
        intro hnil
        obtain ⟨e, he, -⟩ := hfailed
        rcases runs_reject_bind_iff.mp h with ⟨-, rfl, -⟩ | ⟨-, hrun⟩
        · cases he
        · rw [hnil] at hrun
          obtain ⟨rfl, -⟩ := runs_pure.mp hrun
          cases he
      constructor
      · intro hall _
        by_contra hcount
        obtain ⟨batch, rest, hcons⟩ := exists_cons_of_ne_nil hbatches
        obtain ⟨k, hk⟩ := Nat.exists_eq_succ_of_ne_zero hcount
        obtain ⟨address, haddress⟩ := exists_mem_of_ne_nil batch
          (ne_nil_of_mem_batches (hcons ▸ mem_cons_self))
        refine AList.notMem_empty address (hall address ?_)
        rw [hk, hcons]
        exact mem_append_left _ haddress
      · intro hcount address haddress
        rw [hcount hfailed] at haddress
        cases haddress

def sampleAnswer : (request : ClientRequest) → request.Response
  | .getRecord _ _ => .error .networkDriverOffline
  | .getClosestPeers _ _ => .ok [[1], [2], [3], [4], [5]]
  | .getRecordFromPeer _ _ => .ok none
  | .loadChunk _ => none
  | .storeChunk _ _ => .failed
  | .deleteChunk _ => false
  | .order _ => Equiv.refl _
  | .getClosestPeersKadOnly _ _ => .ok []
  | .getQuote _ peer _ _ => .ok ⟨.ok (sampleQuote peer), .peerId peer⟩
  | .putRecord _ _ _ => .ok ()
  | .getMarketPrice _ => .ok [1]
  | .balanceOfTokens => .ok 10
  | .tokenAllowance _ => .ok 10
  | .approveToSpendTokens _ _ => .ok (bytes32 0)
  | .payForQuotes _ => .ok (bytes32 0, Wallet.noGas)
  | .drawSalts _ => (bytes32, bytes32)
  | .unixTime => .ok Sample.timestamp
  | .getMerkleCandidatePool _ _ _ _ =>
    .ok (Vector.replicate candidatesPerPool (Sample.candidate 0))
  | .estimateMerkleTreeCost _ _ _ => .ok 0
  | .payForMerkleTree _ _ _ => .ok (bytes32 0, Wallet.noGas)
  | .merklePaymentEvent _ => .ok (bytes32 0, 0)
  | .encryptDirectoryFiles _ _ => .ok []
  | .random => bytes32 0

/-- A chunk is paid for and its payment handed back, and so is a tree over two addresses. -/
theorem confirmed_payments_kept_sample :
    (∃ es r, Runs (sampleClient.pay .chunk [(bytes32 1, 1)] ⟨.arbitrumOne⟩) es r ∧
      (∃ e ∈ es, confirmedPayments e ≠ []) ∧
      ∀ e ∈ es, ∀ payment ∈ confirmedPayments e, HandedBack sampleClient r payment) ∧
    ∃ es receipt, Runs (sampleClient.payForMerkleBatch .chunk [bytes32 1, bytes32 2] 1
        ⟨.arbitrumOne⟩) es (.ok receipt) ∧ es.countP treeConfirmed = 1 ∧
      bytes32 1 ∈ receipt.proofs := by
  constructor
  · set p := (sampleClient.pay .chunk [(bytes32 1, 1)] ⟨.arbitrumOne⟩).run with hp
    have hconfirmed : ((p.trace sampleAnswer).1.any fun e => confirmedPayments e ≠ []) = true := by
      decide +kernel
    have hfailed : ((p.trace sampleAnswer).1.any paymentFailed) = false := by decide +kernel
    refine ⟨_, _, p.executes_trace sampleAnswer, by simpa using hconfirmed, ?_⟩
    refine ((confirmed_payments_kept_iff sampleClient ⟨.arbitrumOne⟩ .chunk).1 _ _ _
      (p.executes_trace sampleAnswer)).mpr fun h => ?_
    obtain ⟨e, he, hfails⟩ := h
    exact absurd (any_eq_true.mpr ⟨e, he, hfails⟩) (by rw [hfailed]; exact Bool.false_ne_true)
  · obtain ⟨es, receipt, hpaid⟩ := exists_runs_payForSingleMerkleBatch ⟨.arbitrumOne⟩
      .chunk 1 (candidatesAnswer_simple sampleClient rfl) rfl
      [bytes32 1, bytes32 2] (cons_ne_nil _ _) (by simp)
    have hbatches : batches maxLeaves [bytes32 1, bytes32 2] = [[bytes32 1, bytes32 2]] :=
      batches_of_length_le (cons_ne_nil _ _) (by simp [maxLeaves, maxMerkleDepth])
    have hrun : Runs (sampleClient.payForMerkleBatch .chunk [bytes32 1, bytes32 2] 1
        ⟨.arbitrumOne⟩) es (.ok (MerklePaymentReceipt.empty.merge receipt)) := by
      refine runs_reject_bind (by decide) ?_
      rw [hbatches]
      exact runs_bind_last hpaid runs_return
    obtain ⟨hcount, hnone, -⟩ := runs_payForSingleMerkleBatch_ok hpaid
    refine ⟨es, _, hrun, hcount, ?_⟩
    refine ((confirmed_payments_kept_iff sampleClient ⟨.arbitrumOne⟩ .chunk).2 _ _ _ _ hrun
      (.inr ⟨_, rfl⟩)).mpr (fun hfailed => ?_) (bytes32 1) ?_
    · obtain ⟨e, he, hfails⟩ := hfailed
      rw [hnone e he] at hfails
      cases hfails
    · rw [hcount, hbatches]
      exact mem_cons_self

/-- With 257 addresses the first tree is paid, the second payment fails, and no proof is left. -/
theorem confirmed_payments_lost :
    ¬ ((∀ (client : Client) wallet dataType contentAddrs es r,
        Runs (client.pay dataType contentAddrs wallet) es r →
        (∃ e ∈ es, paymentFailed e = true) →
        ∀ e ∈ es, ∀ payment ∈ confirmedPayments e, HandedBack client r payment) ∧
      ∀ (client : Client) wallet dataType contentAddrs dataSize es r,
        Runs (client.payForMerkleBatch dataType contentAddrs dataSize wallet) es r →
        (∃ e ∈ es, treeFailed e = true) →
        ∀ address ∈ ((batches maxLeaves contentAddrs).take (es.countP treeConfirmed)).flatten,
          address ∈ proofsIn r) := by
  intro h
  set addresses := (List.range 257).map bytes32 with haddresses
  have hlength : addresses.length = 257 := by rw [length_map, length_range]
  have hmax : maxLeaves = 256 := rfl
  have hne : addresses ≠ [] := ne_nil_of_length_pos (by omega)
  have hrest : addresses.drop maxLeaves ≠ [] := ne_nil_of_length_pos (by
    rw [length_drop]
    omega)
  have hbatches : batches maxLeaves addresses
      = [addresses.take maxLeaves, addresses.drop maxLeaves] := by
    rw [batches_of_ne_nil hne, batches_of_length_le hrest (by rw [length_drop]; omega)]
  have hanswer := candidatesAnswer_simple sampleClient rfl
  have hfirst : addresses.take maxLeaves ≠ [] := ne_nil_of_mem_batches
    (hbatches ▸ mem_cons_self)
  obtain ⟨first, receipt, hpaid⟩ := exists_runs_payForSingleMerkleBatch ⟨.arbitrumOne⟩
    .chunk 1 hanswer rfl _ hfirst (length_take_le _ _)
  obtain ⟨second, error, hlost, hnone, e, he, hfailed⟩ :=
    exists_runs_payForSingleMerkleBatch_failed ⟨.arbitrumOne⟩ .chunk 1 hanswer rfl _ hrest
      (by rw [length_drop]; omega)
  have hrun : Runs (sampleClient.payForMerkleBatch .chunk addresses 1 ⟨.arbitrumOne⟩)
      (first ++ second) (.error error) := by
    refine runs_reject_bind (by decide) ?_
    rw [hbatches]
    exact runs_bind_ok hpaid (runs_bind.mpr (.inl ⟨_, hlost, rfl⟩))
  have hkept := h.2 _ _ _ _ _ _ _ hrun ⟨e, mem_append_right first he, hfailed⟩
  obtain ⟨address, haddress⟩ := exists_mem_of_ne_nil _ hfirst
  refine AList.notMem_empty address (hkept address ?_)
  rw [countP_append, (runs_payForSingleMerkleBatch_ok hpaid).1, hnone, hbatches]
  exact mem_append_left _ haddress

end Autonomi.Client
