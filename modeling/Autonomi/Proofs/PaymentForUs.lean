/-
What a proof of payment is checked for, and what it is not.

Two checks of `paymentForUsExistsAndIsStillValid` depend on the proof alone: that this
node is a payee and every quote is signed by its claimed peer, and that the quotes are
for the data type at hand.  The content a quote was issued for is signed, and is never
compared with the address of the record.
-/
import Autonomi.Node.RecordHandlers

namespace Autonomi

open Lib Lib.Fallible

variable {n : Node} {address : NetworkAddress} {dataType : DataTypes} {payment : ProofOfPayment}

/-- The checks that depend on the proof alone. -/
def ProofOfPayment.PassesOwnChecks (payment : ProofOfPayment) (n : Node) (dataType : DataTypes) :
    Prop :=
  payment.verifyFor n.crypto n.rmpMetrics n.peerId = true ∧
    payment.verifyDataType dataType.getIndex = true

def ProofOfPayment.IssuedFor (payment : ProofOfPayment) (n : Node) (address : NetworkAddress) :
    Prop :=
  ∀ pq ∈ payment.peerQuotes, pq.2.content.toList = address.asBytes n.crypto

/-- In these exchanges the contract reports the quote, one of the proof's, as paid. -/
def ProofOfPayment.CountedIn (payment : ProofOfPayment) (n : Node) (es : List NodeExchange)
    (quote : PaymentQuote) : Prop :=
  (∃ pq ∈ payment.peerQuotes, pq.2 = quote) ∧
    ∃ results : Vector PaymentVerificationResult 3,
      (⟨.verifyPayment (payment.digest n.crypto n.rmpMetrics), .ok results⟩ : NodeExchange) ∈ es ∧
        ∃ result ∈ results.toList,
          result.quoteHash = quote.hash n.crypto n.rmpMetrics ∧ result.isValid = true

/-- Whenever the payment is accepted for this address, the counted quotes are for it. -/
def ProofOfPayment.OnlyFor (payment : ProofOfPayment) (n : Node) (dataType : DataTypes)
    (address : NetworkAddress) : Prop :=
  ∀ es, Runs (paymentForUsExistsAndIsStillValid n address dataType payment) es (.ok ()) →
    ∀ quote, payment.CountedIn n es quote → quote.content.toList = address.asBytes n.crypto

/-! ### Acceptance -/

theorem ownChecks_of_runs {es : List NodeExchange}
    (h : Runs (paymentForUsExistsAndIsStillValid n address dataType payment) es (.ok ())) :
    payment.PassesOwnChecks n dataType := by
  rcases runs_reject_bind_iff.mp h with ⟨-, -, hbad⟩ | ⟨hfor, h⟩
  · cases hbad
  rcases runs_reject_bind_iff.mp h with ⟨-, -, hbad⟩ | ⟨htype, -⟩
  · cases hbad
  exact ⟨by simpa using hfor, by simpa using htype⟩

theorem tallyPayments_valid (owned : List QuoteHash) {results : List PaymentVerificationResult}
    (h : ∀ result ∈ results, result.isValid = true) (amount : Amount) :
    ∃ total, tallyPayments owned results amount = .ok total := by
  induction results generalizing amount with
  | nil => exact ⟨amount, rfl⟩
  | cons result rest ih =>
    have hvalid : result.isValid = true := h result List.mem_cons_self
    obtain ⟨total, htotal⟩ := ih (fun r hr => h r (List.mem_cons_of_mem _ hr))
      (if result.quoteHash ∈ owned then amount + result.amountPaid else amount)
    exact ⟨total, by rw [tallyPayments, if_neg (by simp [hvalid]), htotal]⟩

def paidResults (quoteHash : QuoteHash) : Vector PaymentVerificationResult 3 :=
  Vector.replicate 3 { quoteHash, amountPaid := 1, isValid := true }

theorem mem_paidResults {quoteHash : QuoteHash} {result : PaymentVerificationResult} :
    result ∈ (paidResults quoteHash).toList ↔
      result = { quoteHash, amountPaid := 1, isValid := true } := by
  simp [paidResults]

theorem runs_verifyOnChain_paid (key : RecordKey) (owned : List QuoteHash)
    (payments : List (QuoteHash × QuotingMetrics × RewardsAddress)) (quoteHash : QuoteHash) :
    ∃ total, Runs (verifyOnChain key owned payments)
      [⟨.verifyPayment payments, .ok (paidResults quoteHash)⟩] (.ok total) := by
  have hverify : Runs (verifyPayment payments)
      [⟨.verifyPayment payments, .ok (paidResults quoteHash)⟩]
      (.ok (.ok (paidResults quoteHash))) := runs_request.mpr ⟨_, rfl, rfl⟩
  have hvalid : ∀ result ∈ (paidResults quoteHash).toList, result.isValid = true := by
    intro result hresult
    rw [mem_paidResults.mp hresult]
  obtain ⟨total, htotal⟩ := tallyPayments_valid owned hvalid 0
  refine ⟨total, ?_⟩
  refine runs_bind_last (a := Except.ok total) ?_ runs_return
  refine runs_bind_last hverify ?_
  exact runs_pure.mpr ⟨rfl, congrArg Except.ok htotal.symm⟩

/-- **A proof that passes its own checks is accepted for any address**, by a node that
finds the payees close and a contract that reports one of the quotes as paid. -/
theorem accepted_of_checks (h : payment.PassesOwnChecks n dataType) (address : NetworkAddress)
    (quoteHash : QuoteHash) :
    ∃ es, Runs (paymentForUsExistsAndIsStillValid n address dataType payment) es (.ok ()) ∧
      (⟨.verifyPayment (payment.digest n.crypto n.rmpMetrics), .ok (paidResults quoteHash)⟩ :
        NodeExchange) ∈ es := by
  obtain ⟨hfor, htype⟩ := h
  have hclosest : Runs (getKClosestLocalPeersToTheTarget address)
      [⟨.getKClosestLocalPeers address, .ok (payment.payees n.crypto)⟩]
      (.ok (.ok (payment.payees n.crypto))) := runs_request.mpr ⟨_, rfl, rfl⟩
  -- Every payee is among the closest peers, so the density is not asked for.
  have hpayees : ((payment.payees n.crypto).filter fun p => p ∉ payment.payees n.crypto) = [] := by
    rw [List.filter_eq_nil_iff]
    intro p hp
    simp [hp]
  obtain ⟨total, honchain⟩ := runs_verifyOnChain_paid (address.toRecordKey n.crypto)
    ((payment.quotesByPeer n.crypto n.peerId).map (PaymentQuote.hash n.crypto n.rmpMetrics))
    (payment.digest n.crypto n.rmpMetrics) quoteHash
  have hreward : ∃ es, Runs (if total ≠ 0 then notifyPaymentReceived else pure ()) es (.ok ()) := by
    by_cases hzero : total ≠ 0
    · rw [if_pos hzero]
      exact ⟨_, runs_request.mpr ⟨(), rfl, rfl⟩⟩
    · rw [if_neg hzero]
      exact ⟨[], runs_return⟩
  obtain ⟨reward, hreward⟩ := hreward
  refine ⟨⟨.getKClosestLocalPeers address, .ok (payment.payees n.crypto)⟩
    :: ⟨.verifyPayment (payment.digest n.crypto n.rmpMetrics), .ok (paidResults quoteHash)⟩
    :: reward, ?_, List.mem_cons_of_mem _ List.mem_cons_self⟩
  refine runs_bind_ok (runs_reject.mpr ⟨rfl, .inr ⟨by simp [hfor], rfl⟩⟩) ?_
  refine runs_bind_ok (runs_reject.mpr ⟨rfl, .inr ⟨by simp [htype], rfl⟩⟩) ?_
  refine runs_bind_ok hclosest ?_
  refine runs_bind_ok (runs_fromExcept.mpr ⟨rfl, rfl⟩) ?_
  rw [hpayees]
  refine runs_bind_ok runs_return ?_
  refine runs_bind_ok honchain ?_
  exact hreward

/-! ### What acceptance says of the quotes -/

theorem exists_quote_of_checks (h : payment.PassesOwnChecks n dataType) :
    ∃ pq, pq ∈ payment.peerQuotes := by
  have hfor := h.1
  obtain ⟨hpayee, -⟩ := Bool.and_eq_true_iff.mp hfor
  obtain ⟨pq, hpq, -⟩ := List.mem_filterMap.mp (of_decide_eq_true hpayee)
  exact ⟨pq, hpq⟩

theorem onlyFor_iff : payment.OnlyFor n dataType address ↔
    ¬ payment.PassesOwnChecks n dataType ∨ payment.IssuedFor n address := by
  constructor
  · intro honly
    by_cases hchecks : payment.PassesOwnChecks n dataType
    · right
      intro pq hpq
      obtain ⟨es, hruns, hmem⟩ := accepted_of_checks hchecks address
        (pq.2.hash n.crypto n.rmpMetrics)
      exact honly es hruns pq.2 ⟨⟨pq, hpq, rfl⟩, _, hmem, _, mem_paidResults.mpr rfl, rfl, rfl⟩
    · exact .inl hchecks
  · intro h es hruns quote hcounted
    rcases h with hchecks | hissued
    · exact absurd (ownChecks_of_runs hruns) hchecks
    · obtain ⟨⟨pq, hpq, rfl⟩, -⟩ := hcounted
      exact hissued pq hpq

theorem exists_other_address (n : Node) (content : XorName) :
    ∃ address : NetworkAddress, content.toList ≠ address.asBytes n.crypto := by
  by_cases h : content = bytes32 0
  · refine ⟨.chunkAddress (bytes32 1), ?_⟩
    rw [h]
    show (bytes32 0).toList ≠ (bytes32 1).toList
    decide
  · refine ⟨.chunkAddress (bytes32 0), ?_⟩
    intro heq
    exact h (Vector.toList_inj.mp heq)

/--
**When an accepted payment is for the address at hand.**  For one address, when every
quote of the proof was issued for it, unless the proof fails the checks that depend on
it alone.  For all addresses at once, never: every proof that passes those checks can
be presented for an address it was not issued for.
-/
theorem payment_only_for_iff (n : Node) (dataType : DataTypes) (payment : ProofOfPayment) :
    (∀ address, payment.OnlyFor n dataType address ↔
      ¬ payment.PassesOwnChecks n dataType ∨ payment.IssuedFor n address) ∧
    ((∀ address, payment.OnlyFor n dataType address) ↔ ¬ payment.PassesOwnChecks n dataType) := by
  refine ⟨fun address => onlyFor_iff, ?_⟩
  constructor
  · intro honly hchecks
    obtain ⟨pq, hpq⟩ := exists_quote_of_checks hchecks
    obtain ⟨address, hother⟩ := exists_other_address n pq.2.content
    rcases onlyFor_iff.mp (honly address) with hnot | hissued
    · exact hnot hchecks
    · exact hother (hissued pq hpq)
  · intro hnot address
    exact onlyFor_iff.mpr (.inl hnot)

/-! ### A payment presented elsewhere -/

namespace Sample

def node : Node where
  crypto := Crypto.simple
  peerId := [7]
  rmpTarget := fun _ => []
  rmpMetrics := fun _ => []
  serialize := fun v => match v.body with
    | .scratchpad s => [3, s.counter.toUInt8]
    | .pointer p => [2, p.counter.toUInt8]
    | .graphEntries es => [1, UInt8.ofNat es.length]
    | _ => [0]
  scratchpadStructSize := 0

def quote : PaymentQuote where
  content := bytes32 5
  timestamp := timestamp
  quotingMetrics := metrics DataTypes.chunk.getIndex
  rewardsAddress := Vector.replicate 20 9
  pubKey := [7]
  signature := [7]

def proofOfPayment : ProofOfPayment := ⟨[([7], quote)]⟩

theorem proofOfPayment_checks : proofOfPayment.PassesOwnChecks node .chunk :=
  ⟨by decide, by decide⟩

end Sample

/-- Our own quote for one chunk, paid once, is accepted for any other. -/
theorem payment_not_only_for :
    ¬ ∀ (n : Node) (address : NetworkAddress) (dataType : DataTypes) (payment : ProofOfPayment),
      payment.OnlyFor n dataType address := by
  intro h
  obtain ⟨es, hruns, hmem⟩ := accepted_of_checks Sample.proofOfPayment_checks
    (.chunkAddress (bytes32 6)) (Sample.quote.hash Sample.node.crypto Sample.node.rmpMetrics)
  have hcontent := h Sample.node (.chunkAddress (bytes32 6)) .chunk Sample.proofOfPayment es hruns
    Sample.quote
    ⟨⟨_, List.mem_singleton.mpr rfl, rfl⟩, _, hmem, _, mem_paidResults.mpr rfl, rfl, rfl⟩
  have hne : (bytes32 5).toList ≠ (bytes32 6).toList := by decide
  exact hne hcontent

end Autonomi
