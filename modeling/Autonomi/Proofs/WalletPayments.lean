/-
A funded wallet pays.

No step of a payment fails if the contract answers, the prices are not beyond all
measure and the wallet has the tokens.
-/
import Autonomi.Proofs.World

namespace Autonomi.Client

open Lib Lib.Fallible List

namespace Network

variable {client : Client}

/-- From a time on the contract answers a wallet, and the wallet has the tokens. -/
structure Funds (net : Network client) (wallet : Wallet) (time : Nat) : Prop where
  network : wallet.network = client.evmNetwork
  prices : ∀ later metrics, time ≤ later → ∃ amounts, net.marketPrice later metrics = .ok amounts ∧
    ∀ amount ∈ amounts, amount.toNat < 2 ^ 250
  balance : ∀ later, time ≤ later → ∃ balance : Amount,
    net.other later .balanceOfTokens = .ok balance ∧ 2 ^ 255 ≤ balance.toNat
  allowance : ∀ later spender, time ≤ later → ∃ allowance,
    net.other later (.tokenAllowance spender) = .ok allowance
  approves : ∀ later spender amount, time ≤ later → ∃ hash,
    net.other later (.approveToSpendTokens spender amount) = .ok hash
  sends : ∀ later payments, time ≤ later → ∃ sent,
    net.other later (.payForQuotes payments) = .ok sent

variable {net : Network client} {w : World} {address : NetworkAddress}

variable {wallet : Wallet}

theorem Funds.mono {time time' : Nat} (h : time ≤ time') (hfunds : net.Funds wallet time) :
    net.Funds wallet time' where
  network := hfunds.network
  prices later metrics hlater := hfunds.prices later metrics (h.trans hlater)
  balance later hlater := hfunds.balance later (h.trans hlater)
  allowance later spender hlater := hfunds.allowance later spender (h.trans hlater)
  approves later spender amount hlater :=
    hfunds.approves later spender amount (h.trans hlater)
  sends later payments hlater := hfunds.sends later payments (h.trans hlater)

/-! ### Quotes -/

def Answers (client : Client) (stored : Bool)
    (answer : Except NetworkError (Option (PeerId × PaymentQuote))) : Prop :=
  if stored then answer = .ok none
  else ∃ quote, answer = .ok (some quote) ∧ (quote.2.peerId client.crypto).isSome = true

def Serves (client : Client) (w : World) : ClientExchange → Prop
  | ⟨.getClosestPeers _ _, answer⟩ => ∃ peers, answer = .ok peers ∧ closeGroupSize ≤ peers.length
  | ⟨.getQuote address _ dataType _, answer⟩ => ∃ response quote, answer = .ok response ∧
      client.verifyQuote response dataType = .ok quote ∧
      quote.isNone = (w.record client.crypto address).isSome
  | ⟨.getMarketPrice metrics, answer⟩ => ∃ amounts, answer = .ok amounts ∧
      (amounts.length = metrics.length ∨ amounts.length = 1) ∧
      ∀ amount ∈ amounts, amount.toNat < 2 ^ 250
  | ⟨.balanceOfTokens, answer⟩ => ∃ balance : Amount, answer = .ok balance ∧
      2 ^ 255 ≤ balance.toNat
  | ⟨.tokenAllowance _, answer⟩ => ∃ allowance, answer = .ok allowance
  | ⟨.approveToSpendTokens _ _, answer⟩ => ∃ hash, answer = .ok hash
  | ⟨.payForQuotes _, answer⟩ => ∃ sent, answer = .ok sent
  | _ => True

theorem serves_answer (hfunds : net.Funds wallet w.clock) {w' : World} (hstill : w.Still w')
    {request : ClientRequest} (h : ReadsOnly request) :
    Serves client w ⟨request, (net.answer w' request).1⟩ := by
  cases request
  case getClosestPeers => exact ⟨_, rfl, net.closestPeers_enough _ _ _⟩
  case getQuote address peer dataType size =>
    simp only [Serves, answer, hstill.record]
    cases hrecord : w.record client.crypto address with
    | some record => exact ⟨_, none, rfl, rfl, rfl⟩
    | none =>
      obtain ⟨quote, hquote⟩ := net.quote_accepted w'.clock address peer dataType size
      exact ⟨_, some quote, rfl, hquote, rfl⟩
  case getMarketPrice metrics =>
    obtain ⟨amounts, hprice, hsmall⟩ := hfunds.prices w'.clock metrics hstill.clock
    exact ⟨amounts, hprice, net.marketPrice_complete _ _ _ hprice, hsmall⟩
  case balanceOfTokens => exact hfunds.balance _ hstill.clock
  case tokenAllowance => exact hfunds.allowance _ _ hstill.clock
  case approveToSpendTokens => exact hfunds.approves _ _ _ hstill.clock
  case payForQuotes => exact hfunds.sends _ _ hstill.clock
  case putRecord => exact absurd h id
  case random => exact absurd h id
  all_goals trivial

section Programs

variable {R : ClientExchange → Prop} {ε α : Type}

theorem returns_once {Q : α → Prop} {action : ClientM NetworkError α} (h : Returns R Q action) :
    Returns R Q (withRetries action RetryStrategy.once.backoff) := by
  refine returns_bind (returns_attempt h) ?_
  rintro _ ⟨a, rfl, hQ⟩
  exact returns_pure hQ

end Programs

variable (dataType : UInt32)

theorem returns_getQuote (dataSize : Nat) (peer : PeerId) :
    Returns (Serves client w)
      (fun found => Answers client (w.record client.crypto address).isSome (.ok found))
      (client.getQuote address dataType dataSize peer) := by
  refine returns_request_bind ?_
  rintro _ ⟨response, quote, rfl, hquote, hstored⟩
  refine returns_fromExcept_bind rfl (returns_fromExcept_bind hquote (returns_pure ?_))
  rw [← hstored]
  cases quote with
  | none => rfl
  | some quote => exact ⟨_, rfl, (verifyQuote_some hquote).2⟩

variable {answers : List QuoteAnswer}

theorem countQuotes_of_quotes (hall : ∀ answer ∈ answers, Answers client false answer)
    (hmany : closeGroupSize ≤ answers.length) :
    ∃ list, countQuotes answers [] 0 0 = .ok (some list) ∧ list.length = closeGroupSize ∧
      ∀ quote ∈ list, (quote.2.peerId client.crypto).isSome = true := by
  have hpart : collected [] answers <+: answers := collected_prefix answers
  have hnone : reportsIn (collected [] answers) = 0 := by
    refine countP_eq_zero.mpr fun answer hanswer => ?_
    obtain ⟨quote, rfl, -⟩ := hall answer (hpart.subset hanswer)
    exact Bool.false_ne_true
  have henough : closeGroupSize ≤ (quotesIn (collected [] answers)).length := by
    by_cases hrest : collected [] answers = answers
    · rw [hrest, quotesIn, length_filterMap_eq_countP, countP_eq_length.mpr fun answer hanswer => ?_]
      · exact hmany
      · obtain ⟨quote, rfl, -⟩ := hall answer hanswer
        rfl
    · obtain ⟨rest, -, ⟨hlength, -⟩ | hreports⟩ := stops_of_collected_ne answers hrest
      · exact hlength
      · rw [hnone] at hreports
        exact absurd hreports (by decide)
  refine ⟨(quotesIn (collected [] answers)).take closeGroupSize, ?_, ?_, fun quote hquote => ?_⟩
  · rw [countQuotes_eq, decision, if_pos ⟨henough, .inl hnone⟩]
  · rw [length_take, Nat.min_eq_left henough]
  · obtain ⟨other, heq, hpeer⟩ := hall _ (hpart.subset (mem_quotesIn.mp (mem_of_mem_take hquote)))
    cases heq
    exact hpeer

theorem countQuotes_of_existing (hall : ∀ answer ∈ answers, answer = .ok none)
    (hmany : closeGroupMajority ≤ answers.length) : countQuotes answers [] 0 0 = .ok none := by
  have hpart : collected [] answers <+: answers := collected_prefix answers
  have hnone : quotesIn (collected [] answers) = [] :=
    filterMap_eq_nil_iff.mpr fun answer hanswer => by rw [hall answer (hpart.subset hanswer)]; rfl
  have hreports : closeGroupMajority ≤ reportsIn (collected [] answers) := by
    by_cases hrest : collected [] answers = answers
    · rw [hrest, reportsIn, countP_eq_length.mpr fun answer hanswer => by rw [hall answer hanswer]; rfl]
      exact hmany
    · obtain ⟨rest, -, ⟨hlength, -⟩ | hreports⟩ := stops_of_collected_ne answers hrest
      · rw [hnone] at hlength
        exact absurd hlength (by decide)
      · exact hreports
  rw [countQuotes_eq, decision, hnone, if_neg (fun h => absurd h.1 (by decide)), if_pos hreports]

theorem returns_getQuotes (dataSize : Nat) :
    Returns (Serves client w) (fun found =>
        if (w.record client.crypto address).isSome then found = none
        else ∃ list, found = some list ∧ list.length = closeGroupSize ∧
          ∀ quote ∈ list, (quote.2.peerId client.crypto).isSome = true)
      (client.getQuotes address dataType dataSize) := by
  refine returns_bind (returns_once (Q := fun peers => closeGroupSize ≤ peers.length) ?_)
    fun peers hpeers => ?_
  · refine returns_request_bind ?_
    rintro _ ⟨peers, rfl, hpeers⟩
    exact returns_fromExcept rfl hpeers
  refine returns_bind (returns_each fun peer _ => returns_attempt (returns_getQuote _ _ peer))
    fun results hresults => ?_
  refine returns_bind (returns_inAnyOrder fun _ hperm => hperm) fun arrived hperm => ?_
  rw [hresults.length_eq, ← hperm.length_eq] at hpeers
  have hall : ∀ answer ∈ arrived, Answers client (w.record client.crypto address).isSome answer := by
    intro answer hanswer
    obtain ⟨_, -, found, rfl, hfound⟩ := exists_left_of_forall₂ hresults (hperm.mem_iff.mp hanswer)
    exact hfound
  cases hstored : (w.record client.crypto address).isSome with
  | true =>
    rw [hstored] at hall
    exact returns_fromExcept (countQuotes_of_existing hall (Nat.le_trans (by decide) hpeers)) rfl
  | false =>
    rw [hstored] at hall
    obtain ⟨list, hlist, hfive⟩ := countQuotes_of_quotes hall hpeers
    exact returns_fromExcept hlist ⟨list, rfl, hfive⟩

theorem returns_fetchStoreQuote (content : XorName × Nat) :
    Returns (Serves client w)
      (fun fetched => fetched.1 = content.1 ∧
        (fetched.2 = [] ∨ fetched.2.length = closeGroupSize))
      (client.fetchStoreQuote dataType content) := by
  refine returns_bind (returns_mapError (returns_once (returns_getQuotes _ _)))
    fun found hfound => returns_pure ⟨rfl, ?_⟩
  split at hfound
  · rw [hfound]
    exact .inl rfl
  · obtain ⟨list, rfl, hlength, hpeers⟩ := hfound
    refine .inr (length_filterMap_eq_countP.trans ?_)
    rw [← hlength]
    refine countP_eq_length.mpr fun quote hquote => ?_
    rw [Option.isSome_map]
    exact hpeers quote hquote

/-! ### Prices -/

/-- The prices of the quotes in a list are not beyond all measure. -/
def Affordable (quotes : List PricedQuote) : Prop := ∀ quote ∈ quotes, quote.price.toNat < 2 ^ 250

/-- Quotes for one name end up in one entry, if there are any. -/
theorem entries_foldl_insertQuote {name : XorName} {priced : List (RawQuote × Amount)} :
    ∀ (quotes : StoreQuote) (list : List PricedQuote),
      (∀ entry ∈ priced, entry.1.contentAddr = name ∧ entry.2.toNat < 2 ^ 250) →
      quotes.entries = (if list = [] then [] else [⟨name, list⟩]) → Affordable list →
      ∃ list', (priced.foldl insertQuote quotes).entries
          = (if list' = [] then [] else [⟨name, list'⟩]) ∧
        list'.length = list.length + priced.length ∧ Affordable list' := by
  induction priced with
  | nil => intro quotes list _ hentries hlist; exact ⟨list, hentries, rfl, hlist⟩
  | cons entry priced ih =>
    intro quotes list hpriced hentries hlist
    obtain ⟨⟨rfl, hprice⟩, hpriced⟩ := forall_mem_cons.mp hpriced
    let new : PricedQuote := ⟨entry.1.peer, entry.1.quote, entry.2⟩
    let list₁ : List PricedQuote := (list ++ [new]).insertionSort fun a b => a.price ≤ b.price
    have hlength₁ : list₁.length = list.length + 1 := by
      rw [length_insertionSort, length_append, length_singleton]
    have hentries₁ : (insertQuote quotes entry).entries
        = (if list₁ = [] then [] else [⟨entry.1.contentAddr, list₁⟩]) := by
      rw [if_neg (ne_nil_of_length_eq_add_one hlength₁)]
      split at hentries <;> simp [insertQuote, AList.lookup, *, list₁, new]
    have hlist₁ : Affordable list₁ := by
      intro quote hquote
      rw [mem_insertionSort] at hquote
      rcases mem_append.mp hquote with hquote | hquote
      · exact hlist quote hquote
      · rw [mem_singleton.mp hquote]
        exact hprice
    obtain ⟨list', hfold, hlength, hlist'⟩ := ih _ list₁ hpriced hentries₁ hlist₁
    refine ⟨list', hfold, ?_, hlist'⟩
    rw [hlength, hlength₁, length_cons]
    omega

theorem returns_marketPrices (quotes : List RawQuote) :
    Returns (Serves client w) (fun amounts => amounts.length = quotes.length ∧
      ∀ amount ∈ amounts, amount.toNat < 2 ^ 250) (marketPrices quotes) := by
  refine returns_request_bind ?_
  rintro _ ⟨amounts, rfl, hcomplete, hsmall⟩
  rw [length_map] at hcomplete
  refine returns_fromExcept_bind rfl ?_
  rcases amounts with _ | ⟨value, _ | ⟨second, rest⟩⟩
  · exact returns_pure ⟨hcomplete.resolve_right (by simp), hsmall⟩
  · -- one price is that of every quote
    refine returns_pure ⟨by rw [length_replicate, length_map], fun amount hamount => ?_⟩
    exact hsmall amount (eq_of_mem_replicate hamount ▸ mem_singleton_self value)
  · exact returns_pure ⟨hcomplete.resolve_right (by simp), hsmall⟩

theorem createQuotePayment_of_length (mode : PaymentMode) (name : XorName)
    {quotes : List PricedQuote} (hlength : quotes.length = closeGroupSize)
    (hsmall : Affordable quotes) : ∃ chosen, createQuotePayment mode name quotes = .ok chosen ∧
      chosen ≠ [] ∧ (chosen.map PricedQuote.price).sum.toNat < 2 ^ 255 := by
  match quotes, hlength, hsmall with
  | [q1, q2, q3, q4, q5], _, hsmall =>
    have h3 := hsmall q3 (by simp)
    have h4 := hsmall q4 (by simp)
    have h5 := hsmall q5 (by simp)
    cases mode with
    | standard =>
      refine ⟨_, rfl, by simp, ?_⟩
      simp [PricedQuote.unpaid, BitVec.toNat_add]
      omega
    | singleNode =>
      have hsum : ([q1.unpaid, q2.unpaid, { q3 with price := q3.price * 3 }, q4.unpaid,
          q5.unpaid].map PricedQuote.price).sum.toNat = q3.price.toNat * 3 % 2 ^ 256 := by
        simp [PricedQuote.unpaid, BitVec.toNat_mul]
      refine ⟨_, rfl, by simp, ?_⟩
      rw [hsum]
      exact Nat.lt_of_le_of_lt (Nat.mod_le _ _) (by omega)

theorem collectQuotes_singleton (name : XorName) (quotes : List (PeerId × PaymentQuote)) :
    client.collectQuotes [.ok (name, quotes)] = .ok (client.closestQuotes name quotes) :=
  congrArg Except.ok (append_nil _)

theorem length_closestQuotes {name : XorName} {quotes : List (PeerId × PaymentQuote)}
    (hlength : quotes.length = closeGroupSize) :
    (client.closestQuotes name quotes).length = closeGroupSize := by
  rw [closestQuotes, length_map, length_take, length_insertionSort, hlength, Nat.min_self]

theorem returns_getStoreQuotes (dataType : DataTypes) (name : XorName) (size : Nat) :
    Returns (Serves client w) (fun quotes => quotes.entries = [] ∨
        ∃ chosen, quotes.entries = [⟨name, chosen⟩] ∧ chosen ≠ [] ∧
          (chosen.map PricedQuote.price).sum.toNat < 2 ^ 255)
      (client.getStoreQuotes dataType [(name, size)]) := by
  refine returns_bind (Q := fun raw => ∃ fetched, raw = [.ok (name, fetched)] ∧
    (fetched = [] ∨ fetched.length = closeGroupSize)) ?_ ?_
  · refine returns_bind (returns_each fun content _ =>
      returns_attempt (returns_fetchStoreQuote _ content)) fun results hresults => ?_
    obtain ⟨_, _, ⟨⟨_, fetched⟩, rfl, rfl, hfetched⟩, hnil, rfl⟩ :=
      forall₂_cons_left_iff.mp hresults
    rw [forall₂_nil_left_iff.mp hnil]
    exact returns_inAnyOrder fun raw hperm => ⟨fetched, perm_singleton.mp hperm, hfetched⟩
  rintro _ ⟨fetched, rfl, hfetched⟩
  refine returns_fromExcept_bind (collectQuotes_singleton name fetched) ?_
  refine returns_bind (returns_each fun batch _ => returns_marketPrices batch)
    fun prices hprices => ?_
  have hlength : prices.flatten.length = (client.closestQuotes name fetched).length := by
    rw [length_flatten_of_forall₂ (hprices.imp fun _ _ h => h.1), flatten_batches]
  have hpriced : ∀ entry ∈ (client.closestQuotes name fetched).zip prices.flatten,
      entry.1.contentAddr = name ∧ entry.2.toNat < 2 ^ 250 := by
    intro entry hentry
    obtain ⟨hquote, hamount⟩ := of_mem_zip hentry
    obtain ⟨amounts, hamounts, hmem⟩ := mem_flatten.mp hamount
    obtain ⟨_, -, -, hsmall⟩ := exists_left_of_forall₂ hprices hamounts
    exact ⟨(of_mem_closestQuotes hquote).1, hsmall _ hmem⟩
  rcases hfetched with rfl | hfive
  · refine returns_bind (returns_inAnyOrder fun _ hperm => perm_nil.mp hperm) ?_
    rintro _ rfl
    exact returns_fromExcept rfl (.inl rfl)
  · have hzip : ((client.closestQuotes name fetched).zip prices.flatten).length
        = closeGroupSize := by
      rw [length_zip, hlength, Nat.min_self, length_closestQuotes hfive]
    obtain ⟨list, hentries, hlist, haffordable⟩ :=
      entries_foldl_insertQuote ∅ [] hpriced rfl (forall_mem_nil _)
    rw [hzip] at hlist
    rw [if_neg (ne_nil_of_length_eq_add_one hlist)] at hentries
    obtain ⟨chosen, hchosen, hpaid⟩ := createQuotePayment_of_length client.paymentMode name
      hlist haffordable
    refine returns_bind (returns_inAnyOrder fun _ hperm =>
      perm_singleton.mp (hperm.trans (.of_eq hentries))) ?_
    rintro _ rfl
    refine returns_fromExcept (a := (∅ : StoreQuote).insert name chosen) ?_
      (.inr ⟨chosen, rfl, hpaid⟩)
    simp only [processQuotesByPaymentMode, hchosen]
    rfl

/-! ### Transfers -/

theorem returns_ensureTokens (spender : Spender) {total : Amount} (htotal : total.toNat < 2 ^ 255) :
    Returns (Serves client w) (fun _ => True) (Wallet.ensureTokens spender total) := by
  refine returns_request_bind ?_
  rintro _ ⟨balance, rfl, henough⟩
  have hfunded : ¬ balance < total := by
    rw [BitVec.lt_def]
    omega
  refine returns_fromExcept_bind rfl (returns_reject_bind hfunded (returns_request_bind ?_))
  rintro _ ⟨allowance, rfl⟩
  refine returns_fromExcept_bind rfl ?_
  by_cases hless : allowance < total
  · rw [if_pos hless]
    refine returns_request_bind ?_
    rintro _ ⟨hash, rfl⟩
    exact returns_fromExcept_bind rfl (returns_pure trivial)
  · rw [if_neg hless]
    exact returns_pure trivial

theorem returns_payBatches (bs : List (List QuotePayment)) (hashes : Wallet.TxHashes)
    (gas : Retry.GasInfo) :
    Returns (Serves client w) (fun _ => True) (Wallet.payBatches bs hashes gas) := by
  induction bs generalizing hashes gas with
  | nil => exact returns_pure trivial
  | cons batch bs ih =>
    refine returns_request_bind ?_
    rintro _ ⟨⟨hash, info⟩, rfl⟩
    exact ih _ _

theorem returns_pay (hnetwork : wallet.network = client.evmNetwork) (dataType : DataTypes)
    (name : XorName) (size : Nat) :
    Returns (Serves client w)
      (fun paid => ∀ proof price, paid.1.lookup name = some (proof, price) → price.toNat < 2 ^ 255)
      (client.pay dataType [(name, size)] wallet) := by
  refine returns_reject_bind (not_not_intro hnetwork) ?_
  refine returns_bind (returns_mapError (returns_getStoreQuotes dataType name size))
    fun quotes hquotes => ?_
  rcases hquotes with hnone | ⟨chosen, hone, hne, hsum⟩
  · rw [if_neg (not_not_intro hnone)]
    refine returns_pure fun proof price hlookup => ?_
    rw [receiptFromStoreQuotes, hnone] at hlookup
    cases hlookup
  · rw [if_pos (by rw [hone]; exact cons_ne_nil _ _)]
    refine returns_bind (returns_inAnyOrder fun _ hperm =>
      perm_singleton.mp (hperm.trans (.of_eq hone))) ?_
    rintro _ rfl
    have hpayments : client.payments [⟨name, chosen⟩] = chosen.map fun quote =>
        (⟨client.quoteHash quote, quote.quote.rewardsAddress, quote.price⟩ : QuotePayment) :=
      append_nil _
    have htotal : ((client.payments [⟨name, chosen⟩]).map QuotePayment.amount).sum.toNat
        < 2 ^ 255 := by
      rw [hpayments, map_map]
      exact hsum
    refine returns_bind (returns_mapError (returns_bind (returns_mapError
      (returns_ensureTokens .dataPayments htotal)) fun _ _ => returns_payBatches _ _ _))
      fun _ _ => returns_pure fun proof price hlookup => ?_
    rw [receiptFromStoreQuotes, hone] at hlookup
    simp only [receiptFromStoreQuotesFiltered, Option.all_none, filter_true, if_neg hne,
      AList.lookup_insert] at hlookup
    cases hlookup
    exact hsum

theorem paysFor_of_funds (hfunds : net.Funds wallet w.clock) (dataType : DataTypes)
    (name : XorName) (size : Nat) : net.PaysFor dataType name size (.wallet wallet) w := by
  obtain ⟨es, hruns, hserves, -⟩ := runs_runIn (I := w.Still)
    (asks_payForContentAddrs client dataType [(name, size)] (.wallet wallet))
    (fun _ _ hs hq => ⟨serves_answer hfunds hs hq, hs.trans (net.answer_still _ hq)⟩)
    (World.Still.refl w)
  obtain ⟨⟨receipt, free⟩, hok, hprice⟩ :=
    returns_pay hfunds.network dataType name size _ _ hruns hserves
  exact ⟨receipt, free, hok, hprice⟩

/-- **A funded wallet pays.** -/
theorem Funds.pays {time : Nat} (hfunds : net.Funds wallet time) : net.Pays (.wallet wallet) time :=
  fun dataType name size _ hw => paysFor_of_funds (hfunds.mono hw) dataType name size

theorem pays_receipt {own : Receipt} {time : Nat}
    (hprices : ∀ name proof price, own.lookup name = some (proof, price) → price.toNat < 2 ^ 255) :
    net.Pays (.receipt own) time :=
  fun _ name _ _ _ => ⟨own, 0, rfl, fun proof price => hprices name proof price⟩

end Network

/-! ### A network that works -/

def sampleResponse (peer : PeerId) (dataType : UInt32) : QuoteResponse :=
  ⟨.ok { sampleQuote peer with quotingMetrics := Sample.metrics dataType }, .peerId peer⟩

def hashingClient (hash : Bytes → Bytes32) : Client :=
  .withDefaults { Crypto.simple with sha3_256 := hash } (fun _ => []) (fun _ => []) 0 0 0

variable (hash : Bytes → Bytes32)

theorem sampleResponse_accepted (peer : PeerId) (dataType : UInt32) :
    ∃ accepted, (hashingClient hash).verifyQuote (sampleResponse peer dataType) dataType
      = .ok (some accepted) := by
  let quote := { sampleQuote peer with quotingMetrics := Sample.metrics dataType }
  have hsigned : quote.checkIsSignedByClaimedPeer (hashingClient hash).crypto
      (hashingClient hash).rmpMetrics peer = true := by
    simp [PaymentQuote.checkIsSignedByClaimedPeer, quote, sampleQuote, hashingClient, withDefaults,
      Crypto.simple]
  refine ⟨quote, ?_⟩
  simp only [verifyQuote, sampleResponse, Checks.bind_eq_ok, Checks.reject_eq_ok]
  exact ⟨peer, rfl, (), not_not_intro hsigned, (), not_not_intro rfl, rfl⟩

/-- As many peers hold a record as are asked for, five peers quote for it, no put fails and the
wallet never runs out of tokens. -/
def hashingNetwork (hash : Bytes → Bytes32) : Network (hashingClient hash) where
  query _ _ quorum
    | none => ⟨[], .notFound⟩
    | some record => ⟨((List.range quorum.amount).map (List.replicate · 0)).map fun peer =>
      (some peer, record), .notFound⟩
  query_finds _ _ quorum stored := by
    cases stored with
    | none => rfl
    | some record =>
      refine updateGetRecord_unanimous _ [] ?_ (forall_mem_nil _) quorum.amount_pos (by simp)
      refine List.Nodup.map (fun n m h => ?_) nodup_range
      simpa using congrArg List.length h
  closestPeers _ _ _ := [[1], [2], [3], [4], [5]]
  closestPeers_enough _ _ _ := Nat.le_refl 5
  quote _ _ peer dataType _ := sampleResponse peer dataType
  quote_accepted _ _ peer dataType _ := sampleResponse_accepted hash peer dataType
  marketPrice _ _ := .ok [1]
  marketPrice_complete _ _ _ h := .inr (by rw [← Except.ok.inj h]; rfl)
  putFails _ := none
  refusal _ := .networkDriverOffline
  random n := bytes32 (n + 1)
  other _
    | .balanceOfTokens => .ok (BitVec.allOnes 256)
    | request => sampleAnswer request

theorem hashingNetwork_funds (time : Nat) :
    (hashingNetwork hash).Funds ⟨.arbitrumOne⟩ time where
  network := rfl
  prices _ _ _ := ⟨[1], rfl, by simp⟩
  balance _ _ := ⟨BitVec.allOnes 256, rfl, by simp⟩
  allowance _ _ _ := ⟨_, rfl⟩
  approves _ _ _ _ := ⟨_, rfl⟩
  sends _ _ _ := ⟨_, rfl⟩

theorem hashingNetwork_puts {strategy : Strategy} (hretry : strategy.putRetry.backoff ≠ 0)
    (time : Nat) : ¬ (hashingNetwork hash).PutsCanFail strategy time := by
  rintro (hnone | ⟨later, -, hfails⟩)
  · exact hretry hnone
  · exact hfails rfl

def workingNetwork : Network sampleClient := hashingNetwork polyHash

def emptyWorld : World := ⟨fun _ => none, [], 0⟩

end Autonomi.Client
