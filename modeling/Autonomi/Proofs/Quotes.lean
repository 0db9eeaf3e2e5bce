/-
An address without a quote was reported to exist.

A client that pays asks the closest peers for quotes.  It takes an address to be stored
already when a majority of a close group says so, and gets quotes for it otherwise.  So
an address that is missing in the receipt is one that peers reported.

The prices come from the contract, which gives one for each quote or a single one for
all of them.
-/
import Autonomi.Client.Payment

namespace Autonomi.Client

open Lib Lib.Fallible List

def reportsExisting (address : NetworkAddress) : ClientExchange → Bool
  | ⟨.getQuote asked _ _ _, .ok ⟨.error .recordExists, _⟩⟩ => asked = address
  | _ => false

def quotesFor (address : NetworkAddress) : ClientExchange → Bool
  | ⟨.getQuote asked _ _ _, .ok ⟨.ok _, _⟩⟩ => asked = address
  | _ => false

/-- As many reports for a chunk as make a majority of a close group. -/
def ReportedExisting (name : XorName) (es : List ClientExchange) : Prop :=
  closeGroupMajority ≤ es.countP (reportsExisting (.chunkAddress name))

/-- The contract gives one price for each of the metrics, or one for all. -/
def PricesComplete (es : List ClientExchange) : Prop :=
  ∀ metrics amounts, (⟨.getMarketPrice metrics, .ok amounts⟩ : ClientExchange) ∈ es →
    amounts.length = metrics.length ∨ amounts.length = 1

variable {part es : List ClientExchange}

theorem ReportedExisting.mono {name : XorName} (h : ReportedExisting name part)
    (hsub : part.Sublist es) : ReportedExisting name es :=
  h.trans hsub.countP_le

theorem PricesComplete.mono (h : PricesComplete es) (hsub : part ⊆ es) : PricesComplete part :=
  fun metrics amounts hmem => h metrics amounts (hsub hmem)

variable {client : Client} {es : List ClientExchange}

/-! ### The quotes for one address -/

def saysExisting : Except NetworkError (Option (PeerId × PaymentQuote)) → Bool
  | .ok none => true
  | _ => false

/-- What a peer that was asked for a quote comes to: a quote, a report that it holds the
record, or a failure. -/
abbrev QuoteAnswer := Except NetworkError (Option (PeerId × PaymentQuote))

def QuoteAnswer.quote? : QuoteAnswer → Option (PeerId × PaymentQuote)
  | .ok found => found
  | .error _ => none

def QuoteAnswer.failed : QuoteAnswer → Bool
  | .ok _ => false
  | .error _ => true

def quotesIn (answers : List QuoteAnswer) : List (PeerId × PaymentQuote) :=
  answers.filterMap QuoteAnswer.quote?

def reportsIn (answers : List QuoteAnswer) : Nat := answers.countP saysExisting

def failuresIn (answers : List QuoteAnswer) : Nat := answers.countP QuoteAnswer.failed

/-- The loop of `get_quotes` stops here, with the others still to come. -/
def Stops (answers others : List QuoteAnswer) : Prop :=
  (closeGroupSize ≤ (quotesIn answers).length ∧ (reportsIn answers = 0 ∨ others = [])) ∨
    closeGroupMajority ≤ reportsIn answers

instance (answers others : List QuoteAnswer) : Decidable (Stops answers others) :=
  inferInstanceAs (Decidable (_ ∨ _))

def collected : (answers others : List QuoteAnswer) → List QuoteAnswer
  | answers, [] => answers
  | answers, answer :: others =>
    if Stops (answers ++ [answer]) others then answers ++ [answer]
    else collected (answers ++ [answer]) others

/-- The decision by the answers collected, out of all that could have come in. -/
def decision (answers all : List QuoteAnswer) :
    Except NetworkError (Option (List (PeerId × PaymentQuote))) :=
  if closeGroupSize ≤ (quotesIn answers).length ∧ (reportsIn answers = 0 ∨ answers = all) then
    .ok (some ((quotesIn answers).take closeGroupSize))
  else if closeGroupMajority ≤ reportsIn answers then .ok none
  else .error (.insufficientQuotes (quotesIn answers).length (reportsIn answers)
    (failuresIn answers))

variable {answers others : List QuoteAnswer} {answer : QuoteAnswer}

theorem quotesIn_append : quotesIn (answers ++ others) = quotesIn answers ++ quotesIn others :=
  filterMap_append

theorem reportsIn_append : reportsIn (answers ++ others) = reportsIn answers + reportsIn others :=
  countP_append

theorem countQuotes_cons :
    countQuotes (answer :: others) (quotesIn answers) (reportsIn answers) (failuresIn answers)
      = if closeGroupSize ≤ (quotesIn (answers ++ [answer])).length ∧
            (reportsIn (answers ++ [answer]) = 0 ∨ others = []) then
          .ok (some ((quotesIn (answers ++ [answer])).take closeGroupSize))
        else if closeGroupMajority ≤ reportsIn (answers ++ [answer]) then .ok none
        else countQuotes others (quotesIn (answers ++ [answer])) (reportsIn (answers ++ [answer]))
          (failuresIn (answers ++ [answer])) := by
  have hfailures : failuresIn (answers ++ [answer]) = failuresIn answers + failuresIn [answer] :=
    countP_append
  rw [quotesIn_append, reportsIn_append, hfailures]
  match answer with
  | .ok (some quote) => rfl
  | .ok none =>
    rw [show quotesIn [.ok none] = [] from rfl, append_nil]
    rfl
  | .error e =>
    rw [show quotesIn [.error e] = [] from rfl, append_nil]
    rfl

/-- **The loop decides by what it has collected.** -/
theorem countQuotes_eq_decision (others : List QuoteAnswer) :
    ∀ {answers : List QuoteAnswer}, ¬ Stops answers others →
      countQuotes others (quotesIn answers) (reportsIn answers) (failuresIn answers)
        = decision (collected answers others) (answers ++ others) := by
  induction others with
  | nil =>
    intro answers hgoes
    obtain ⟨hquotes, hreports⟩ := not_or.mp hgoes
    rw [collected, decision, if_neg (fun h => hquotes ⟨h.1, .inr rfl⟩), if_neg hreports]
    rfl
  | cons answer others ih =>
    intro answers _
    have hall : answers ++ [answer] = answers ++ answer :: others ↔ others = [] := by
      simp [eq_comm]
    rw [countQuotes_cons, collected]
    by_cases hstops : Stops (answers ++ [answer]) others
    · rw [if_pos hstops, decision]
      simp only [hall]
      by_cases hquotes : closeGroupSize ≤ (quotesIn (answers ++ [answer])).length ∧
          (reportsIn (answers ++ [answer]) = 0 ∨ others = [])
      · rw [if_pos hquotes, if_pos hquotes]
      · have hreports := hstops.resolve_left hquotes
        rw [if_neg hquotes, if_neg hquotes, if_pos hreports, if_pos hreports]
    · obtain ⟨hquotes, hreports⟩ := not_or.mp hstops
      rw [if_neg hstops, if_neg hquotes, if_neg hreports, ih hstops, append_assoc]
      rfl

theorem not_stops_nil : ¬ Stops [] others := by
  rintro (⟨hquotes, -⟩ | hreports)
  · exact absurd hquotes (by decide)
  · exact absurd hreports (by decide)

theorem stops_of_collected_ne (others : List QuoteAnswer) : ∀ {answers : List QuoteAnswer},
    collected answers others ≠ answers ++ others →
      ∃ rest, rest ≠ [] ∧ Stops (collected answers others) rest := by
  induction others with
  | nil =>
    intro answers hne
    exact absurd (append_nil answers).symm hne
  | cons answer others ih =>
    intro answers hne
    rw [collected] at hne ⊢
    by_cases hstops : Stops (answers ++ [answer]) others
    · rw [if_pos hstops] at hne ⊢
      refine ⟨others, ?_, hstops⟩
      rintro rfl
      exact hne rfl
    · rw [if_neg hstops] at hne ⊢
      refine ih ?_
      rwa [append_assoc]

theorem countQuotes_eq (answers : List QuoteAnswer) :
    countQuotes answers [] 0 0 = decision (collected [] answers) answers :=
  countQuotes_eq_decision answers not_stops_nil

theorem collected_prefix (others : List QuoteAnswer) : ∀ {answers : List QuoteAnswer},
    collected answers others <+: answers ++ others := by
  induction others with
  | nil => exact fun {answers} => ⟨[], rfl⟩
  | cons answer others ih =>
    intro answers
    rw [append_cons, collected]
    split
    · exact prefix_append _ _
    · exact ih

theorem mem_quotesIn {quote : PeerId × PaymentQuote} :
    quote ∈ quotesIn answers ↔ .ok (some quote) ∈ answers := by
  rw [quotesIn, mem_filterMap]
  constructor
  · rintro ⟨e | found, hmem, hquote⟩
    · cases hquote
    · obtain rfl : found = some quote := hquote
      exact hmem
  · exact fun hmem => ⟨_, hmem, rfl⟩

variable {found : Option (List (PeerId × PaymentQuote))}

theorem countQuotes_ok (h : countQuotes answers [] 0 0 = .ok found) :
    (found = none → closeGroupMajority ≤ answers.countP saysExisting) ∧
      ∀ list, found = some list → list ≠ [] ∧ ∀ quote ∈ list, .ok (some quote) ∈ answers := by
  have hpart : collected [] answers <+: answers := collected_prefix answers
  rw [countQuotes_eq, decision] at h
  split at h
  · rename_i henough
    cases h
    refine ⟨nofun, fun list hlist => ?_⟩
    cases hlist
    refine ⟨ne_nil_of_length_pos ?_, fun quote hquote => ?_⟩
    · rw [length_take, Nat.min_eq_left henough.1]
      decide
    · exact hpart.subset (mem_quotesIn.mp (mem_of_mem_take hquote))
  · split at h
    · rename_i hmajority
      cases h
      exact ⟨fun _ => hmajority.trans hpart.sublist.countP_le, nofun⟩
    · cases h

variable {dataType : UInt32}

theorem verifyQuote_some {response : QuoteResponse} {quote : PaymentQuote}
    (h : client.verifyQuote response dataType = .ok (some quote)) :
    response.quote = .ok quote ∧ (quote.peerId client.crypto).isSome = true := by
  unfold verifyQuote at h
  split at h
  · cases h
  · cases h
  · rename_i hsent
    simp only [Checks.bind_eq_ok, Checks.reject_eq_ok] at h
    obtain ⟨peerId, -, -, hsigned, -, -, hquote⟩ := h
    cases hquote
    refine ⟨hsent, ?_⟩
    rw [not_not, PaymentQuote.checkIsSignedByClaimedPeer] at hsigned
    rw [PaymentQuote.peerId]
    split at hsigned
    · cases hsigned
    · rename_i hkey
      rw [hkey]
      rfl

theorem verifyQuote_none {response : QuoteResponse}
    (h : client.verifyQuote response dataType = .ok none) :
    response.quote = .error .recordExists := by
  unfold verifyQuote at h
  split at h
  · assumption
  · cases h
  · simp only [Checks.bind_eq_ok] at h
    obtain ⟨_, -, _, -, _, -, hnone⟩ := h
    cases hnone

theorem runs_getQuote {address : NetworkAddress} {dataSize : Nat} {peer : PeerId}
    {found : Option (PeerId × PaymentQuote)}
    (h : Runs (client.getQuote address dataType dataSize peer) es (.ok found)) :
    (found = none → 0 < es.countP (reportsExisting address)) ∧
      ∀ quote, found = some quote →
        (quote.2.peerId client.crypto).isSome = true ∧ ∃ e ∈ es, quotesFor address e = true := by
  obtain ⟨answer, _, rfl, h₁⟩ := runs_request_bind_iff.mp h
  obtain ⟨response, hanswer, h₂⟩ := runs_fromExcept_bind_eq_ok.mp h₁
  obtain ⟨quote, hquote, h₃⟩ := runs_fromExcept_bind_eq_ok.mp h₂
  obtain ⟨rfl, hfound⟩ := runs_pure.mp h₃
  cases hfound
  obtain rfl := hanswer
  constructor
  · intro hnone
    rw [Option.map_eq_none_iff] at hnone
    have hexists := verifyQuote_none (hnone ▸ hquote)
    obtain ⟨refusal, peerAddress⟩ := response
    obtain rfl : refusal = .error .recordExists := hexists
    simp [reportsExisting]
  · intro pair hpair
    obtain ⟨verified, rfl, rfl⟩ := Option.map_eq_some_iff.mp hpair
    obtain ⟨hsent, hpeer⟩ := verifyQuote_some hquote
    obtain ⟨sent, peerAddress⟩ := response
    obtain rfl : sent = .ok verified := hsent
    exact ⟨hpeer, _, mem_singleton_self _, by simp [quotesFor]⟩

theorem runs_getQuotes {address : NetworkAddress} {dataSize : Nat}
    (h : Runs (client.getQuotes address dataType dataSize) es (.ok found)) :
    (found = none → closeGroupMajority ≤ es.countP (reportsExisting address)) ∧
      ∀ quotes, found = some quotes → quotes ≠ [] ∧ ∀ quote ∈ quotes,
        (quote.2.peerId client.crypto).isSome = true ∧ ∃ e ∈ es, quotesFor address e = true := by
  obtain ⟨first, _, peers, rfl, -, h₁⟩ := runs_bind_eq_ok.mp h
  obtain ⟨asked, _, results, rfl, hasked, h₂⟩ := runs_bind_eq_ok.mp h₁
  obtain ⟨order, _, rfl, h₃⟩ := runs_inAnyOrder_bind_iff.mp h₂
  obtain ⟨rfl, hcount⟩ := runs_fromExcept.mp h₃
  have hperm := arrange_perm results order
  obtain ⟨hnone, hsome⟩ := countQuotes_ok hcount.symm
  constructor
  · intro heq
    have hmajority := hnone heq
    rw [hperm.countP_eq] at hmajority
    have hreports : results.countP saysExisting ≤ asked.countP (reportsExisting address) := by
      refine countP_le_of_runs_each ?_ hasked
      intro peer part result hpart hresult
      obtain ⟨x, hx, hxe⟩ := runs_attempt.mp hpart
      cases hxe
      match result, hx, hresult with
      | .ok none, hx, _ => exact (runs_getQuote hx).1 rfl
    rw [countP_append, countP_append]
    omega
  · intro quotes heq
    obtain ⟨hne, hall⟩ := hsome quotes heq
    refine ⟨hne, fun quote hquote => ?_⟩
    have hmem := hperm.mem_iff.mp (hall quote hquote)
    obtain ⟨peer, -, part, hsub, hpart⟩ := exists_left_of_forall₂ (forall₂_of_runs_each hasked) hmem
    obtain ⟨x, hx, hxe⟩ := runs_attempt.mp hpart
    cases hxe
    obtain ⟨hpeer, e, he, hquotes⟩ := (runs_getQuote hx).2 quote rfl
    exact ⟨hpeer, e, mem_append_right _ (mem_append_left _ (hsub.subset he)), hquotes⟩

theorem runs_fetchStoreQuote {content : XorName × Nat}
    {fetched : XorName × List (PeerId × PaymentQuote)}
    (h : Runs (client.fetchStoreQuote dataType content) es (.ok fetched)) :
    fetched.1 = content.1 ∧ (fetched.2 = [] → ReportedExisting content.1 es) ∧
      (fetched.2 ≠ [] → ∃ e ∈ es, quotesFor (.chunkAddress content.1) e = true) := by
  obtain ⟨_, _, found, rfl, hfound, h₁⟩ := runs_bind_eq_ok.mp h
  obtain ⟨rfl, hfetched⟩ := runs_pure.mp h₁
  cases hfetched
  obtain ⟨before, last, rfl, hlast⟩ := runs_withRetries_ok (runs_mapError_ok.mp hfound)
  obtain ⟨hnone, hsome⟩ := runs_getQuotes hlast
  rw [append_nil]
  cases found with
  | none =>
    have hreported : ReportedExisting content.1 last := hnone rfl
    exact ⟨rfl, fun _ => hreported.mono (sublist_append_right before last),
      fun hne => absurd rfl hne⟩
  | some quotes =>
    obtain ⟨hne, hall⟩ := hsome quotes rfl
    obtain ⟨quote, hquote⟩ := exists_mem_of_ne_nil quotes hne
    obtain ⟨hpeer, e, he, hquotes⟩ := hall quote hquote
    refine ⟨rfl, fun hempty => ?_, fun _ => ⟨e, mem_append_right before he, hquotes⟩⟩
    obtain ⟨peerId, hpeerId⟩ := Option.isSome_iff_exists.mp hpeer
    have hdropped := filterMap_eq_nil_iff.mp hempty quote hquote
    rw [hpeerId] at hdropped
    cases hdropped

/-! ### The quotes for all addresses -/

theorem collectQuotes_ok
    {results : List (Except CostError (XorName × List (PeerId × PaymentQuote)))}
    {all : List RawQuote} (h : client.collectQuotes results = .ok all) :
    (∀ result ∈ results, ∃ fetched, result = .ok fetched ∧
      ∀ quote ∈ client.closestQuotes fetched.1 fetched.2, quote ∈ all) ∧
    ∀ quote ∈ all, ∃ fetched, .ok fetched ∈ results ∧
      quote ∈ client.closestQuotes fetched.1 fetched.2 := by
  induction results generalizing all with
  | nil =>
    cases h
    exact ⟨forall_mem_nil _, forall_mem_nil _⟩
  | cons first results ih =>
    simp only [collectQuotes, Checks.bind_eq_ok] at h
    obtain ⟨fetched, rfl, rest, hrest, hall⟩ := h
    cases hall
    obtain ⟨hresults, hquotes⟩ := ih hrest
    constructor
    · intro result hresult
      rcases mem_cons.mp hresult with rfl | hresult
      · exact ⟨fetched, rfl, fun quote hquote => mem_append_left _ hquote⟩
      · obtain ⟨other, hother, hmem⟩ := hresults result hresult
        exact ⟨other, hother, fun quote hquote => mem_append_right _ (hmem quote hquote)⟩
    · intro quote hquote
      rcases mem_append.mp hquote with hquote | hquote
      · exact ⟨fetched, mem_cons_self, hquote⟩
      · obtain ⟨other, hother, hmem⟩ := hquotes quote hquote
        exact ⟨other, mem_cons_of_mem _ hother, hmem⟩

variable {rawQuotes : List (PeerId × PaymentQuote)}

theorem of_mem_closestQuotes {contentAddr : XorName} {quote : RawQuote}
    (h : quote ∈ client.closestQuotes contentAddr rawQuotes) :
    quote.contentAddr = contentAddr ∧ rawQuotes ≠ [] := by
  obtain ⟨raw, hraw, rfl⟩ := mem_map.mp h
  refine ⟨rfl, ?_⟩
  rintro rfl
  exact absurd (mem_of_mem_take hraw) not_mem_nil

theorem exists_closestQuote (client : Client) (contentAddr : XorName) (h : rawQuotes ≠ []) :
    ∃ quote ∈ client.closestQuotes contentAddr rawQuotes, quote.contentAddr = contentAddr := by
  obtain ⟨first, rest, hsorted⟩ := exists_cons_of_ne_nil (l := rawQuotes.insertionSort fun a b =>
      (NetworkAddress.peerId a.1).distance client.crypto (.chunkAddress contentAddr)
        ≤ (NetworkAddress.peerId b.1).distance client.crypto (.chunkAddress contentAddr)) (by
    rw [← length_pos_iff, length_insertionSort]
    exact length_pos_iff.mpr h)
  refine ⟨⟨contentAddr, first.1, first.2⟩, ?_, rfl⟩
  simp only [closestQuotes, hsorted]
  exact mem_cons_self

variable {quotes : List (List RawQuote)}

theorem length_flatten_of_forall₂ {prices : List (List Amount)}
    (h : List.Forall₂ (fun batch amounts => List.length amounts = List.length batch) quotes prices) :
    prices.flatten.length = quotes.flatten.length := by
  induction h with
  | nil => rfl
  | cons hlength _ ih =>
    rw [flatten_cons, flatten_cons, length_append, length_append, hlength, ih]

theorem length_prices {prices : List (List Amount)} (hprices : PricesComplete es)
    (h : Runs (Fallible.each marketPrices quotes) es (.ok prices)) :
    prices.flatten.length = quotes.flatten.length := by
  refine length_flatten_of_forall₂ ((forall₂_of_runs_each h).imp ?_)
  intro batch amounts hpart
  obtain ⟨part, hsub, hrun⟩ := hpart
  obtain ⟨answer, _, rfl, h₁⟩ := runs_request_bind_iff.mp hrun
  obtain ⟨given, hgiven, h₂⟩ := runs_fromExcept_bind_eq_ok.mp h₁
  obtain rfl := Checks.mapError_eq_ok.mp hgiven
  have hcomplete := hprices _ given (hsub.subset mem_cons_self)
  rw [length_map] at hcomplete
  match given, h₂, hcomplete with
  | [], h₂, hcomplete =>
    obtain ⟨-, hamounts⟩ := runs_pure.mp h₂
    rw [Except.ok.inj hamounts]
    exact hcomplete.resolve_right (by simp)
  | [value], h₂, _ =>
    obtain ⟨-, hamounts⟩ := runs_pure.mp h₂
    rw [Except.ok.inj hamounts, length_replicate, length_map]
  | first :: second :: rest, h₂, hcomplete =>
    obtain ⟨-, hamounts⟩ := runs_pure.mp h₂
    rw [Except.ok.inj hamounts]
    exact hcomplete.resolve_right (by simp)

variable {quotes : StoreQuote}

theorem mem_foldl_insertQuote {address : XorName} {priced : List (RawQuote × Amount)} :
    address ∈ priced.foldl insertQuote quotes ↔
      address ∈ quotes ∨ ∃ entry ∈ priced, entry.1.contentAddr = address := by
  induction priced generalizing quotes with
  | nil => simp
  | cons first priced ih =>
    rw [foldl_cons, ih, insertQuote, AList.mem_insert, exists_mem_cons_iff, eq_comm,
      or_assoc, or_left_comm]

theorem createQuotePayment_ne_nil {mode : PaymentMode} {contentAddr : XorName}
    {quotes paid : List PricedQuote} (h : createQuotePayment mode contentAddr quotes = .ok paid) :
    paid ≠ [] := by
  unfold createQuotePayment at h
  split at h
  · cases h
    cases mode with
    | standard | singleNode => exact cons_ne_nil _ _
  · cases h

variable {entries : List (Sigma fun _ : XorName => List PricedQuote)}

/-- What is to be paid has all the addresses and no others, each with some quotes. -/
theorem processQuotesByPaymentMode_ok {mode : PaymentMode}
    (h : processQuotesByPaymentMode mode entries = .ok quotes) :
    (∀ address, address ∈ quotes ↔ ∃ entry ∈ entries, entry.1 = address) ∧
      ∀ address list, quotes.lookup address = some list → list ≠ [] := by
  induction entries generalizing quotes with
  | nil =>
    cases h
    refine ⟨fun address => ?_, fun address list hlist => ?_⟩
    · simp
    · cases hlist
  | cons first entries ih =>
    obtain ⟨contentAddr, found⟩ := first
    simp only [processQuotesByPaymentMode, Checks.bind_eq_ok] at h
    obtain ⟨paid, hpaid, rest, hrest, hquotes⟩ := h
    cases hquotes
    obtain ⟨hmem, hne⟩ := ih hrest
    refine ⟨fun address => ?_, fun address list hlist => ?_⟩
    · rw [AList.mem_insert, hmem, exists_mem_cons_iff, eq_comm]
    · by_cases hsame : address = contentAddr
      · rw [hsame, AList.lookup_insert] at hlist
        rw [← Option.some.inj hlist]
        exact createQuotePayment_ne_nil hpaid
      · rw [AList.lookup_insert_ne hsame] at hlist
        exact hne address list hlist

variable {contentAddrs : List (XorName × Nat)}

theorem runs_getStoreQuotes {dataType : DataTypes} (hprices : PricesComplete es)
    (h : Runs (client.getStoreQuotes dataType contentAddrs) es (.ok quotes)) :
    (∀ content ∈ contentAddrs, content.1 ∈ quotes ∨ ReportedExisting content.1 es) ∧
      (∀ address ∈ quotes, ∃ e ∈ es, quotesFor (.chunkAddress address) e = true) ∧
      ∀ address list, quotes.lookup address = some list → list ≠ [] := by
  obtain ⟨asked, _, raw, rfl, hraw, h₁⟩ := runs_bind_eq_ok.mp h
  obtain ⟨all, hall, h₂⟩ := runs_fromExcept_bind_eq_ok.mp h₁
  obtain ⟨priced, _, prices, rfl, hpriced, h₃⟩ := runs_bind_eq_ok.mp h₂
  obtain ⟨order, _, rfl, h₄⟩ := runs_inAnyOrder_bind_iff.mp h₃
  obtain ⟨rfl, hpaid⟩ := runs_fromExcept.mp h₄
  obtain ⟨hentries, hne⟩ := processQuotesByPaymentMode_ok hpaid.symm
  obtain ⟨fetches, _, results, rfl, hresults, h₅⟩ := runs_bind_eq_ok.mp hraw
  obtain ⟨arrived, rfl, hrawEq⟩ := runs_inAnyOrder.mp h₅
  cases hrawEq
  have hfetches := forall₂_of_runs_each hresults
  have harrived := fun result => (arrange_perm results arrived).mem_iff (a := result)
  obtain ⟨hcollected, hfrom⟩ := collectQuotes_ok hall
  have hlength : prices.flatten.length = all.length := by
    rw [length_prices (hprices.mono ?_) hpriced, flatten_batches]
    exact fun e he => mem_append_right _ (mem_append_left _ he)
  have hzip : (all.zip prices.flatten).map Prod.fst = all :=
    map_fst_zip (Nat.le_of_eq hlength.symm)
  -- The addresses in the result are those of the quotes collected.
  have hkeys : ∀ address, address ∈ quotes ↔ ∃ quote ∈ all, quote.contentAddr = address := by
    intro address
    have hkey : address ∈ (all.zip prices.flatten).foldl insertQuote ∅ ↔
        ∃ quote ∈ all, quote.contentAddr = address := by
      rw [mem_foldl_insertQuote, or_iff_right (AList.notMem_empty address)]
      constructor
      · rintro ⟨entry, hentry, rfl⟩
        exact ⟨entry.1, hzip ▸ mem_map_of_mem hentry, rfl⟩
      · rintro ⟨quote, hquote, rfl⟩
        rw [← hzip] at hquote
        obtain ⟨entry, hentry, rfl⟩ := mem_map.mp hquote
        exact ⟨entry, hentry, rfl⟩
    rw [hentries, ← hkey, AList.mem_keys, AList.keys, List.keys, mem_map]
    exact exists_congr fun entry => and_congr_left fun _ => (arrange_perm _ order).mem_iff
  refine ⟨fun content hcontent => ?_, fun address haddress => ?_, hne⟩
  · -- The answer for this address is among those collected.
    obtain ⟨result, hmem, part, hsub, hpart⟩ := exists_right_of_forall₂ hfetches hcontent
    obtain ⟨outcome, hfetch, houtcome⟩ := runs_attempt.mp hpart
    cases houtcome
    obtain ⟨fetched, rfl, hquotes⟩ := hcollected result ((harrived result).mpr hmem)
    obtain ⟨haddress, hreported, -⟩ := runs_fetchStoreQuote hfetch
    by_cases hempty : fetched.2 = []
    · refine .inr ((hreported hempty).mono (hsub.trans ?_))
      exact (sublist_append_left fetches _).trans (sublist_append_left _ _)
    · obtain ⟨quote, hquote, hcontentAddr⟩ := exists_closestQuote client fetched.1 hempty
      exact .inl ((hkeys _).mpr ⟨quote, hquotes quote hquote, hcontentAddr.trans haddress⟩)
  · -- A quote that was collected comes from a fetch that brought quotes.
    obtain ⟨quote, hquote, rfl⟩ := (hkeys address).mp haddress
    obtain ⟨fetched, hfetched, hclosest⟩ := hfrom quote hquote
    obtain ⟨content, -, part, hsub, hpart⟩ :=
      exists_left_of_forall₂ hfetches ((harrived _).mp hfetched)
    obtain ⟨outcome, hfetch, houtcome⟩ := runs_attempt.mp hpart
    cases houtcome
    obtain ⟨hcontent, hsome⟩ := of_mem_closestQuotes hclosest
    obtain ⟨haddress, -, hquoted⟩ := runs_fetchStoreQuote hfetch
    obtain ⟨e, he, hquotes⟩ := hquoted hsome
    rw [hcontent, haddress]
    exact ⟨e, mem_append_left _ (mem_append_left _ (hsub.subset he)), hquotes⟩

theorem mem_of_mem_receiptFromStoreQuotesFiltered {paid : Option (Finset QuoteHash)}
    {address : XorName} (h : address ∈ client.receiptFromStoreQuotesFiltered paid entries) :
    ∃ entry ∈ entries, entry.1 = address := by
  induction entries with
  | nil => exact absurd h (AList.notMem_empty address)
  | cons first entries ih =>
    simp only [receiptFromStoreQuotesFiltered] at h
    rw [exists_mem_cons_iff]
    split at h
    · exact .inr (ih h)
    · rw [AList.mem_insert] at h
      rcases h with rfl | h
      · exact .inl rfl
      · exact .inr (ih h)

theorem lookup_receiptFromStoreQuotesFiltered (client : Client) (hkeys : entries.NodupKeys)
    {entry : Sigma fun _ : XorName => List PricedQuote} (hmem : entry ∈ entries)
    (hne : entry.2 ≠ []) :
    (client.receiptFromStoreQuotesFiltered none entries).lookup entry.1
      = some (⟨entry.2.map fun quote => (quote.peer, quote.quote)⟩,
          (entry.2.map PricedQuote.price).sum) := by
  induction entries with
  | nil => cases hmem
  | cons other entries ih =>
    obtain ⟨hfirst, hrest⟩ := nodupKeys_cons.mp hkeys
    rcases mem_cons.mp hmem with rfl | hlater
    · simp only [receiptFromStoreQuotesFiltered, Option.all_none, filter_true, if_neg hne,
        AList.lookup_insert]
    · have hother : entry.1 ≠ other.1 := by
        intro heq
        exact hfirst (heq ▸ mem_keys_of_mem hlater)
      simp only [receiptFromStoreQuotesFiltered, Option.all_none, filter_true]
      split
      · exact ih hrest hlater
      · rw [AList.lookup_insert_ne hother]
        exact ih hrest hlater

/-- After a payment, an address is in the receipt or was reported, and an address in the receipt
was quoted for. -/
theorem runs_pay_ok {dataType : DataTypes} {wallet : Wallet} {receipt : Receipt} {free : Nat}
    (hprices : PricesComplete es)
    (h : Runs (client.pay dataType contentAddrs wallet) es (.ok (receipt, free))) :
    (∀ content ∈ contentAddrs, content.1 ∈ receipt ∨ ReportedExisting content.1 es) ∧
      ∀ address ∈ receipt, ∃ e ∈ es, quotesFor (.chunkAddress address) e = true := by
  obtain ⟨-, h₁⟩ := runs_reject_bind_eq_ok.mp h
  obtain ⟨first, _, quotes, rfl, hquotes, h₂⟩ := runs_bind_eq_ok.mp h₁
  obtain ⟨hall, hquoted, hne⟩ := runs_getStoreQuotes (hprices.mono (subset_append_left _ _))
    (runs_mapError_ok.mp hquotes)
  have hreceipt : receipt = client.receiptFromStoreQuotes quotes := by
    by_cases hempty : quotes.entries ≠ []
    · rw [if_pos hempty] at h₂
      obtain ⟨order, _, rfl, h₃⟩ := runs_inAnyOrder_bind_iff.mp h₂
      obtain ⟨_, _, paid, rfl, -, h₄⟩ := runs_bind_eq_ok.mp h₃
      exact congrArg Prod.fst (Except.ok.inj (runs_pure.mp h₄).2)
    · rw [if_neg hempty] at h₂
      exact congrArg Prod.fst (Except.ok.inj (runs_pure.mp h₂).2)
  rw [hreceipt, receiptFromStoreQuotes]
  constructor
  · intro content hcontent
    rcases hall content hcontent with hmem | hreported
    · obtain ⟨list, hlist⟩ := Table.mem_iff_lookup.mp hmem
      have hentry := lookup_receiptFromStoreQuotesFiltered client quotes.nodupKeys
        (AList.mem_lookup_iff.mp hlist) (hne content.1 list hlist)
      exact .inl (Table.mem_iff_lookup.mpr ⟨_, hentry⟩)
    · exact .inr (hreported.mono (sublist_append_left _ _))
  · intro address haddress
    obtain ⟨entry, hentry, rfl⟩ := mem_of_mem_receiptFromStoreQuotesFiltered haddress
    obtain ⟨e, he, hquotes⟩ := hquoted entry.1 (mem_map_of_mem hentry)
    exact ⟨e, mem_append_left _ he, hquotes⟩

def sampleQuote (peer : PeerId) : PaymentQuote where
  content := bytes32 1
  timestamp := Sample.timestamp
  quotingMetrics := Sample.metrics DataTypes.chunk.getIndex
  rewardsAddress := Vector.replicate 20 9
  pubKey := peer
  signature := peer

end Autonomi.Client
