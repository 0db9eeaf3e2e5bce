/-
What it costs to store something.

For each address the closest peers are asked for a quote.  A peer either sends one,
signed, or says that it holds the record already; a majority of the latter means that
there is nothing to pay.  The quotes of all addresses are priced by the contract, and
of the five for an address three, or the median one at three times its price, are
paid.
-/
import Autonomi.Client.Config
import Autonomi.Lib.Batches
import Autonomi.Lib.Table

namespace Autonomi

open Lib
open Fallible (attempt fromExcept mapError each)

namespace Client

inductive CostError
  | notEnoughNodeQuotes (contentAddr : XorName) (got required : Nat)
  | marketPriceError (message : String)
  | network (error : NetworkError)
deriving DecidableEq

variable (client : Client)

/-! ### Quotes from peers -/

def verifyQuote (response : QuoteResponse) (expectedDataType : UInt32) :
    Except NetworkError (Option PaymentQuote) :=
  match response.quote with
  | .error .recordExists => .ok none
  | .error (.other message) => .error (.getQuoteError message)
  | .ok quote => do
    let peerId ← Checks.okOr (response.peerAddress.asPeerId client.crypto)
      (.invalidQuote (.notAPeerId response.peerAddress))
    Checks.reject (¬ quote.checkIsSignedByClaimedPeer client.crypto client.rmpMetrics peerId)
      (.invalidQuote (.notSignedByClaimedPeer response.peerAddress))
    Checks.reject (quote.quotingMetrics.dataType ≠ expectedDataType)
      (.invalidQuote (.wrongDataType response.peerAddress))
    return some quote

/-- `Network::get_quote`: the quote, or nothing if the peer holds the record. -/
def getQuote (address : NetworkAddress) (dataType : UInt32) (dataSize : Nat) (peer : PeerId) :
    ClientM NetworkError (Option (PeerId × PaymentQuote)) := do
  let response ← fromExcept (← askQuote address peer dataType dataSize)
  let quote ← fromExcept (verifyQuote client response dataType)
  return quote.map fun quote => (peer, quote)

/-- The loop of `get_quotes` over the answers as they come in. -/
def countQuotes : List (Except NetworkError (Option (PeerId × PaymentQuote))) →
    List (PeerId × PaymentQuote) → (noNeedToPay errors : Nat) →
    Except NetworkError (Option (List (PeerId × PaymentQuote)))
  | [], quotes, noNeedToPay, errors =>
    .error (.insufficientQuotes quotes.length noNeedToPay errors)
  | result :: tasks, quotes, noNeedToPay, errors =>
    let (quotes, noNeedToPay, errors) := match result with
      | .ok (some quote) => (quotes ++ [quote], noNeedToPay, errors)
      | .ok none => (quotes, noNeedToPay + 1, errors)
      | .error _ => (quotes, noNeedToPay, errors + 1)
    if closeGroupSize ≤ quotes.length ∧ (noNeedToPay = 0 ∨ tasks = []) then
      .ok (some (quotes.take closeGroupSize))
    else if closeGroupMajority ≤ noNeedToPay then
      .ok none
    else
      countQuotes tasks quotes noNeedToPay errors

/-- `Network::get_quotes`; nothing if the record exists already. -/
def getQuotes (address : NetworkAddress) (dataType : UInt32) (dataSize : Nat) :
    ClientM NetworkError (Option (List (PeerId × PaymentQuote))) := do
  let closestPeers ← getClosestPeersWithRetries address quotingCandidates
  let results ← each (fun peer => attempt (getQuote client address dataType dataSize peer))
    closestPeers
  let results ← inAnyOrder results
  fromExcept (countQuotes results [] 0 0)

def getQuotesWithRetries (address : NetworkAddress) (dataType : UInt32) (dataSize : Nat) :
    ClientM NetworkError (Option (List (PeerId × PaymentQuote))) :=
  withRetries (getQuotes client address dataType dataSize) RetryStrategy.once.backoff

/-- `fetch_store_quote`: the quotes for an address, none if it need not be paid for. -/
def fetchStoreQuote (dataType : UInt32) (content : XorName × Nat) :
    ClientM CostError (XorName × List (PeerId × PaymentQuote)) := do
  let maybeQuotes ← mapError .network
    (getQuotesWithRetries client (.chunkAddress content.1) dataType content.2)
  let quotes := maybeQuotes.getD []
  return (content.1, quotes.filterMap fun quote =>
    (quote.2.peerId client.crypto).map fun peerId => (peerId, quote.2))

/-- `get_raw_quotes`, in the order in which the addresses are done. -/
def getRawQuotes (dataType : DataTypes) (contentAddrs : List (XorName × Nat)) :
    ClientM CostError (List (Except CostError (XorName × List (PeerId × PaymentQuote)))) := do
  inAnyOrder (← each (fun content => attempt (fetchStoreQuote client dataType.getIndex content))
    contentAddrs)

/-! ### Prices -/

structure RawQuote where
  contentAddr : XorName
  peer : PeerId
  quote : PaymentQuote
deriving DecidableEq

structure PricedQuote where
  peer : PeerId
  quote : PaymentQuote
  price : Amount
deriving DecidableEq

abbrev StoreQuote := AList fun _ : XorName => List PricedQuote

/-- The quotes of the five nodes closest to the address. -/
def closestQuotes (contentAddr : XorName) (rawQuotes : List (PeerId × PaymentQuote)) :
    List RawQuote :=
  let target := NetworkAddress.chunkAddress contentAddr
  let distance (quote : PeerId × PaymentQuote) :=
    (NetworkAddress.peerId quote.1).distance client.crypto target
  ((rawQuotes.insertionSort fun a b => distance a ≤ distance b).take closeGroupSize).map fun quote =>
    ⟨contentAddr, quote.1, quote.2⟩

def collectQuotes :
    List (Except CostError (XorName × List (PeerId × PaymentQuote))) →
      Except CostError (List RawQuote)
  | [] => .ok []
  | result :: results => do
    let (contentAddr, rawQuotes) ← result
    let quotes ← collectQuotes results
    return closestQuotes client contentAddr rawQuotes ++ quotes

def getMarketPriceBatchLimit : Nat := 2000

instance : NeZero getMarketPriceBatchLimit := ⟨by decide⟩

/-- `PaymentVaultHandler::get_quote`: a single amount stands for all. -/
def marketPrices (quotes : List RawQuote) : ClientM CostError (List Amount) := do
  let metrics := quotes.map fun quote => quote.quote.quotingMetrics
  let amounts ← fromExcept ((← getMarketPrice metrics).mapError .marketPriceError)
  match amounts with
  | [value] => return List.replicate metrics.length value
  | _ => return amounts

/-- Quotes are kept by address, sorted by price. -/
def insertQuote (quotesPerAddr : StoreQuote) (entry : RawQuote × Amount) : StoreQuote :=
  let (raw, price) := entry
  let quotes := (quotesPerAddr.lookup raw.contentAddr).getD [] ++ [⟨raw.peer, raw.quote, price⟩]
  quotesPerAddr.insert raw.contentAddr (quotes.insertionSort fun a b => a.price ≤ b.price)

/-! ### What is paid -/

def PricedQuote.unpaid (quote : PricedQuote) : PricedQuote := { quote with price := 0 }

def minimumQuotesToPay : Nat := 5

/-- Pay the nodes at indices 2, 3 and 4, or the one at index 2 three times. -/
def createQuotePayment (mode : PaymentMode) (contentAddr : XorName) :
    List PricedQuote → Except CostError (List PricedQuote)
  | q1 :: q2 :: q3 :: q4 :: q5 :: _ => .ok <| match mode with
      | .standard => [q1.unpaid, q2.unpaid, q3, q4, q5]
      | .singleNode => [q1.unpaid, q2.unpaid, { q3 with price := q3.price * 3 }, q4.unpaid, q5.unpaid]
  | quotes => .error (.notEnoughNodeQuotes contentAddr quotes.length minimumQuotesToPay)

def processQuotesByPaymentMode (mode : PaymentMode) :
    List (Sigma fun _ : XorName => List PricedQuote) → Except CostError StoreQuote
  | [] => .ok ∅
  | ⟨contentAddr, quotes⟩ :: entries => do
    let quoteForAddr ← createQuotePayment mode contentAddr quotes
    let quotesToPay ← processQuotesByPaymentMode mode entries
    return quotesToPay.insert contentAddr quoteForAddr

def getStoreQuotes (dataType : DataTypes) (contentAddrs : List (XorName × Nat)) :
    ClientM CostError StoreQuote := do
  let rawQuotesPerAddr ← getRawQuotes client dataType contentAddrs
  let allQuotes ← fromExcept (collectQuotes client rawQuotesPerAddr)
  let allPrices ← each marketPrices (batches getMarketPriceBatchLimit allQuotes)
  let quotesPerAddr := (allQuotes.zip allPrices.flatten).foldl insertQuote ∅
  let entries ← inAnyOrder quotesPerAddr.entries
  fromExcept (processQuotesByPaymentMode client.paymentMode entries)

end Client

end Autonomi
