/-
Paying for quotes.

A wallet pays for quotes in transactions of up to 256 transfers.  If one of them
fails, the error carries what the earlier ones paid for; the client that called the
wallet keeps the error and drops the rest.  What a client hands back is a receipt: for
each address the quotes that were paid for it.
-/
import Autonomi.Client.Quotes

namespace Autonomi

open Lib
open Fallible (attempt fromExcept mapError reject)

/-! ### The wallet -/

inductive WalletError
  | insufficientTokensForQuotes (have_ need : Amount)
  | networkTokenContract (message : String)
  | chunkPaymentsContract (message : String)
  | merklePaymentVaultContract (message : String)
  | merklePaymentsAddressNotConfigured
  | costUnitOverflow (error : CostUnitOverflow)
deriving DecidableEq

namespace Wallet

open Client

/-- Transactions by the hash of the quote they paid for. -/
abbrev TxHashes := AList fun _ : QuoteHash => Retry.TxHash

structure PayForQuotesError where
  error : WalletError
  succeeded : TxHashes

def u64Saturating (n : Nat) : Nat := min n (2 ^ 64 - 1)

def u128Saturating (n : Nat) : Nat := min n (2 ^ 128 - 1)

/-- Gas over several transactions: sums, and the highest fee rates. -/
def addGas (total info : Retry.GasInfo) : Retry.GasInfo where
  estimatedGas := u64Saturating (total.estimatedGas + info.estimatedGas)
  gasWithBuffer := u64Saturating (total.gasWithBuffer + info.gasWithBuffer)
  actualGasUsed := u64Saturating (total.actualGasUsed + info.actualGasUsed)
  gasCostWei := u128Saturating (total.gasCostWei + info.gasCostWei)
  effectiveGasPrice := total.effectiveGasPrice
  fees := match total.fees, info.fees with
    | some a, some b => some ⟨max a.maxFeePerGas b.maxFeePerGas,
        max a.maxPriorityFeePerGas b.maxPriorityFeePerGas⟩
    | a, b => a.or b

def noGas : Retry.GasInfo := ⟨0, 0, none, 0, 0, 0⟩

/-- The effective price follows from the totals. -/
def averageGas (total : Retry.GasInfo) : Retry.GasInfo :=
  if total.actualGasUsed > 0 then
    { total with effectiveGasPrice := total.gasCostWei / total.actualGasUsed }
  else total

/-- One transaction for each batch, until one fails. -/
def payBatches : List (List QuotePayment) → TxHashes → Retry.GasInfo →
    ClientM PayForQuotesError (TxHashes × Retry.GasInfo)
  | [], txHashesByQuote, gas => return (txHashesByQuote, averageGas gas)
  | batch :: rest, txHashesByQuote, gas => do
    match ← sendPayForQuotes batch with
    | .error e => throw ⟨.chunkPaymentsContract e, txHashesByQuote⟩
    | .ok (txHash, gasInfo) =>
      let txHashesByQuote := batch.foldl
        (fun hashes payment => hashes.insert payment.quoteHash txHash) txHashesByQuote
      payBatches rest txHashesByQuote (addGas gas gasInfo)

instance : NeZero maxTransfersPerTransaction := ⟨by decide⟩

/-- The batches a list of payments is split into; there is nothing to pay for zero amounts. -/
def paymentBatches (payments : List QuotePayment) : List (List QuotePayment) :=
  batches maxTransfersPerTransaction (payments.filter fun payment => payment.amount > 0)

/-- Enough tokens, and leave for the contract to take them. -/
def ensureTokens (spender : Spender) (total : Amount) : ClientM WalletError Unit := do
  let balance ← fromExcept ((← balanceOfTokens).mapError .networkTokenContract)
  reject (balance < total) (.insufficientTokensForQuotes balance total)
  let allowance ← fromExcept ((← tokenAllowance spender).mapError .networkTokenContract)
  if allowance < total then
    let _ ← fromExcept ((← approveToSpendTokens spender (BitVec.allOnes 256)).mapError
      .networkTokenContract)
    return ()
  else return ()

def payForQuotes (payments : List QuotePayment) :
    ClientM PayForQuotesError (TxHashes × Retry.GasInfo) := do
  let total := (payments.map QuotePayment.amount).sum
  mapError (fun e => ⟨e, ∅⟩) (ensureTokens .dataPayments total)
  payBatches (paymentBatches payments) ∅ noGas

end Wallet

/-! ### The client -/

namespace Client

/-- The proof of payment for each address, and the amount paid. -/
abbrev Receipt := AList fun _ : XorName => ProofOfPayment × Amount

inductive PayError
  | evmWalletNetworkMismatch
  | evmWalletError (error : WalletError)
  | cost (error : CostError)
deriving DecidableEq

variable (client : Client)

def quoteHash (quote : PricedQuote) : QuoteHash :=
  quote.quote.hash client.crypto client.rmpMetrics

/-- The receipt of the quotes, or of those among them whose hash is in the set. -/
def receiptFromStoreQuotesFiltered (paidQuoteHashes : Option (Finset QuoteHash)) :
    List (Sigma fun _ : XorName => List PricedQuote) → Receipt
  | [] => ∅
  | ⟨contentAddr, quotes⟩ :: entries =>
    let included := quotes.filter fun quote =>
      paidQuoteHashes.all fun paid => client.quoteHash quote ∈ paid
    let receipt := receiptFromStoreQuotesFiltered paidQuoteHashes entries
    -- no proof without quotes
    if included = [] then receipt
    else receipt.insert contentAddr
      (⟨included.map fun quote => (quote.peer, quote.quote)⟩,
        (included.map PricedQuote.price).sum)

def receiptFromStoreQuotes (quotes : StoreQuote) : Receipt :=
  client.receiptFromStoreQuotesFiltered none quotes.entries

/-- `StoreQuote::payments`, in the order of the entries given. -/
def payments (entries : List (Sigma fun _ : XorName => List PricedQuote)) : List QuotePayment :=
  entries.flatMap fun entry => entry.2.map fun quote =>
    ⟨client.quoteHash quote, quote.quote.rewardsAddress, quote.price⟩

/-- Pay for the addresses: the receipt, and how many of them were free. -/
def pay (dataType : DataTypes) (contentAddrs : List (XorName × Nat)) (wallet : Wallet) :
    ClientM PayError (Receipt × Nat) := do
  reject (wallet.network ≠ client.evmNetwork) .evmWalletNetworkMismatch
  let quotes ← mapError .cost (client.getStoreQuotes dataType contentAddrs)
  if quotes.entries ≠ [] then
    let entries ← inAnyOrder quotes.entries
    -- of the error only the first part is kept
    let _ ← mapError (fun e => .evmWalletError e.error)
      (Wallet.payForQuotes (client.payments entries))
    return (client.receiptFromStoreQuotes quotes, contentAddrs.length - quotes.entries.length)
  else
    return (client.receiptFromStoreQuotes quotes, contentAddrs.length - quotes.entries.length)

inductive PaymentOption
  | wallet (wallet : Wallet)
  | receipt (receipt : Receipt)

def payForContentAddrs (dataType : DataTypes) (contentAddrs : List (XorName × Nat)) :
    PaymentOption → ClientM PayError (Receipt × Nat)
  | .wallet wallet => client.pay dataType contentAddrs wallet
  | .receipt receipt => return (receipt, 0)

end Client

end Autonomi
