/-
Sending a transaction until it is confirmed.

A transaction is priced, estimated, broadcast, watched and looked up; whatever goes
wrong before a receipt is there, the whole is tried again.  The nonce is read off the
request before it is sent, though, and the provider fills it in on a copy of its own, so
what the error carries to the next attempt is what the caller set: nothing.
-/
import Autonomi.Lib.Bytes
import Autonomi.Lib.Program

namespace Autonomi.Retry

open Lib
open Fallible (request attempt fromExcept)

def maxRetries : Nat := 3

abbrev TxHash := Bytes32

structure Eip1559Fees where
  maxFeePerGas : Nat
  maxPriorityFeePerGas : Nat
deriving DecidableEq

structure TransactionRequest where
  recipient : Bytes
  input : Bytes
  fees : Option Eip1559Fees
  gasLimit : Option Nat
  nonce : Option Nat
deriving DecidableEq

inductive MaxFeePerGas
  | auto
  | limitedAuto (limit : Nat)
  | custom (maxFee : Nat)
  | unlimited
deriving DecidableEq

structure Receipt where
  status : Bool
  gasUsed : Nat
  effectiveGasPrice : Nat
deriving DecidableEq

structure GasInfo where
  estimatedGas : Nat
  gasWithBuffer : Nat
  fees : Option Eip1559Fees
  actualGasUsed : Nat
  effectiveGasPrice : Nat
  gasCostWei : Nat
deriving DecidableEq

inductive TransactionError
  | couldNotGetGasPrice (reason : String)
  | gasPriceAboveLimit (limit : Nat)
  | transactionFailedToSend (reason : String)
  | transactionFailedToConfirm (reason : String) (nonce : Option Nat)
  | transactionReverted (message : String) (revertData : Option Bytes) (nonce : Option Nat)
deriving DecidableEq

/-! ### The provider -/

inductive ProviderRequest
  | estimateEip1559Fees
  | estimateGas (tx : TransactionRequest)
  | sendTransaction (tx : TransactionRequest)
  | watch (hash : TxHash)
  | getTransactionReceipt (hash : TxHash)
deriving DecidableEq

inductive Broadcast
  | pending (hash : TxHash)
  | failed (error : String)
  | timeout
deriving DecidableEq

def ProviderRequest.Response : ProviderRequest → Type
  | estimateEip1559Fees => Except String Eip1559Fees
  | estimateGas _ => Except String Nat
  | sendTransaction _ => Broadcast
  | watch _ => Except String TxHash
  | getTransactionReceipt _ => Except String (Option Receipt)

abbrev ProviderM (ε α : Type) := Fallible ProviderRequest ProviderRequest.Response ε α

section Requests

variable {ε : Type}

def estimateEip1559Fees : ProviderM ε (Except String Eip1559Fees) :=
  request ProviderRequest.estimateEip1559Fees

def estimateGas (tx : TransactionRequest) : ProviderM ε (Except String Nat) :=
  request (ProviderRequest.estimateGas tx)

def broadcast (tx : TransactionRequest) : ProviderM ε Broadcast :=
  request (ProviderRequest.sendTransaction tx)

def watch (hash : TxHash) : ProviderM ε (Except String TxHash) :=
  request (ProviderRequest.watch hash)

def getTransactionReceipt (hash : TxHash) : ProviderM ε (Except String (Option Receipt)) :=
  request (ProviderRequest.getTransactionReceipt hash)

end Requests

/-! ### The retry loops -/

def retry {ε α : Type} (action : ProviderM ε α) : Nat → ProviderM ε α
  | 0 => action
  | retries + 1 => do
    match ← (attempt action : ProviderM ε (Except ε α)) with
    | .ok result => return result
    | .error _ => retry action retries

def getEip1559Fees : MaxFeePerGas → ProviderM TransactionError (Option Eip1559Fees)
  | .auto => do
    let fees ← fromExcept ((← estimateEip1559Fees).mapError .couldNotGetGasPrice)
    return some fees
  | .limitedAuto limit => do
    let fees ← fromExcept ((← estimateEip1559Fees).mapError .couldNotGetGasPrice)
    if fees.maxFeePerGas > limit then throw (.gasPriceAboveLimit limit) else return some fees
  | .custom maxFee => do
    let fees ← fromExcept ((← estimateEip1559Fees).mapError .couldNotGetGasPrice)
    return some ⟨maxFee, fees.maxPriorityFeePerGas⟩
  | .unlimited => return none

/-- `extract_revert_data`: "for now, we'll return None". -/
def extractRevertData (_error : String) : Option Bytes := none

def sendTransaction (calldata recipient : Bytes) (nonce : Option Nat) (config : MaxFeePerGas) :
    ProviderM TransactionError (TxHash × GasInfo) := do
  let fees ← getEip1559Fees config
  let tx : TransactionRequest := ⟨recipient, calldata, fees, none, none⟩
  let estimatedGas ← fromExcept ((← estimateGas tx).mapError fun e =>
    .transactionFailedToSend ("gas estimation failed: " ++ e))
  let gasWithBuffer := min (estimatedGas * 120) (2 ^ 64 - 1) / 100
  let tx := { tx with gasLimit := some gasWithBuffer }
  -- the nonce to be replaced, or else what the request has, which is none
  let (tx, nonce) := match nonce with
    | some n => ({ tx with nonce := some n }, some n)
    | none => (tx, tx.nonce)
  match ← broadcast tx with
  | .failed error => throw (.transactionFailedToSend error)
  | .timeout => throw (.transactionFailedToSend "timeout")
  | .pending hash =>
    match ← attempt (retry (do fromExcept (← watch hash)) maxRetries) with
    | .ok hash =>
      match ← getTransactionReceipt hash with
      | .ok (some receipt) =>
        let gasInfo : GasInfo :=
          ⟨estimatedGas, gasWithBuffer, fees, receipt.gasUsed, receipt.effectiveGasPrice,
            min (receipt.gasUsed * receipt.effectiveGasPrice) (2 ^ 128 - 1)⟩
        if receipt.status then
          return (hash, gasInfo)
        else
          throw (.transactionReverted ("Transaction was mined but execution failed (gas used: "
            ++ toString receipt.gasUsed ++ ")") none nonce)
      | .ok none => throw (.transactionFailedToConfirm "Receipt not found after watch" nonce)
      | .error e => throw (.transactionFailedToConfirm ("Failed to get receipt: " ++ e) nonce)
    | .error e =>
      match extractRevertData e with
      | some data => throw (.transactionReverted e (some data) nonce)
      | none => throw (.transactionFailedToConfirm e nonce)

def sendAttempts (calldata recipient : Bytes) (config : MaxFeePerGas) :
    Nat → Option Nat → ProviderM TransactionError (TxHash × GasInfo)
  | 0, previousNonce => sendTransaction calldata recipient previousNonce config
  | retries + 1, previousNonce => do
    match ← attempt (sendTransaction calldata recipient previousNonce config) with
    | .ok result => return result
    | .error (.transactionFailedToConfirm _ nonce) =>
      sendAttempts calldata recipient config retries nonce
    -- a transaction that reverted would revert again
    | .error (.transactionReverted message data nonce) =>
      throw (.transactionReverted message data nonce)
    | .error _ => sendAttempts calldata recipient config retries previousNonce

def sendTransactionWithRetries (calldata recipient : Bytes) (config : MaxFeePerGas) :
    ProviderM TransactionError (TxHash × GasInfo) :=
  sendAttempts calldata recipient config maxRetries none

end Autonomi.Retry
