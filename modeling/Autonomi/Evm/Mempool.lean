/-
A call that sends transactions, and the chain it sends them to.

The chain mines at most one transaction of a sender for each nonce, in the order of
nonces.  A transaction that was broadcast is pending until it is mined or dropped,
whatever its sender was told about it: an answer may be lost on the way, and a lost
transaction may be mined much later.

A request without a nonce gets the sender's next one from the provider: the first that
is neither mined nor taken by a pending transaction.
-/
import Autonomi.Evm.Retry
import Autonomi.Lib.Transition

namespace Autonomi.Retry

open Lib

inductive TxStatus
  | pending
  | dropped
  | succeeded
  | reverted
deriving DecidableEq

/-- A transaction with the call's calldata that was taken in by the network. -/
structure SentTx where
  nonce : Nat
  status : TxStatus
deriving DecidableEq

structure Chain where
  /-- The sender's transactions mined so far. -/
  accountNonce : Nat
  /-- The transactions of the call, in the order they were taken in. -/
  sent : List SentTx
  /-- The nonces of the sender's other pending transactions. -/
  others : List Nat
deriving DecidableEq

namespace Chain

def occupied (chain : Chain) : List Nat :=
  ((chain.sent.filter fun tx => tx.status = .pending).map SentTx.nonce) ++ chain.others

/-- The first number from `n` on that is not in the list, looking at so many. -/
def firstFree (taken : List Nat) : Nat → Nat → Nat
  | 0, n => n
  | fuel + 1, n => if n ∈ taken then firstFree taken fuel (n + 1) else n

def nextNonce (chain : Chain) : Nat :=
  firstFree chain.occupied chain.occupied.length chain.accountNonce

def executions (chain : Chain) : Nat :=
  chain.sent.countP fun tx => tx.status = .succeeded

end Chain

inductive ChainEvent
  /-- A transaction of the call is mined, and succeeds or reverts. -/
  | mine (i : Nat) (success : Bool)
  /-- Another transaction of the sender is mined. -/
  | mineOther
  | drop (i : Nat)
  | sendOther (nonce : Nat)
deriving DecidableEq

def Chain.step (chain : Chain) : ChainEvent → Option Chain
  | .mine i success =>
    match chain.sent[i]? with
    | some ⟨nonce, .pending⟩ =>
      if nonce = chain.accountNonce then
        some
          { chain with
            accountNonce := chain.accountNonce + 1
            sent := chain.sent.set i ⟨nonce, if success then .succeeded else .reverted⟩ }
      else none
    | _ => none
  | .mineOther =>
    some
      { chain with
        accountNonce := chain.accountNonce + 1
        others := chain.others.filter fun nonce => nonce ≠ chain.accountNonce }
  | .drop i =>
    match chain.sent[i]? with
    | some ⟨nonce, .pending⟩ => some { chain with sent := chain.sent.set i ⟨nonce, .dropped⟩ }
    | _ => none
  | .sendOther nonce => some { chain with others := chain.others ++ [nonce] }

/-- The network took the transaction in: the sender was told so, or not. -/
def takenIn (unheard : Bool) : Broadcast → Bool
  | .pending _ => true
  | .failed _ => unheard
  | .timeout => unheard

/-- What an answered request means for the chain; the provider fills in a missing nonce. -/
def Chain.onAnswer (chain : Chain) (unheard : Bool) : (q : ProviderRequest) → q.Response → Chain
  | .sendTransaction tx, answer =>
    if takenIn unheard answer then
      { chain with sent := chain.sent ++ [⟨tx.nonce.getD chain.nextNonce, .pending⟩] }
    else chain
  | _, _ => chain

structure SendState where
  program : Program ProviderRequest ProviderRequest.Response
    (Except TransactionError (TxHash × GasInfo))
  chain : Chain

inductive SendLabel
  /-- The call's request is answered; a broadcast may get through although it seems not to. -/
  | answer (environment : (q : ProviderRequest) → q.Response) (unheard : Bool)
  | chain (event : ChainEvent)

def sendStep (s : SendState) : SendLabel → Option SendState
  | .answer environment unheard =>
    match s.program with
    | .ask q next =>
      some ⟨next (environment q), s.chain.onAnswer unheard q (environment q)⟩
    | .done _ => none
  | .chain event => (s.chain.step event).map fun chain => { s with chain }

/-- A call that begins, with whatever else the sender has under way. -/
def SendState.start (calldata recipient : Bytes) (config : MaxFeePerGas) (accountNonce : Nat)
    (others : List Nat) : SendState :=
  ⟨(sendTransactionWithRetries calldata recipient config).run, ⟨accountNonce, [], others⟩⟩

end Autonomi.Retry
