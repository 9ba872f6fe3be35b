import Aide.Contracts.InternalMarket
import Aide.Engine.MatchRunner
import Aide.Engine.Settler

namespace Aide.Engine

/-- The receipt of a mined transaction: whether it succeeded, and its logs. -/
structure Receipt where
  status : Bool
  logs : List Event

/-- The fields that `send_settle_trade_with_retry` sets. The calldata encodes the call. -/
structure TransactionRequest where
  dst : Address
  input : SettleTradeCall
  chainId : ℕ
  maxFeePerGas : ℕ
  maxPriorityFeePerGas : ℕ
  deriving DecidableEq

inductive SettlerTxError
  | badRpc
  | signer
  | provider
  | exhausted
  deriving DecidableEq

/-- What the provider answers to one sending: an error, a pending transaction whose receipt cannot
be had, whether or not it is mined, or one that is mined in some state of the chain. -/
inductive SendAnswer (τ : Type)
  | refused
  | unconfirmed (hash : Bytes32) (minedIn : Option (World τ))
  | mined (hash : Bytes32) (w : World τ)

def SendAnswer.accepts {τ : Type} : SendAnswer τ → Bool
  | refused => false
  | _ => true

/-- All answers that one call of `send_settle_trade_with_retry` can get. -/
structure Provider (τ : Type) where
  urlParses : Bool
  gasPrice : Option ℕ
  answer : ℕ → SendAnswer τ

/-- `fee.saturating_mul(115) / 100` on a `u128`. -/
def bumpFee (fee : ℕ) : ℕ := min (fee * 115) (2 ^ 128 - 1) / 100

def TransactionRequest.bump (tx : TransactionRequest) : TransactionRequest :=
  { tx with
    maxFeePerGas := bumpFee tx.maxFeePerGas
    maxPriorityFeePerGas := bumpFee tx.maxPriorityFeePerGas }

def maxAttempts : ℕ := 8

section Send
variable {τ : Type}

/-- The loop over the attempts, and what it has sent. The receipt is awaited and dropped. -/
def sendAttempts (answer : ℕ → SendAnswer τ) :
    ℕ → ℕ → TransactionRequest → Except SettlerTxError Bytes32 × List TransactionRequest
  | 0, _, _ => (.error .exhausted, [])
  | left + 1, attempt, tx =>
    match answer attempt with
    | .mined hash _ => (.ok hash, [tx])
    | .unconfirmed .. => (.error .provider, [tx])
    | .refused =>
      let (result, sent) := sendAttempts answer left (attempt + 1) tx.bump
      (result, tx :: sent)

def sendSettleTradeWithRetry (provider : Provider τ) (chainId : ℕ) (market : Address)
    (call : SettleTradeCall) : Except SettlerTxError Bytes32 × List TransactionRequest :=
  if provider.urlParses then
    match provider.gasPrice with
    | none => (.error .provider, [])
    | some maxFee => sendAttempts provider.answer maxAttempts 0
        { dst := market, input := call, chainId, maxFeePerGas := maxFee
          maxPriorityFeePerGas := if maxFee / 10 = 0 then 1 else maxFee / 10 }
  else
    (.error .badRpc, [])

/-- The first answer that accepts a sending, if the attempts last until there is one. -/
def Provider.accepted (provider : Provider τ) : Option (SendAnswer τ) :=
  if provider.urlParses && provider.gasPrice.isSome then
    ((List.range maxAttempts).map provider.answer).find? SendAnswer.accepts
  else
    none

theorem sendAttempts_ok {answer : ℕ → SendAnswer τ} {left attempt : ℕ} {tx : TransactionRequest}
    {hash : Bytes32} : (sendAttempts answer left attempt tx).1 = .ok hash ↔
      ∃ w, ((List.range' attempt left).map answer).find? SendAnswer.accepts = some (.mined hash w) := by
  induction left generalizing attempt tx with
  | zero => simp [sendAttempts]
  | succ left ih =>
    rw [sendAttempts, List.range'_succ, List.map_cons, List.find?_cons]
    cases first : answer attempt with
    | refused => exact ih
    | unconfirmed other minedIn => simp [SendAnswer.accepts]
    | mined other w => simp [SendAnswer.accepts]

/-- A call is taken for confirmed when the first sending that is accepted gets a receipt. -/
theorem sendSettleTradeWithRetry_ok {provider : Provider τ} {chainId : ℕ} {market : Address}
    {call : SettleTradeCall} {hash : Bytes32} :
    (sendSettleTradeWithRetry provider chainId market call).1 = .ok hash ↔
      ∃ w, provider.accepted = some (.mined hash w) := by
  unfold sendSettleTradeWithRetry Provider.accepted
  cases provider.urlParses with
  | false => simp
  | true =>
    cases provider.gasPrice with
    | none => simp
    | some maxFee =>
      simp only [if_true, Option.isSome_some, Bool.and_true, List.range_eq_range']
      exact sendAttempts_ok

end Send

/-- The market executes the transaction in the state in which it is mined. -/
def SettleTradeCall.execute {τ : Type} [AitToken τ] (d : Deployment) (signer : Address) (w : World τ)
    (call : SettleTradeCall) : Receipt :=
  match InternalMarket.settleTrade d { sender := signer } call.makerOrderId call.takerOrderId
      call.vstkAmount call.aitNotional call.settlementId w with
  | .ok next => ⟨true, next.log.drop w.log.length⟩
  | .error _ => ⟨false, []⟩

/-- The account and the chain id of the settler, where its environment gives them together with an
RPC URL and the address of the market. -/
structure SettlerConfig where
  signer : Address
  chainId : ℕ

/-- One call of a batch, with the configuration and the answers that it meets. -/
structure Submission (τ : Type) where
  settler : Option SettlerConfig
  call : SettleTradeCall
  provider : Provider τ

namespace Submission
variable {τ : Type}

/-- Without a configuration nothing is sent. -/
def result (d : Deployment) (s : Submission τ) : Option (Except SettlerTxError Bytes32) :=
  s.settler.map fun config =>
    (sendSettleTradeWithRetry s.provider config.chainId d.internalMarket s.call).1

/-- The calls of one batch. -/
def ofBatch (keccak256 : List UInt8 → Bytes32) (settler : Option SettlerConfig)
    (provider : ℕ → Provider τ) (batch : List Fill) : List (Submission τ) :=
  (batchFromFills keccak256 batch 0).zipIdx.map fun (call, i) => ⟨settler, call, provider i⟩

end Submission

namespace SharedState
variable {τ : Type}

/-- What `flush_batch` does with one call. -/
def submit (d : Deployment) (state : SharedState) (s : Submission τ) : SharedState :=
  match s.result d with
  | none => { state with pendingSettlements := fetchSub state.pendingSettlements 1 }
  | some (.ok _) => state.settlementConfirmed
  | some (.error _) => state.settlementFailed

def flushBatch (keccak256 : List UInt8 → Bytes32) (d : Deployment) (settler : Option SettlerConfig)
    (provider : ℕ → Provider τ) (batch : List Fill) (state : SharedState) : SharedState :=
  if batch.isEmpty then state
  else (Submission.ofBatch keccak256 settler provider batch).foldl (submit d) state

end SharedState

end Aide.Engine
