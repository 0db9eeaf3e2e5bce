/-
The Merkle payment contract.

A payment names a depth and `2 ^ ceil(depth / 2)` pool commitments.  There are two entry
points that differ only in how a candidate's quote is priced: from metrics, or from a
packed word.

Amounts are `uint256` with checked arithmetic, so every sum and product that may leave
the range goes through `checked` and reverts.  The pricing formula takes a logarithm
from PRB Math; it enters as the parameter `ln`, on 18-digit fixed point numbers, `none`
where the library reverts.
-/
import Autonomi.Evm.MerkleBatchPayment
import Autonomi.Evm.MerkleTree

namespace Autonomi.MerklePaymentVault

open Lib Lib.Checks

inductive Revert
  | depthTooLarge (depth max : UInt8)
  | wrongPoolCount (expected got : Nat)
  | paymentAlreadyExists (poolHash : PoolHash)
  | paymentNotFound (poolHash : PoolHash)
  /-- `require` and `revert` with a message. -/
  | message (text : String)
  /-- Checked arithmetic, division by zero, or a value outside an enumeration. -/
  | panicked
  /-- A call into the token contract or PRB Math reverted. -/
  | external
deriving DecidableEq

/-- Maximum supported depth; the client library stops at 8. -/
def maxMerkleDepth : UInt8 := 12

/-- `1e18`: `PRECISION` and `ANT_PRICE`. -/
def precision : Nat := 10 ^ 18
def antPrice : Nat := 10 ^ 18
def scalingFactor : Int := 10 ^ 18
def minPrice : Nat := 3
def maxCostUnit : Nat := 10 ^ 24

inductive DataType
  | graphEntry | scratchpad | chunk | pointer
deriving DecidableEq

/-- The conversion `DataType(uint8)`, which panics outside the enumeration. -/
def DataType.ofUInt8 (n : UInt8) : Except Revert DataType :=
  if n = 0 then .ok .graphEntry
  else if n = 1 then .ok .scratchpad
  else if n = 2 then .ok .chunk
  else if n = 3 then .ok .pointer
  else .error .panicked

def costUnitPerDataType : DataType → Nat
  | .graphEntry => 1
  | .scratchpad => 100
  | .chunk => 10
  | .pointer => 20

/-! ### Pricing -/

/-- A `uint256` result, or the arithmetic panic. -/
def checked (n : Nat) : Except Revert Nat :=
  if n < 2 ^ 256 then .ok n else .error .panicked

def checkedInt (n : Int) : Except Revert Int :=
  if -2 ^ 255 ≤ n ∧ n < 2 ^ 255 then .ok n else .error .panicked

/-- The unchecked conversion `int256(uint256)`. -/
def toInt256 (n : Nat) : Int := if n < 2 ^ 255 then n else n - 2 ^ 256

def absDiff (a b : Nat) : Nat := if a ≥ b then a - b else b - a

/-- `value / maxCostUnit`, scaled. -/
def getBound (value : Nat) : Except Revert Nat := do
  let scaled ← checked (value * precision)
  return scaled / maxCostUnit

def calculateLn (ln : Int → Option Int) (x : Nat) : Except Revert Int :=
  if x = 0 then .error (.message "ln(0) undefined") else okOr (ln (toInt256 x)) .external

/-- The pricing formula, from the cost units held and the weight of the type quoted for. -/
def quoteFor (ln : Int → Option Int) (totalCostUnit costUnit : Nat) : Except Revert Nat := do
  let lowerBound ← getBound totalCostUnit
  let upperSum ← checked (totalCostUnit + costUnit)
  let upperBound ← getBound upperSum
  if lowerBound = upperBound ∨ lowerBound = precision ∨ upperBound = precision then
    return minPrice
  let upperDiff := absDiff upperBound precision
  let lowerDiff := absDiff lowerBound precision
  if upperDiff = 0 ∨ lowerDiff = 0 then
    return minPrice
  let logUpper ← calculateLn ln upperDiff
  let logLower ← calculateLn ln lowerDiff
  let logDiff ← checkedInt (logUpper - logLower)
  let linearPart := absDiff upperBound lowerBound
  let scaledLog ← checkedInt (-scalingFactor * logDiff)
  -- Signed division truncates towards zero.
  let partOne := scaledLog.tdiv (antPrice * precision)
  let partTwo := (← checked (linearPart * minPrice)) / precision
  let partThree := linearPart / antPrice
  let subtotal ← checkedInt (partOne + toInt256 partTwo)
  let price ← checkedInt (subtotal - toInt256 partThree)
  return if price ≤ 0 then minPrice else price.toNat

/-- The two halves of a packed word, as `_getQuotePacked` takes them apart. -/
def unpack (dataTypeAndTotalCostUnit : U256) : UInt8 × U256 :=
  (UInt8.ofNat (dataTypeAndTotalCostUnit &&& 0xFF).toNat, dataTypeAndTotalCostUnit >>> 8)

def getQuotePacked (ln : Int → Option Int) (dataTypeAndTotalCostUnit : U256) :
    Except Revert Nat := do
  let dataType ← DataType.ofUInt8 (unpack dataTypeAndTotalCostUnit).1
  quoteFor ln (unpack dataTypeAndTotalCostUnit).2.toNat (costUnitPerDataType dataType)

/-- The contract's own metrics, as far as pricing reads them. -/
structure Metrics where
  dataType : DataType
  recordsPerType : List (DataType × U256)
deriving DecidableEq

def getTotalCostUnit (metrics : Metrics) : Except Revert Nat :=
  metrics.recordsPerType.foldlM (fun total record => do
    let weighted ← checked (costUnitPerDataType record.1 * record.2.toNat)
    checked (total + weighted)) 0

def getQuote (ln : Int → Option Int) (metrics : Metrics) : Except Revert Nat := do
  let totalCostUnit ← getTotalCostUnit metrics
  quoteFor ln totalCostUnit (costUnitPerDataType metrics.dataType)

/-- One round of the insertion sort: `key` goes behind every quote it does not undercut. -/
def insertQuote (sorted : List Nat) (key : Nat) : List Nat :=
  sorted.takeWhile (· ≤ key) ++ key :: sorted.dropWhile (· ≤ key)

def sortQuotes (quotes : List Nat) : List Nat := quotes.foldl insertQuote []

def median (quotes : List Nat) : Except Revert Nat := do
  let sorted := sortQuotes quotes
  let sum ← checked (sorted.getD 7 0 + sorted.getD 8 0)
  return sum / 2

/-! ### Selection -/

structure Env where
  prevrandao : U256
  blockTimestamp : U256
  sender : RewardsAddress
  /-- Whether `antToken.transferFrom(sender, to, amount)` goes through. -/
  transferFrom : RewardsAddress → Nat → Bool

def selectWinnerPool (c : Crypto) (env : Env) (poolCount : Nat) (timestamp : UInt64) : Nat :=
  ofBeBytes (c.keccak256 (toBeBytes 32 env.prevrandao.toNat ++ toBeBytes 32 env.blockTimestamp.toNat
    ++ env.sender.toList ++ toBeBytes 8 timestamp.toNat)).toList % poolCount

/-- Draw indices until `depth` distinct ones are found or the attempts are used up. -/
def selectLoop (c : Crypto) (depth : Nat) :
    (fuel attempts : Nat) → (seed : Bytes32) → (winners : List Nat) → List Nat
  | 0, _, _, winners => winners
  | fuel + 1, attempts, seed, winners =>
    if winners.length < depth then
      let seed := c.keccak256 (seed.toList ++ toBeBytes 32 attempts)
      let idx := ofBeBytes seed.toList % 16
      selectLoop c depth fuel (attempts + 1) seed
        (if idx ∈ winners then winners else winners ++ [idx])
    else winners

def selectWinnerNodes (c : Crypto) (env : Env) (depth : UInt8) (poolHash : PoolHash)
    (timestamp : UInt64) : Except Revert (List Nat) := do
  let seed := c.keccak256 (toBeBytes 32 env.prevrandao.toNat ++ poolHash.toList
    ++ toBeBytes 8 timestamp.toNat)
  let winners := selectLoop c depth.toNat 100 0 seed []
  reject (winners.length ≠ depth.toNat) (.message "Failed to select enough winners")
  return winners

/-! ### Payments -/

structure PaymentInfo where
  depth : UInt8
  merklePaymentTimestamp : UInt64
  paidNodeAddresses : List (RewardsAddress × Nat)
deriving DecidableEq

def PaymentInfo.unset : PaymentInfo :=
  { depth := 0, merklePaymentTimestamp := 0, paidNodeAddresses := [] }

/-- The contract's storage: payment info by winner pool hash. -/
abbrev State := PoolHash → PaymentInfo

def State.init : State := fun _ => PaymentInfo.unset

structure MerklePaymentMade where
  winnerPoolHash : PoolHash
  depth : UInt8
  totalAmount : Nat
  merklePaymentTimestamp : UInt64
deriving DecidableEq

/-- Pay one winner: the transfer has to go through, and the node is recorded. -/
def payNode (env : Env) (rewards : Nat → Option RewardsAddress) (amountPerNode : Nat)
    (nodeIdx : Nat) : Except Revert (RewardsAddress × Nat) := do
  let rewardsAddress ← okOr (rewards nodeIdx) .panicked
  reject (env.transferFrom rewardsAddress amountPerNode = false) .external
  return (rewardsAddress, nodeIdx)

/--
The body both entry points share.  A pool is seen through its hash, the quotes of
its candidates and their reward addresses.
-/
def payWith {Pool : Type} (poolHash : Pool → PoolHash)
    (quotes : Pool → Except Revert (List Nat))
    (rewards : Pool → Nat → Option RewardsAddress)
    (c : Crypto) (env : Env) (s : State) (depth : UInt8) (poolCommitments : List Pool)
    (merklePaymentTimestamp : UInt64) : Except Revert (State × MerklePaymentMade) := do
  reject (depth > maxMerkleDepth) (.depthTooLarge depth maxMerkleDepth)
  reject (poolCommitments.length ≠ expectedRewardPools depth)
    (.wrongPoolCount (expectedRewardPools depth) poolCommitments.length)
  let winnerPoolIdx := selectWinnerPool c env poolCommitments.length merklePaymentTimestamp
  let winnerPool ← okOr poolCommitments[winnerPoolIdx]? .panicked
  let winnerPoolHash := poolHash winnerPool
  reject ((s winnerPoolHash).depth ≠ 0) (.paymentAlreadyExists winnerPoolHash)
  let medianPrice ← median (← quotes winnerPool)
  let totalAmount ← checked (medianPrice * 2 ^ depth.toNat)
  let winnerIndices ← selectWinnerNodes c env depth winnerPoolHash merklePaymentTimestamp
  reject (depth = 0) .panicked
  let paid ← winnerIndices.mapM (payNode env (rewards winnerPool) (totalAmount / depth.toNat))
  let info : PaymentInfo :=
    { depth, merklePaymentTimestamp
      paidNodeAddresses := (s winnerPoolHash).paidNodeAddresses ++ paid }
  return (Function.update s winnerPoolHash info,
    { winnerPoolHash, depth, totalAmount, merklePaymentTimestamp })

def payForMerkleTree2 (c : Crypto) (ln : Int → Option Int) :
    Env → State → UInt8 → List PoolCommitmentPacked → UInt64 →
      Except Revert (State × MerklePaymentMade) :=
  payWith PoolCommitmentPacked.poolHash
    (fun pool => pool.candidates.toList.mapM fun n => getQuotePacked ln n.dataTypeAndTotalCostUnit)
    (fun pool i => pool.candidates[i]?.map CandidateNodePacked.rewardsAddress) c

structure MetricsCommitment where
  poolHash : PoolHash
  candidates : Vector (RewardsAddress × Metrics) candidatesPerPool
deriving DecidableEq

def payForMerkleTree (c : Crypto) (ln : Int → Option Int) :
    Env → State → UInt8 → List MetricsCommitment → UInt64 →
      Except Revert (State × MerklePaymentMade) :=
  payWith MetricsCommitment.poolHash
    (fun pool => pool.candidates.toList.mapM fun n => getQuote ln n.2)
    (fun pool i => pool.candidates[i]?.map Prod.fst) c

/-- `From<QuotingMetrics>`: the contract's metrics; a type outside its enumeration is refused. -/
def Metrics.ofQuoting (metrics : QuotingMetrics) : Except Revert Metrics := do
  let dataType ← DataType.ofUInt8 (dataTypeConversion metrics.dataType)
  let recordsPerType ← metrics.recordsPerType.mapM fun record => do
    let dataType ← DataType.ofUInt8 (dataTypeConversion record.1)
    return (dataType, BitVec.ofNat 256 record.2.toNat)
  return { dataType, recordsPerType }

/-- `From<PoolCommitment>`, for the first entry point and the estimate. -/
def MetricsCommitment.ofCommitment (pool : PoolCommitment) : Except Revert MetricsCommitment := do
  let candidates ← pool.candidates.mapM fun node => do
    let metrics ← Metrics.ofQuoting node.metrics
    return (node.rewardsAddress, metrics)
  return { poolHash := pool.poolHash, candidates }

def estimateMerkleTreeCost (c : Crypto) (ln : Int → Option Int) (env : Env) (depth : UInt8)
    (poolCommitments : List MetricsCommitment) (merklePaymentTimestamp : UInt64) :
    Except Revert Nat := do
  reject (depth > maxMerkleDepth) (.depthTooLarge depth maxMerkleDepth)
  reject (poolCommitments.length ≠ expectedRewardPools depth)
    (.wrongPoolCount (expectedRewardPools depth) poolCommitments.length)
  let winnerPoolIdx := selectWinnerPool c env poolCommitments.length merklePaymentTimestamp
  let winnerPool ← okOr poolCommitments[winnerPoolIdx]? .panicked
  let medianPrice ← median (← winnerPool.candidates.toList.mapM fun n => getQuote ln n.2)
  checked (medianPrice * 2 ^ depth.toNat)

/-- Payment info by winner pool hash; depth 0 stands for no payment. -/
def getPaymentInfo (s : State) (winnerPoolHash : PoolHash) : Except Revert PaymentInfo := do
  reject ((s winnerPoolHash).depth = 0) (.paymentNotFound winnerPoolHash)
  return s winnerPoolHash

/-! ### The transfers of a call -/

structure Transfer where
  recipient : RewardsAddress
  amount : Nat
deriving DecidableEq

/-- `payNode`, with the transfer it makes. -/
def payNodeTransfer (env : Env) (rewards : Nat → Option RewardsAddress) (amountPerNode : Nat)
    (nodeIdx : Nat) : Except Revert ((RewardsAddress × Nat) × Transfer) := do
  let rewardsAddress ← okOr (rewards nodeIdx) .panicked
  reject (env.transferFrom rewardsAddress amountPerNode = false) .external
  return ((rewardsAddress, nodeIdx), { recipient := rewardsAddress, amount := amountPerNode })

def payWithTransfers {Pool : Type} (poolHash : Pool → PoolHash)
    (quotes : Pool → Except Revert (List Nat))
    (rewards : Pool → Nat → Option RewardsAddress)
    (c : Crypto) (env : Env) (s : State) (depth : UInt8) (poolCommitments : List Pool)
    (merklePaymentTimestamp : UInt64) :
    Except Revert ((State × MerklePaymentMade) × List Transfer) := do
  reject (depth > maxMerkleDepth) (.depthTooLarge depth maxMerkleDepth)
  reject (poolCommitments.length ≠ expectedRewardPools depth)
    (.wrongPoolCount (expectedRewardPools depth) poolCommitments.length)
  let winnerPoolIdx := selectWinnerPool c env poolCommitments.length merklePaymentTimestamp
  let winnerPool ← okOr poolCommitments[winnerPoolIdx]? .panicked
  let winnerPoolHash := poolHash winnerPool
  reject ((s winnerPoolHash).depth ≠ 0) (.paymentAlreadyExists winnerPoolHash)
  let medianPrice ← median (← quotes winnerPool)
  let totalAmount ← checked (medianPrice * 2 ^ depth.toNat)
  let winnerIndices ← selectWinnerNodes c env depth winnerPoolHash merklePaymentTimestamp
  reject (depth = 0) .panicked
  let paid ← winnerIndices.mapM
    (payNodeTransfer env (rewards winnerPool) (totalAmount / depth.toNat))
  let info : PaymentInfo :=
    { depth, merklePaymentTimestamp
      paidNodeAddresses := (s winnerPoolHash).paidNodeAddresses ++ paid.map Prod.fst }
  return ((Function.update s winnerPoolHash info,
    { winnerPoolHash, depth, totalAmount, merklePaymentTimestamp }), paid.map Prod.snd)

def payForMerkleTree2Transfers (c : Crypto) (ln : Int → Option Int) :
    Env → State → UInt8 → List PoolCommitmentPacked → UInt64 →
      Except Revert ((State × MerklePaymentMade) × List Transfer) :=
  payWithTransfers PoolCommitmentPacked.poolHash
    (fun pool => pool.candidates.toList.mapM fun n => getQuotePacked ln n.dataTypeAndTotalCostUnit)
    (fun pool i => pool.candidates[i]?.map CandidateNodePacked.rewardsAddress) c

theorem mapM_payNode (env : Env) (rewards : Nat → Option RewardsAddress) (amountPerNode : Nat)
    (winnerIndices : List Nat) : winnerIndices.mapM (payNode env rewards amountPerNode)
      = List.map Prod.fst <$> winnerIndices.mapM (payNodeTransfer env rewards amountPerNode) := by
  induction winnerIndices with
  | nil => rfl
  | cons nodeIdx winnerIndices ih =>
    have hnode : payNode env rewards amountPerNode nodeIdx
        = Prod.fst <$> payNodeTransfer env rewards amountPerNode nodeIdx := by
      simp only [payNode, payNodeTransfer, map_bind, map_pure]
    simp only [List.mapM_cons, hnode, ih, map_bind, bind_map_left, map_pure, List.map_cons]

/-- Writing the transfers down changes nothing else. -/
theorem payForMerkleTree2_eq_map (c : Crypto) (ln : Int → Option Int) (env : Env) (s : State)
    (depth : UInt8) (poolCommitments : List PoolCommitmentPacked) (ts : UInt64) :
    payForMerkleTree2 c ln env s depth poolCommitments ts
      = Prod.fst <$> payForMerkleTree2Transfers c ln env s depth poolCommitments ts := by
  simp only [payForMerkleTree2, payForMerkleTree2Transfers, payWith, payWithTransfers,
    mapM_payNode, map_bind, bind_map_left, map_pure]

/-! ### What a successful call does -/

/-- A call that goes through records one payment, under a hash that had none. -/
structure Records {Pool : Type} (poolHash : Pool → PoolHash) (c : Crypto) (env : Env) (s : State)
    (poolCommitments : List Pool) (merklePaymentTimestamp : UInt64) (s' : State)
    (event : MerklePaymentMade) : Prop where
  selected : ∃ pool, poolCommitments[selectWinnerPool c env poolCommitments.length
    merklePaymentTimestamp]? = some pool ∧ event.winnerPoolHash = poolHash pool
  fresh : (s event.winnerPoolHash).depth = 0
  paid : (s' event.winnerPoolHash).depth ≠ 0
  frame : ∀ h, h ≠ event.winnerPoolHash → s' h = s h

theorem payWith_records {Pool : Type} {poolHash : Pool → PoolHash}
    {quotes : Pool → Except Revert (List Nat)}
    {rewards : Pool → Nat → Option RewardsAddress} {c : Crypto} {env : Env}
    {s s' : State} {depth : UInt8} {poolCommitments : List Pool} {ts : UInt64}
    {event : MerklePaymentMade}
    (h : payWith poolHash quotes rewards c env s depth poolCommitments ts = .ok (s', event)) :
    Records poolHash c env s poolCommitments ts s' event := by
  simp only [payWith, bind_eq_ok, reject_eq_ok, okOr_eq_ok, not_not] at h
  obtain ⟨_, _, _, _, pool, hpool, _, hfresh, _, _, _, _, _, _, _, _, _, hdepth, paid, _, h⟩ := h
  cases h
  refine ⟨⟨pool, hpool, rfl⟩, hfresh, ?_, ?_⟩
  · simpa using hdepth
  · intro h hne
    exact Function.update_of_ne hne _ _

end Autonomi.MerklePaymentVault
