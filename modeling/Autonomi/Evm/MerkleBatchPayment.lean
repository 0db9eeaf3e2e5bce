/-
The packed pool commitments a client sends to the Merkle payment contract.

A commitment names a pool by its hash and lists its sixteen candidates.  In the
packed form each candidate carries one 256-bit word, the total cost unit shifted
left by eight with the contract's data type in the low byte; the node recomputes
that word from signed metrics and compares, and the contract takes it apart again
to price the candidate.
-/
import Autonomi.Evm.QuotingMetrics

namespace Autonomi

open Lib

abbrev PoolHash := Bytes32

abbrev candidatesPerPool : Nat := 16

/-- Number of bits available for the total cost unit when packed with the data type. -/
def totalCostUnitBits : Nat := 248

/-- Returned when a total cost unit exceeds the 248-bit limit during packing. -/
inductive CostUnitOverflow
  | costUnitOverflow
deriving DecidableEq

/-- The contract's data type for a `DataTypes` index; `4` stands for no type. -/
def dataTypeConversion (dataType : UInt32) : UInt8 :=
  if dataType = 0 then 2       -- Chunk
  else if dataType = 1 then 0  -- GraphEntry
  else if dataType = 2 then 3  -- Pointer
  else if dataType = 3 then 1  -- Scratchpad
  else 4

/-- The weight of a contract data type, as in the contract's `costUnitPerDataType`. -/
def costUnitForDataType (solidityDataType : UInt8) : U256 :=
  if solidityDataType = 0 then 1
  else if solidityDataType = 1 then 100
  else if solidityDataType = 2 then 10
  else if solidityDataType = 3 then 20
  else 0

structure CandidateNode where
  rewardsAddress : RewardsAddress
  metrics : QuotingMetrics
deriving DecidableEq

structure PoolCommitment where
  poolHash : PoolHash
  candidates : Vector CandidateNode candidatesPerPool
deriving DecidableEq

structure CandidateNodePacked where
  rewardsAddress : RewardsAddress
  /-- `(totalCostUnit << 8) | dataType` -/
  dataTypeAndTotalCostUnit : U256
deriving DecidableEq

structure PoolCommitmentPacked where
  poolHash : PoolHash
  candidates : Vector CandidateNodePacked candidatesPerPool
deriving DecidableEq

def encodeDataTypeAndCost (dataType : UInt8) (totalCostUnit : U256) :
    Except CostUnitOverflow U256 :=
  if totalCostUnit.toNat ≥ 2 ^ totalCostUnitBits then
    .error .costUnitOverflow
  else
    .ok ((totalCostUnit <<< 8) ||| BitVec.ofNat 256 dataType.toNat)

def decodeDataTypeAndCost (packed : U256) : UInt8 × U256 :=
  (UInt8.ofNat (packed &&& 0xFF).toNat, packed >>> 8)

/-- The weighted number of records a node holds, with a fallback for fresh nodes. -/
def calculateTotalCostUnit (metrics : QuotingMetrics) : U256 :=
  let totalFromTypes := metrics.recordsPerType.foldl
    (fun acc r => acc + costUnitForDataType (dataTypeConversion r.1) * BitVec.ofNat 256 r.2.toNat) 0
  if totalFromTypes > 0 then
    totalFromTypes
  else
    let fallback := max metrics.closeRecordsStored.toNat 1
    costUnitForDataType (dataTypeConversion metrics.dataType) * BitVec.ofNat 256 fallback

/-- The word a candidate's metrics pack to: the right-hand side of every comparison. -/
def QuotingMetrics.packed (metrics : QuotingMetrics) : Except CostUnitOverflow U256 :=
  encodeDataTypeAndCost (dataTypeConversion metrics.dataType) (calculateTotalCostUnit metrics)

def CandidateNode.toPacked (c : CandidateNode) : Except CostUnitOverflow CandidateNodePacked := do
  let word ← c.metrics.packed
  return { rewardsAddress := c.rewardsAddress, dataTypeAndTotalCostUnit := word }

/-- Convert every candidate, stopping at the first that does not fit. -/
def PoolCommitment.toPacked (c : PoolCommitment) :
    Except CostUnitOverflow PoolCommitmentPacked := do
  let packedCandidates ← c.candidates.mapM CandidateNode.toPacked
  return { poolHash := c.poolHash, candidates := packedCandidates }

/-! ### Packing round trip -/

variable {dataType : UInt8} {totalCostUnit word : U256}
  (h : encodeDataTypeAndCost dataType totalCostUnit = .ok word)

include h

theorem encodeDataTypeAndCost_ok :
    totalCostUnit.toNat < 2 ^ totalCostUnitBits ∧
      word.toNat = totalCostUnit.toNat * 256 + dataType.toNat := by
  unfold encodeDataTypeAndCost at h
  split at h
  · cases h
  · rename_i hlt
    have hcost : totalCostUnit.toNat < 2 ^ 248 := Nat.not_le.mp hlt
    have hbyte : dataType.toNat < 2 ^ 8 := dataType.toNat_lt
    refine ⟨hcost, ?_⟩
    injection h with h
    subst h
    rw [BitVec.toNat_or, BitVec.toNat_shiftLeft, BitVec.toNat_ofNat,
      Nat.mod_eq_of_lt (by omega : dataType.toNat < 2 ^ 256), Nat.shiftLeft_eq,
      Nat.mod_eq_of_lt (by omega), ← Nat.shiftLeft_eq,
      ← Nat.shiftLeft_add_eq_or_of_lt hbyte, Nat.shiftLeft_eq]

/-- **What is packed is what the contract reads back.** -/
theorem decode_encode : decodeDataTypeAndCost word = (dataType, totalCostUnit) := by
  obtain ⟨hcost, hword⟩ := encodeDataTypeAndCost_ok h
  have hbyte : dataType.toNat < 256 := dataType.toNat_lt
  refine Prod.ext ?_ ?_
  · apply UInt8.toNat_inj.mp
    have hmask : word.toNat &&& 255 = word.toNat % 256 := Nat.and_two_pow_sub_one_eq_mod _ 8
    show (UInt8.ofNat (word.toNat &&& 255)).toNat = dataType.toNat
    rw [UInt8.toNat_ofNat', hmask, hword]
    omega
  · apply BitVec.eq_of_toNat_eq
    show (word >>> 8).toNat = totalCostUnit.toNat
    rw [BitVec.toNat_ushiftRight, Nat.shiftRight_eq_div_pow, hword]
    omega

end Autonomi
