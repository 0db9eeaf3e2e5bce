/-
What a Merkle payment costs, and what of it is paid out.

The first entry point prices a candidate from its metrics, the second from a word the
client packed.  For a node that holds records the word carries the same weighted sum the
contract would compute itself.  For one that holds none it carries a fallback, and the
two amounts of cost units differ; but either is so far below the contract's capacity
that the price is the minimum.  The two entry points and the estimate agree therefore,
result by result.
-/
import Mathlib.Analysis.SpecialFunctions.Log.Basic
import Autonomi.Proofs.CostUnits

namespace Autonomi

open Lib Lib.Checks MerklePaymentVault

/-! ### Prices far below capacity -/

/-- What is relied on of the logarithm: a little below one it is defined, and small. -/
def LnNearOne (ln : Int → Option Int) : Prop :=
  ∀ x : Int, 998 * 10 ^ 15 ≤ x → x ≤ 10 ^ 18 → ∃ v, ln x = some v ∧ |v| < 5 * 10 ^ 17

variable {ln : Int → Option Int}

theorem lnNearOne_of_accurate (h : ∀ x : Int, 0 < x → x ≤ 10 ^ 18 →
      ∃ v, ln x = some v ∧ |(v : ℝ) / 10 ^ 18 - Real.log (x / 10 ^ 18)| ≤ 1 / 10) :
    LnNearOne ln := by
  intro x hlow hhigh
  obtain ⟨v, hv, haccurate⟩ := h x (by omega) hhigh
  refine ⟨v, hv, ?_⟩
  have hlow' : (998 / 1000 : ℝ) ≤ x / 10 ^ 18 := by
    have hcast : ((998 * 10 ^ 15 : Int) : ℝ) ≤ x := Int.cast_le.mpr hlow
    norm_num at hcast ⊢
    linarith
  have hhigh' : (x : ℝ) / 10 ^ 18 ≤ 1 := by
    rw [div_le_one (by norm_num)]
    exact_mod_cast hhigh
  have hpos : (0 : ℝ) < x / 10 ^ 18 := by linarith
  -- Near one the logarithm lies between `1 - 1 / y` and nothing.
  have hbelow := Real.one_sub_inv_le_log_of_pos hpos
  have habove := Real.log_nonpos hpos.le hhigh'
  have hinverse : ((x : ℝ) / 10 ^ 18)⁻¹ ≤ 1000 / 998 := by
    rw [inv_le_comm₀ hpos (by norm_num)]
    linarith
  obtain ⟨hdown, hup⟩ := abs_le.mp haccurate
  have hsmall : |(v : ℝ) / 10 ^ 18| < 1 / 2 := abs_lt.mpr ⟨by linarith, by linarith⟩
  rw [abs_div] at hsmall
  have hcast : ((|v| : Int) : ℝ) < ((5 * 10 ^ 17 : Int) : ℝ) := by
    push_cast
    linarith
  exact_mod_cast hcast

theorem checked_of_lt {n : Nat} (h : n < 2 ^ 256) : checked n = .ok n := if_pos h

theorem checkedInt_of_abs_lt {n : Int} (h : |n| < 10 ^ 40) : checkedInt n = .ok n := by
  obtain ⟨hlow, hhigh⟩ := abs_lt.mp h
  exact if_pos ⟨by omega, by omega⟩

theorem absDiff_of_le {a b : Nat} (h : a ≤ b) : absDiff a b = b - a := by
  unfold absDiff
  split <;> omega

theorem tdiv_eq_zero_of_abs_lt {a b : Int} (h : |a| < b) : a.tdiv b = 0 := by
  rcases le_total 0 a with hnonneg | hneg
  · exact Int.tdiv_eq_zero_of_lt hnonneg (by rwa [abs_of_nonneg hnonneg] at h)
  · rw [abs_of_nonpos hneg] at h
    have hzero := Int.tdiv_eq_zero_of_lt (Int.neg_nonneg_of_nonpos hneg) h
    rwa [Int.neg_tdiv, neg_eq_zero] at hzero

theorem getBound_eq {value : Nat} (h : value ≤ 10 ^ 22) : getBound value = .ok
    (value / 10 ^ 6) := by
  have hfits : value * precision < 2 ^ 256 := by
    unfold precision
    omega
  have hscaled : value * precision / maxCostUnit = value / 10 ^ 6 := by
    unfold precision maxCostUnit
    omega
  rw [getBound, checked_of_lt hfits]
  exact congrArg Except.ok hscaled

theorem calculateLn_of_near (hln : LnNearOne ln) {bound : Nat} (hbound : bound ≤ 2 * 10 ^ 15) :
    ∃ v, calculateLn ln (absDiff bound precision) = .ok v ∧ |v| < 5 * 10 ^ 17 := by
  have hdiff : absDiff bound precision = 10 ^ 18 - bound :=
    absDiff_of_le (le_trans hbound (by decide))
  have hcast : toInt256 (10 ^ 18 - bound) = ((10 ^ 18 - bound : Nat) : Int) := by
    unfold toInt256
    rw [if_pos (by omega)]
  obtain ⟨v, hv, hsmall⟩ := hln ((10 ^ 18 - bound : Nat) : Int) (by omega) (by omega)
  refine ⟨v, ?_, hsmall⟩
  rw [hdiff, calculateLn, if_neg (by omega), hcast, hv]
  rfl

/-- **As long as few cost units are held, the price is the minimum**, whatever is quoted for. -/
theorem quoteFor_of_small (hln : LnNearOne ln) {total costUnit : Nat} (htotal : total ≤ 2 * 10 ^ 21)
    (hcost : costUnit ≤ 100) : quoteFor ln total costUnit = .ok minPrice := by
  have hsum : checked (total + costUnit) = .ok (total + costUnit) := checked_of_lt (by omega)
  unfold quoteFor
  rw [getBound_eq (by omega), ok_bind, hsum, ok_bind, getBound_eq (by omega), ok_bind]
  by_cases hequal : total / 10 ^ 6 = (total + costUnit) / 10 ^ 6
  · rw [if_pos (.inl hequal)]
    rfl
  · -- The two bounds are neighbours, and both are far from one.
    obtain ⟨lower, hlower⟩ : ∃ lower, lower = total / 10 ^ 6 := ⟨_, rfl⟩
    have hupper : (total + costUnit) / 10 ^ 6 = lower + 1 := by omega
    have hfar : lower + 1 ≤ 2 * 10 ^ 15 := by omega
    rw [hupper, ← hlower]
    obtain ⟨logUpper, hlogUpper, hsmallUpper⟩ := calculateLn_of_near hln hfar
    obtain ⟨logLower, hlogLower, hsmallLower⟩ := calculateLn_of_near hln (Nat.le_of_succ_le hfar)
    have hne : ∀ bound, bound ≤ 2 * 10 ^ 15 → bound ≠ precision ∧ absDiff bound precision ≠ 0 := by
      intro bound hbound
      have hprecision : precision = 10 ^ 18 := rfl
      rw [absDiff_of_le (by omega)]
      omega
    obtain ⟨hneLower, hdiffLower⟩ := hne lower (by omega)
    obtain ⟨hneUpper, hdiffUpper⟩ := hne (lower + 1) hfar
    have hstep : absDiff (lower + 1) lower = 1 := by
      unfold absDiff
      rw [if_pos (by omega)]
      omega
    obtain ⟨hlowUpper, hhighUpper⟩ := abs_lt.mp hsmallUpper
    obtain ⟨hlowLower, hhighLower⟩ := abs_lt.mp hsmallLower
    have hlogDiff : |logUpper - logLower| < 10 ^ 18 := abs_lt.mpr ⟨by omega, by omega⟩
    have hscaled : |-scalingFactor * (logUpper - logLower)| < 10 ^ 36 := by
      have hfactor : scalingFactor = 10 ^ 18 := rfl
      rw [hfactor]
      exact abs_lt.mpr ⟨by omega, by omega⟩
    have hone : (-scalingFactor * (logUpper - logLower)).tdiv (antPrice * precision) = 0 :=
      tdiv_eq_zero_of_abs_lt hscaled
    rw [if_neg (by omega)]
    rw [if_neg (by omega), hlogUpper, ok_bind, hlogLower, ok_bind,
      checkedInt_of_abs_lt (lt_trans hlogDiff (by omega)), ok_bind,
      checkedInt_of_abs_lt (lt_trans hscaled (by omega)), ok_bind, hone, hstep]
    rfl

/-! ### Cost units -/

def weight (dataType : UInt32) : Nat := (costUnitForDataType (dataTypeConversion dataType)).toNat

theorem weight_le (dataType : UInt32) : weight dataType ≤ 100 := by
  unfold weight costUnitForDataType
  split_ifs <;> decide

/-- Metrics with the data types there are, in a vector as long as memory allows. -/
structure QuotingMetrics.Valid (m : QuotingMetrics) : Prop where
  dataType : m.dataType < 4
  recordTypes : ∀ r ∈ m.recordsPerType, r.1 < 4
  length : m.recordsPerType.length < 2 ^ 64

/-- The contract knows each of the four types, and weighs it as the client does. -/
theorem ofUInt8_of_valid {dataType : UInt32} (h : dataType < 4) :
    ∃ d, DataType.ofUInt8 (dataTypeConversion dataType) = .ok d ∧
      costUnitPerDataType d = weight dataType := by
  have hnat : dataType.toNat < 4 := h
  have hcases : dataType.toNat = 0 ∨ dataType.toNat = 1 ∨ dataType.toNat = 2 ∨
      dataType.toNat = 3 := by omega
  rcases hcases with hzero | hone | htwo | hthree
  · obtain rfl : dataType = 0 := UInt32.toNat_inj.mp hzero
    exact ⟨.chunk, by decide, by decide⟩
  · obtain rfl : dataType = 1 := UInt32.toNat_inj.mp hone
    exact ⟨.graphEntry, by decide, by decide⟩
  · obtain rfl : dataType = 2 := UInt32.toNat_inj.mp htwo
    exact ⟨.pointer, by decide, by decide⟩
  · obtain rfl : dataType = 3 := UInt32.toNat_inj.mp hthree
    exact ⟨.scratchpad, by decide, by decide⟩

def weightedRecords (records : List (UInt32 × UInt32)) : Nat :=
  (records.map fun r => weight r.1 * r.2.toNat).sum

@[simp] theorem weightedRecords_nil : weightedRecords [] = 0 := rfl

@[simp] theorem weightedRecords_cons (r : UInt32 × UInt32) (records : List (UInt32 × UInt32)) :
    weightedRecords (r :: records) = weight r.1 * r.2.toNat + weightedRecords records := rfl

theorem weight_mul_lt (r : UInt32 × UInt32) : weight r.1 * r.2.toNat < 2 ^ 39 := by
  have hcount : r.2.toNat < 2 ^ 32 := r.2.toNat_lt
  calc weight r.1 * r.2.toNat ≤ 100 * r.2.toNat := Nat.mul_le_mul_right _ (weight_le r.1)
    _ < 2 ^ 39 := by omega

variable (records : List (UInt32 × UInt32))

theorem weightedRecords_le : weightedRecords records ≤ records.length * 2 ^ 39 := by
  induction records with
  | nil => simp
  | cons r records ih =>
    have hr := weight_mul_lt r
    rw [weightedRecords_cons, List.length_cons]
    omega

theorem foldl_costUnits :
    ∀ acc : U256, acc.toNat + weightedRecords records < 2 ^ 256 →
      (records.foldl (fun acc r => acc + costUnitForDataType (dataTypeConversion r.1)
        * BitVec.ofNat 256 r.2.toNat) acc).toNat = acc.toNat + weightedRecords records := by
  induction records with
  | nil => exact fun acc _ => rfl
  | cons r records ih =>
    intro acc hfits
    rw [weightedRecords_cons] at hfits ⊢
    have hcount : r.2.toNat < 2 ^ 32 := r.2.toNat_lt
    have hacc : (acc + costUnitForDataType (dataTypeConversion r.1)
        * BitVec.ofNat 256 r.2.toNat).toNat = acc.toNat + weight r.1 * r.2.toNat := by
      rw [BitVec.toNat_add, BitVec.toNat_mul, BitVec.toNat_ofNat,
        Nat.mod_eq_of_lt (show r.2.toNat < 2 ^ 256 by omega)]
      change (acc.toNat + weight r.1 * r.2.toNat % 2 ^ 256) % 2 ^ 256 = _
      rw [Nat.mod_eq_of_lt (show weight r.1 * r.2.toNat < 2 ^ 256 by omega),
        Nat.mod_eq_of_lt (by omega)]
    rw [List.foldl_cons, ih _ (by omega), hacc, Nat.add_assoc]

def fallbackCostUnits (m : QuotingMetrics) : Nat :=
  weight m.dataType * max m.closeRecordsStored.toNat 1

theorem fallbackCostUnits_le (m : QuotingMetrics) : fallbackCostUnits m ≤ 100 * 2 ^ 64 := by
  have hclose : m.closeRecordsStored.toNat < 2 ^ 64 := m.closeRecordsStored.toNat_lt
  exact Nat.mul_le_mul (weight_le m.dataType) (by omega)

variable {m : QuotingMetrics}

theorem toNat_calculateTotalCostUnit (hvalid : m.Valid) :
    (calculateTotalCostUnit m).toNat = if 0 < weightedRecords m.recordsPerType then
      weightedRecords m.recordsPerType else fallbackCostUnits m := by
  have hbound := weightedRecords_le m.recordsPerType
  have hlength := hvalid.length
  have hzero : (0 : U256).toNat = 0 := rfl
  have htotal := foldl_costUnits m.recordsPerType 0 (by omega)
  rw [hzero, Nat.zero_add] at htotal
  have hpositive : (0 : U256) < m.recordsPerType.foldl (fun acc r => acc
      + costUnitForDataType (dataTypeConversion r.1) * BitVec.ofNat 256 r.2.toNat) 0
      ↔ 0 < weightedRecords m.recordsPerType := by
    rw [BitVec.lt_def, hzero, htotal]
  unfold calculateTotalCostUnit
  by_cases hheld : 0 < weightedRecords m.recordsPerType
  · rw [if_pos hheld, if_pos (hpositive.mpr hheld), htotal]
  · have hclose : m.closeRecordsStored.toNat < 2 ^ 64 := m.closeRecordsStored.toNat_lt
    have hfallback := fallbackCostUnits_le m
    rw [if_neg hheld, if_neg fun h => hheld (hpositive.mp h), BitVec.toNat_mul, BitVec.toNat_ofNat,
      Nat.mod_eq_of_lt (show max m.closeRecordsStored.toNat 1 < 2 ^ 256 by omega)]
    exact Nat.mod_eq_of_lt (show fallbackCostUnits m < 2 ^ 256 by omega)

def SameRecord (r : UInt32 × UInt32) (record : DataType × U256) : Prop :=
  costUnitPerDataType record.1 = weight r.1 ∧ record.2.toNat = r.2.toNat

theorem foldlM_costUnits {records : List (UInt32 × UInt32)} {converted : List (DataType × U256)}
    (h : List.Forall₂ SameRecord records converted) :
    ∀ total, total + weightedRecords records < 2 ^ 256 →
      converted.foldlM (fun total record => do
        let weighted ← checked (costUnitPerDataType record.1 * record.2.toNat)
        checked (total + weighted)) total = .ok (total + weightedRecords records) := by
  induction h with
  | nil => exact fun total _ => rfl
  | @cons r record records converted hrecord _ ih =>
    intro total hfits
    rw [weightedRecords_cons] at hfits ⊢
    rw [List.foldlM_cons, hrecord.1, hrecord.2, checked_of_lt (by omega), ok_bind,
      checked_of_lt (by omega), ok_bind, ih _ (by omega), Nat.add_assoc]

theorem exists_ofQuoting (hvalid : m.Valid) :
    ∃ metrics, Metrics.ofQuoting m = .ok metrics ∧
      costUnitPerDataType metrics.dataType = weight m.dataType ∧
      getTotalCostUnit metrics = .ok (weightedRecords m.recordsPerType) := by
  obtain ⟨dataType, hdataType, hweight⟩ := ofUInt8_of_valid hvalid.dataType
  have hrecord : ∀ r ∈ m.recordsPerType, ∃ record : DataType × U256,
      (do
        let dataType ← DataType.ofUInt8 (dataTypeConversion r.1)
        return (dataType, BitVec.ofNat 256 r.2.toNat) : Except Revert (DataType × U256))
        = .ok record ∧ SameRecord r record := by
    intro r hr
    obtain ⟨d, hd, hweight⟩ := ofUInt8_of_valid (hvalid.recordTypes r hr)
    refine ⟨(d, BitVec.ofNat 256 r.2.toNat), by rw [hd]; rfl, hweight, ?_⟩
    have hcount : r.2.toNat < 2 ^ 32 := r.2.toNat_lt
    rw [BitVec.toNat_ofNat, Nat.mod_eq_of_lt (by omega)]
  obtain ⟨converted, hconverted, hsame⟩ := mapM_ok_of_forall₂ hrecord
  refine ⟨⟨dataType, converted⟩, ?_, hweight, ?_⟩
  · rw [Metrics.ofQuoting, hdataType, hconverted]
    rfl
  · have hbound := weightedRecords_le m.recordsPerType
    have hlength := hvalid.length
    have htotal := foldlM_costUnits hsame 0 (by omega)
    rwa [Nat.zero_add] at htotal

/-- **Packed or not, a candidate is priced the same.** -/
theorem exists_getQuotePacked (hln : LnNearOne ln) (hvalid : m.Valid) :
    ∃ word metrics, m.packed = .ok word ∧ Metrics.ofQuoting m = .ok metrics ∧
      getQuotePacked ln word = getQuote ln metrics := by
  obtain ⟨metrics, hmetrics, hweight, htotal⟩ := exists_ofQuoting hvalid
  obtain ⟨dataType, hdataType, hweight'⟩ := ofUInt8_of_valid hvalid.dataType
  have hunits := toNat_calculateTotalCostUnit hvalid
  have hbound := weightedRecords_le m.recordsPerType
  have hlength := hvalid.length
  have hfallback := fallbackCostUnits_le m
  have hfits : (calculateTotalCostUnit m).toNat < 2 ^ totalCostUnitBits := by
    rw [hunits, totalCostUnitBits]
    split <;> omega
  obtain ⟨word, hword⟩ : ∃ word, m.packed = .ok word := ⟨_, if_neg (Nat.not_le.mpr hfits)⟩
  refine ⟨word, metrics, hword, hmetrics, ?_⟩
  have hunpack : unpack word = (dataTypeConversion m.dataType, calculateTotalCostUnit m) :=
    decode_encode hword
  rw [getQuotePacked, hunpack, hdataType, ok_bind, getQuote, htotal, ok_bind, hweight, hweight',
    hunits]
  by_cases hheld : 0 < weightedRecords m.recordsPerType
  · rw [if_pos hheld]
  · -- The fallback on one side and nothing on the other, both at the minimum price.
    have hpacked := quoteFor_of_small hln (show fallbackCostUnits m ≤ 2 * 10 ^ 21 by omega)
      (weight_le m.dataType)
    have hnone : weightedRecords m.recordsPerType = 0 := Nat.eq_zero_of_not_pos hheld
    rw [if_neg hheld, hpacked, hnone, quoteFor_of_small hln (Nat.zero_le _) (weight_le m.dataType)]

variable {c : Crypto}

/-! ### The entry points -/

section EntryPoints

variable {ln : Int → Option Int}

/-- A pool in both forms: the same hash, quotes and reward addresses. -/
structure SamePool (ln : Int → Option Int) (packed : PoolCommitmentPacked)
    (pool : MetricsCommitment) : Prop where
  hash : packed.poolHash = pool.poolHash
  quotes : (packed.candidates.toList.mapM fun n => getQuotePacked ln n.dataTypeAndTotalCostUnit)
    = pool.candidates.toList.mapM fun n => getQuote ln n.2
  rewards : ∀ i : Nat, packed.candidates[i]?.map CandidateNodePacked.rewardsAddress
    = pool.candidates[i]?.map Prod.fst

theorem exists_samePool (hln : LnNearOne ln) {pool : PoolCommitment}
    (hvalid : ∀ node ∈ pool.candidates.toList, node.metrics.Valid) :
    ∃ packed metrics, pool.toPacked = .ok packed ∧
      MetricsCommitment.ofCommitment pool = .ok metrics ∧ SamePool ln packed metrics := by
  have hnode : ∀ node ∈ pool.candidates.toList, ∃ packed metrics,
      node.toPacked = .ok packed ∧
      (do
        let metrics ← Metrics.ofQuoting node.metrics
        return (node.rewardsAddress, metrics) : Except Revert (RewardsAddress × Metrics))
        = .ok metrics ∧
      getQuotePacked ln packed.dataTypeAndTotalCostUnit = getQuote ln metrics.2 ∧
        packed.rewardsAddress = metrics.1 := by
    intro node hmem
    obtain ⟨word, metrics, hword, hmetrics, hquote⟩ := exists_getQuotePacked hln (hvalid node hmem)
    refine ⟨⟨node.rewardsAddress, word⟩, (node.rewardsAddress, metrics), ?_, ?_, hquote, rfl⟩
    · rw [CandidateNode.toPacked, hword]
      rfl
    · rw [hmetrics]
      rfl
  obtain ⟨packed, metrics, hpacked, hmetrics, hsame⟩ := vector_mapM_ok_both hnode
  refine ⟨⟨pool.poolHash, packed⟩, ⟨pool.poolHash, metrics⟩, ?_, ?_, rfl, ?_, ?_⟩
  · rw [PoolCommitment.toPacked, hpacked]
    rfl
  · rw [MetricsCommitment.ofCommitment, hmetrics]
    rfl
  · exact mapM_congr_forall₂ (hsame.imp fun _ _ h => h.1)
  · intro i
    have haddresses : packed.toList.map CandidateNodePacked.rewardsAddress
        = metrics.toList.map Prod.fst := by
      rw [← List.forall₂_eq_eq_eq, List.forall₂_map_left_iff, List.forall₂_map_right_iff]
      exact hsame.imp fun _ _ h => h.2
    have hat := congrArg (fun addresses => addresses[i]?) haddresses
    simpa using hat

theorem forall₂_getElem? {α β : Type} {R : α → β → Prop} {as : List α} {bs : List β}
    (h : List.Forall₂ R as bs) (i : Nat) :
    as[i]? = none ∧ bs[i]? = none ∨ ∃ a b, as[i]? = some a ∧ bs[i]? = some b ∧ R a b := by
  induction h generalizing i with
  | nil => exact .inl ⟨rfl, rfl⟩
  | @cons a b as bs hab _ ih =>
    cases i with
    | zero => exact .inr ⟨a, b, rfl, rfl, hab⟩
    | succ i => exact ih i

variable {P : Type} {poolHash : P → PoolHash} {quotes : P → Except Revert (List Nat)}
  {rewards : P → Nat → Option RewardsAddress} {pools : List P}

theorem payWith_congr {Q : Type} {poolHash' : Q → PoolHash}
    {quotes' : Q → Except Revert (List Nat)} {rewards' : Q → Nat → Option RewardsAddress}
    {ps : List P} {qs : List Q} (h : List.Forall₂ (fun p q => poolHash p = poolHash' q ∧
      quotes p = quotes' q ∧ rewards p = rewards' q) ps qs)
    (c : Crypto) (env : Env) (s : State) (depth : UInt8) (ts : UInt64) :
    payWith poolHash quotes rewards c env s depth ps ts
      = payWith poolHash' quotes' rewards' c env s depth qs ts := by
  unfold payWith
  rw [h.length_eq]
  refine bind_congr fun _ => bind_congr fun _ => ?_
  rcases forall₂_getElem? h (selectWinnerPool c env qs.length ts) with
    ⟨hps, hqs⟩ | ⟨p, q, hps, hqs, hhash, hquotes, hrewards⟩
  · dsimp only
    rw [hps, hqs]
    rfl
  · dsimp only
    rw [hps, hqs, okOr, okOr, ok_bind, ok_bind, hhash, hquotes, hrewards]

structure Charges {P : Type} (quotes : P → Except Revert (List Nat)) (c : Crypto) (env : Env)
    (depth : UInt8) (pools : List P) (ts : UInt64) (amount : Nat) : Prop where
  inRange : ¬ depth > MerklePaymentVault.maxMerkleDepth
  count : pools.length = expectedRewardPools depth
  price : ∃ pool prices medianPrice, pools[selectWinnerPool c env pools.length ts]? = some pool ∧
    quotes pool = .ok prices ∧ median prices = .ok medianPrice ∧
    checked (medianPrice * 2 ^ depth.toNat) = .ok amount

variable {depth : UInt8} {ts : UInt64} {env : Env}

theorem payWith_charges {s s' : State} {event : MerklePaymentMade}
    (h : payWith poolHash quotes rewards c env s depth pools ts = .ok (s', event)) :
    Charges quotes c env depth pools ts event.totalAmount := by
  simp only [payWith, bind_eq_ok, reject_eq_ok, okOr_eq_ok, not_not] at h
  obtain ⟨_, hdepth, _, hcount, pool, hpool, _, _, prices, hprices, medianPrice, hmedian, amount,
    hamount, _, _, _, _, _, _, h⟩ := h
  cases h
  exact ⟨hdepth, hcount, pool, prices, medianPrice, hpool, hprices, hmedian, hamount⟩

theorem estimate_charges {pools : List MetricsCommitment} {amount : Nat} :
    estimateMerkleTreeCost c ln env depth pools ts = .ok amount ↔
      Charges (fun pool => pool.candidates.toList.mapM fun n => getQuote ln n.2) c env depth pools
        ts amount := by
  simp only [estimateMerkleTreeCost, bind_eq_ok, reject_eq_ok, okOr_eq_ok, not_not]
  constructor
  · rintro ⟨_, hdepth, _, hcount, pool, hpool, prices, hprices, medianPrice, hmedian, hamount⟩
    exact ⟨hdepth, hcount, pool, prices, medianPrice, hpool, hprices, hmedian, hamount⟩
  · rintro ⟨hdepth, hcount, pool, prices, medianPrice, hpool, hprices, hmedian, hamount⟩
    exact ⟨(), hdepth, (), hcount, pool, hpool, prices, hprices, medianPrice, hmedian, hamount⟩

variable {amount : Nat} (h : Charges quotes c env depth pools ts amount)

include h

theorem Charges.congr {env' : Env} {ts' : UInt64}
    (hwinner : selectWinnerPool c env' pools.length ts' = selectWinnerPool c env pools.length ts) :
    Charges quotes c env' depth pools ts' amount :=
  ⟨h.inRange, h.count, hwinner ▸ h.price⟩

theorem Charges.unique {amount' : Nat} (h' : Charges quotes c env depth pools ts amount') :
    amount = amount' := by
  obtain ⟨pool, prices, medianPrice, hpool, hprices, hmedian, hamount⟩ := h.price
  obtain ⟨pool', prices', medianPrice', hpool', hprices', hmedian', hamount'⟩ := h'.price
  cases hpool.symm.trans hpool'
  cases hprices.symm.trans hprices'
  cases hmedian.symm.trans hmedian'
  exact Except.ok.inj (hamount.symm.trans hamount')

omit h

/--
**The packed entry point, the one on metrics and the estimate charge the same.**  For
pools with valid data types both forms exist.  In one block and on one state the two
entry points do the same altogether.  Wherever else the same pool is drawn, by the
first entry point or by the estimate, the amount is the same too.
-/
theorem packed_and_metrics_charge_alike (hln : LnNearOne ln) {pools : List PoolCommitment}
    (hvalid : ∀ pool ∈ pools, ∀ node ∈ pool.candidates.toList, node.metrics.Valid) :
    ∃ packed commitments, pools.mapM PoolCommitment.toPacked = .ok packed ∧
      pools.mapM MetricsCommitment.ofCommitment = .ok commitments ∧
      (∀ c env s depth ts, payForMerkleTree2 c ln env s depth packed ts
        = payForMerkleTree c ln env s depth commitments ts) ∧
      ∀ c env s s' depth ts event, payForMerkleTree2 c ln env s depth packed ts = .ok (s', event) →
        ∀ env' ts', selectWinnerPool c env' commitments.length ts'
            = selectWinnerPool c env packed.length ts →
          estimateMerkleTreeCost c ln env' depth commitments ts' = .ok event.totalAmount ∧
          ∀ t t' event', payForMerkleTree c ln env' t depth commitments ts' = .ok (t', event') →
            event'.totalAmount = event.totalAmount := by
  obtain ⟨packed, commitments, hpacked, hcommitments, hsame⟩ :=
    mapM_ok_both fun pool hpool => exists_samePool hln (hvalid pool hpool)
  have hequal : ∀ c env s depth ts, payForMerkleTree2 c ln env s depth packed ts
      = payForMerkleTree c ln env s depth commitments ts := by
    intro c env s depth ts
    exact payWith_congr (hsame.imp fun p q h => ⟨h.hash, h.quotes, funext h.rewards⟩) c env s
      depth ts
  refine ⟨packed, commitments, hpacked, hcommitments, hequal, ?_⟩
  intro c env s s' depth ts event hpaid env' ts' hwinner
  rw [hequal] at hpaid
  rw [hsame.length_eq] at hwinner
  have hcharges := (payWith_charges hpaid).congr hwinner
  refine ⟨estimate_charges.mpr hcharges, ?_⟩
  intro t t' event' hpaid'
  exact (payWith_charges hpaid').unique hcharges

end EntryPoints

def Sample.freshPool : PoolCommitment where
  poolHash := bytes32 77
  candidates := Vector.replicate candidatesPerPool
    { rewardsAddress := Vector.replicate 20 9, metrics := metrics 3 }

theorem lnNearOne_zero : LnNearOne fun _ => some 0 := by
  intro x _ _
  exact ⟨0, rfl, by decide⟩

open Sample

theorem packed_and_metrics_charge_alike_sample :
    ∃ packed commitments,
      [Sample.freshPool, Sample.freshPool].mapM PoolCommitment.toPacked = .ok packed ∧
      [Sample.freshPool, Sample.freshPool].mapM MetricsCommitment.ofCommitment = .ok commitments ∧
      payForMerkleTree2 Crypto.simple (fun _ => some 0) Sample.env State.init 1 packed
          Sample.timestamp
        = payForMerkleTree Crypto.simple (fun _ => some 0) Sample.env State.init 1 commitments
          Sample.timestamp := by
  have hvalid : ∀ pool ∈ [freshPool, freshPool],
      ∀ node ∈ pool.candidates.toList, node.metrics.Valid := by
    intro pool hpool node hnode
    obtain rfl : pool = freshPool := by simpa using hpool
    obtain rfl : node = ⟨Vector.replicate 20 9, metrics 3⟩ := by
      simpa [freshPool] using hnode
    exact ⟨by decide, List.forall_mem_nil _, by decide⟩
  obtain ⟨packed, commitments, hpacked, hcommitments, hequal, -⟩ :=
    packed_and_metrics_charge_alike lnNearOne_zero hvalid
  exact ⟨packed, commitments, hpacked, hcommitments, hequal _ _ _ _ _⟩

/-! ### What is paid out -/

theorem length_selectWinnerNodes {env : Env} {depth : UInt8} {poolHash : PoolHash}
    {ts : UInt64} {winners : List Nat}
    (h : selectWinnerNodes c env depth poolHash ts = .ok winners) :
    winners.length = depth.toNat := by
  simp only [selectWinnerNodes, bind_eq_ok, reject_eq_ok, not_not] at h
  obtain ⟨_, hlength, h⟩ := h
  cases h
  exact hlength

theorem sum_transfers {env : Env} {rewards : Nat → Option RewardsAddress} {amountPerNode : Nat}
    {winnerIndices : List Nat} {paid : List ((RewardsAddress × Nat) × Transfer)}
    (h : winnerIndices.mapM (payNodeTransfer env rewards amountPerNode) = .ok paid) :
    ((paid.map Prod.snd).map Transfer.amount).sum = winnerIndices.length * amountPerNode := by
  have hplaces := mapM_eq_ok.mp h
  clear h
  induction hplaces with
  | nil => simp
  | @cons nodeIdx result winnerIndices paid hpaid _ ih =>
    simp only [payNodeTransfer, bind_eq_ok, reject_eq_ok] at hpaid
    obtain ⟨_, _, _, _, hpaid⟩ := hpaid
    cases hpaid
    rw [List.map_cons, List.map_cons, List.sum_cons, ih, List.length_cons, Nat.succ_mul,
      Nat.add_comm]

/--
**The total is `2 ^ depth` times the median price, and all of it is paid out exactly when
it can be divided by the depth.**
-/
theorem transfers_sum_eq_total_iff {ln : Int → Option Int} {env : Env} {s s' : State}
    {depth : UInt8} {pools : List PoolCommitmentPacked} {ts : UInt64} {event : MerklePaymentMade}
    {transfers : List Transfer}
    (h : payForMerkleTree2Transfers c ln env s depth pools ts = .ok ((s', event), transfers)) :
    ∃ pool prices medianPrice, pools[selectWinnerPool c env pools.length ts]? = some pool ∧
      (pool.candidates.toList.mapM fun n => getQuotePacked ln n.dataTypeAndTotalCostUnit)
        = .ok prices ∧ median prices = .ok medianPrice ∧
      event.totalAmount = 2 ^ depth.toNat * medianPrice ∧
      ((transfers.map Transfer.amount).sum = event.totalAmount ↔
        depth.toNat ∣ 2 ^ depth.toNat * medianPrice) := by
  simp only [payForMerkleTree2Transfers, payWithTransfers, bind_eq_ok, reject_eq_ok, okOr_eq_ok,
    not_not] at h
  obtain ⟨_, _, _, _, pool, hpool, _, _, prices, hprices, medianPrice, hmedian, amount, hamount,
    winners, hwinners, _, _, paid, hpaid, h⟩ := h
  have hsum := sum_transfers hpaid
  rw [length_selectWinnerNodes hwinners] at hsum
  have htotal : amount = 2 ^ depth.toNat * medianPrice := by
    unfold checked at hamount
    split at hamount
    · rw [Nat.mul_comm]
      exact (Except.ok.inj hamount).symm
    · cases hamount
  cases h
  refine ⟨pool, prices, medianPrice, hpool, hprices, hmedian, htotal, ?_⟩
  rw [hsum, ← htotal]
  exact Nat.mul_div_eq_iff_dvd

def Sample.deepCommitments : List PoolCommitmentPacked :=
  List.replicate 8 (Sample.commitment Sample.word)

private theorem deep_payment :
    (payForMerkleTree2Transfers Crypto.simple (fun _ => none) env State.init 5
      deepCommitments timestamp).map
        (fun r => (r.1.2.totalAmount, r.2.map Transfer.amount)) = .ok (96, [19, 19, 19, 19, 19]) := by
  decide +kernel

private theorem exists_deep_payment :
    ∃ s' event transfers, payForMerkleTree2Transfers Crypto.simple (fun _ => none) env
        State.init 5 deepCommitments timestamp = .ok ((s', event), transfers) ∧
      event.totalAmount = 96 ∧ (transfers.map Transfer.amount).sum = 95 := by
  obtain ⟨⟨⟨s', event⟩, transfers⟩, hpaid, hshown⟩ := map_eq_ok.mp deep_payment
  obtain ⟨htotal, hamounts⟩ := Prod.mk.inj hshown
  refine ⟨s', event, transfers, hpaid, htotal, ?_⟩
  rw [show transfers.map Transfer.amount = [19, 19, 19, 19, 19] from hamounts]
  rfl

theorem transfers_sum_eq_total_iff_deep :
    ∃ s' event transfers medianPrice, payForMerkleTree2Transfers Crypto.simple (fun _ => none)
        Sample.env State.init 5 Sample.deepCommitments Sample.timestamp
          = .ok ((s', event), transfers) ∧
      ((transfers.map Transfer.amount).sum = event.totalAmount ↔ 5 ∣ 2 ^ 5 * medianPrice) := by
  obtain ⟨s', event, transfers, hpaid, -, -⟩ := exists_deep_payment
  obtain ⟨-, -, medianPrice, -, -, -, -, hiff⟩ := transfers_sum_eq_total_iff hpaid
  exact ⟨s', event, transfers, medianPrice, hpaid, hiff⟩

/-- At depth five, with every quote at the minimum price, a token is left over. -/
theorem transfers_below_total :
    ¬ ∀ (c : Crypto) (ln : Int → Option Int) (env : Env) (s s' : State) (depth : UInt8)
        (pools : List PoolCommitmentPacked) (ts : UInt64) (event : MerklePaymentMade)
        (transfers : List Transfer), 1 ≤ depth → depth ≤ 8 →
      payForMerkleTree2Transfers c ln env s depth pools ts = .ok ((s', event), transfers) →
      (transfers.map Transfer.amount).sum = event.totalAmount := by
  intro hclaim
  obtain ⟨s', event, transfers, hpaid, htotal, hsum⟩ := exists_deep_payment
  have hequal := hclaim _ _ _ _ _ _ _ _ _ _ (by decide) (by decide) hpaid
  rw [hsum, htotal] at hequal
  exact absurd hequal (by decide)

end Autonomi
