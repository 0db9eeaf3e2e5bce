/-
Which cost units a node checks, and which the contract priced.

The node looks a commitment up by its hash, the contract took it by position.  Packing
is lossless, so the words found by hash unpack to exactly the signed data types and cost
units; they speak for the commitment that was priced exactly when the first commitment
under the winner's hash carries the same words as the one at the drawn position.
-/
import Autonomi.Evm.MerklePayment
import Autonomi.Evm.MerklePaymentVault

namespace Autonomi

open Lib Lib.Checks MerklePaymentVault

def PoolCommitmentPacked.words (pc : PoolCommitmentPacked) : Vector U256 candidatesPerPool :=
  pc.candidates.map CandidateNodePacked.dataTypeAndTotalCostUnit

/-- The commitment carries, for each candidate, the data type and cost unit its metrics produce. -/
def PoolCommitmentPacked.Carries (pc : PoolCommitmentPacked) (pool : MerklePaymentCandidatePool) :
    Prop :=
  ∀ i : Fin candidatesPerPool,
    unpack pc.candidates[i].dataTypeAndTotalCostUnit =
      (dataTypeConversion pool.candidateNodes[i].quotingMetrics.dataType,
        calculateTotalCostUnit pool.candidateNodes[i].quotingMetrics)

namespace MerklePaymentCandidatePool

theorem verifyCostUnitAt_ok {onChain : CandidateNodePacked} {signed : MerklePaymentCandidateNode}
    {index : Nat} {u : Unit} :
    verifyCostUnitAt onChain signed index = .ok u ↔
      signed.quotingMetrics.packed = .ok onChain.dataTypeAndTotalCostUnit := by
  simp only [verifyCostUnitAt, bind_eq_ok, mapError_eq_ok, reject_eq_ok, not_not]
  constructor
  · rintro ⟨word, hword, rfl⟩
    exact hword
  · intro hword
    exact ⟨_, hword, rfl⟩

/-- The check goes through when the first commitment under the hash has the signed words. -/
theorem verifyCostUnits_ok {pool : MerklePaymentCandidatePool}
    {commitments : List PoolCommitmentPacked} {winnerPoolHash : PoolHash} {u : Unit} :
    pool.verifyCostUnits commitments winnerPoolHash = .ok u ↔
      ∃ first, commitments.find? (fun pc => pc.poolHash = winnerPoolHash) = some first ∧
        ∀ i : Fin candidatesPerPool,
          pool.candidateNodes[i].quotingMetrics.packed
            = .ok first.candidates[i].dataTypeAndTotalCostUnit := by
  simp only [verifyCostUnits, bind_eq_ok, okOr_eq_ok, forM_eq_ok, verifyCostUnitAt_ok]
  refine exists_congr fun first => and_congr_right fun _ => ?_
  rw [List.forall_mem_iff_forall_getElem]
  simp [Fin.forall_iff]

end MerklePaymentCandidatePool

/-- The words that pass the check unpack to the signed data type and cost unit. -/
theorem unpack_of_packed {m : QuotingMetrics} {word : U256} (h : m.packed = .ok word) :
    unpack word = (dataTypeConversion m.dataType, calculateTotalCostUnit m) :=
  decode_encode h

theorem unpack_injective : Function.Injective unpack := by
  intro a b h
  have hlow : (UInt8.ofNat (a.toNat &&& 255)).toNat = (UInt8.ofNat (b.toNat &&& 255)).toNat :=
    congrArg UInt8.toNat (congrArg Prod.fst h)
  have hhigh : (a >>> 8).toNat = (b >>> 8).toNat := congrArg BitVec.toNat (congrArg Prod.snd h)
  have hmask : ∀ n : Nat, n &&& 255 = n % 256 := fun n => Nat.and_two_pow_sub_one_eq_mod n 8
  rw [UInt8.toNat_ofNat', UInt8.toNat_ofNat', hmask, hmask] at hlow
  rw [BitVec.toNat_ushiftRight, BitVec.toNat_ushiftRight] at hhigh
  apply BitVec.eq_of_toNat_eq
  omega

/--
**The check speaks for the priced commitment exactly when the lookup finds its words.**
Whatever the list and whichever position the contract drew: once the node has
accepted, the commitment at that position carries the signed data types and cost
units iff the first commitment under the same hash has the same packed words.
-/
theorem selected_carries_iff (c : Crypto) (ln : Int → Option Int) (env : Env) (s s' : State)
    (depth : UInt8) (commitments : List PoolCommitmentPacked) (ts : UInt64)
    (event : MerklePaymentMade) (pool : MerklePaymentCandidatePool)
    (selected : PoolCommitmentPacked)
    (hpaid : payForMerkleTree2 c ln env s depth commitments ts = .ok (s', event))
    (hselected : commitments[selectWinnerPool c env commitments.length ts]? = some selected)
    (haccepted : pool.verifyCostUnits commitments event.winnerPoolHash = .ok ()) :
    selected.Carries pool ↔
      ∃ first, commitments.find? (fun pc => pc.poolHash = selected.poolHash) = some first ∧
        first.words = selected.words := by
  have hhash : event.winnerPoolHash = selected.poolHash := by
    obtain ⟨pool', hpool', hhash⟩ := (payWith_records hpaid).selected
    rw [hselected] at hpool'
    cases hpool'
    exact hhash
  rw [hhash] at haccepted
  obtain ⟨first, hfirst, hwords⟩ := MerklePaymentCandidatePool.verifyCostUnits_ok.mp haccepted
  constructor
  · intro hcarries
    refine ⟨first, hfirst, Vector.ext fun i hi => ?_⟩
    -- Both words unpack to the same pair, and unpacking loses nothing.
    have hsel := hcarries ⟨i, hi⟩
    have hfst := unpack_of_packed (hwords ⟨i, hi⟩)
    simpa [PoolCommitmentPacked.words] using unpack_injective (hfst.trans hsel.symm)
  · rintro ⟨first', hfirst', heq⟩ i
    rw [hfirst] at hfirst'
    cases hfirst'
    have hword : first.candidates[i].dataTypeAndTotalCostUnit
        = selected.candidates[i].dataTypeAndTotalCostUnit := by
      have hi := congrArg (fun v => v[i]) heq
      simpa [PoolCommitmentPacked.words] using hi
    rw [← hword]
    exact unpack_of_packed (hwords i)

/-- A commitment to the sample pool that claims the given word for each candidate. -/
def Sample.commitment (word : U256) : PoolCommitmentPacked where
  poolHash := (Sample.pool 3).hash Crypto.simple
  candidates := Vector.replicate candidatesPerPool
    { rewardsAddress := Vector.replicate 20 9, dataTypeAndTotalCostUnit := word }

/-- A block in which the second of two pools is drawn, and every transfer goes through. -/
def Sample.env : Env where
  prevrandao := 0
  blockTimestamp := 0
  sender := Vector.replicate 20 0
  transferFrom := fun _ _ => true

/-- The word the sample metrics pack to: 500 cost units of a scratchpad. -/
def Sample.word : U256 := 500 * 256 + 1

/-- What the contract answers to two commitments under the sample pool's hash. -/
def Sample.paidEvent : MerklePaymentMade where
  winnerPoolHash := (Sample.pool 3).hash Crypto.simple
  depth := 1
  totalAmount := 6
  merklePaymentTimestamp := Sample.timestamp

theorem sample_paid (word : U256) (hword : word = Sample.word ∨ word = 1) :
    ∃ s', payForMerkleTree2 Crypto.simple (fun _ => none) Sample.env State.init 1
        [Sample.commitment Sample.word, Sample.commitment word] Sample.timestamp
      = .ok (s', Sample.paidEvent) ∧
      (s' Sample.paidEvent.winnerPoolHash).paidNodeAddresses = Sample.paidNodes := by
  have hpaid : (payForMerkleTree2 Crypto.simple (fun _ => none) Sample.env State.init 1
      [Sample.commitment Sample.word, Sample.commitment word] Sample.timestamp).map
        (fun r => (r.2, (r.1 r.2.winnerPoolHash).paidNodeAddresses))
        = .ok (Sample.paidEvent, Sample.paidNodes) := by
    rcases hword with rfl | rfl <;> decide +kernel
  obtain ⟨⟨s', event⟩, hpaid, hshown⟩ := map_eq_ok.mp hpaid
  obtain ⟨rfl, hnodes⟩ := Prod.mk.inj hshown
  exact ⟨s', hpaid, hnodes⟩

theorem selected_carries_sample :
    ∃ s' event,
      payForMerkleTree2 Crypto.simple (fun _ => none) Sample.env State.init 1
          [Sample.commitment Sample.word, Sample.commitment Sample.word] Sample.timestamp
        = .ok (s', event) ∧
      ((Sample.commitment Sample.word).Carries (Sample.pool 3) ↔
        ∃ first, [Sample.commitment Sample.word, Sample.commitment Sample.word].find?
            (fun pc => pc.poolHash = (Sample.commitment Sample.word).poolHash) = some first ∧
          first.words = (Sample.commitment Sample.word).words) := by
  obtain ⟨s', hpaid, -⟩ := sample_paid Sample.word (.inl rfl)
  refine ⟨s', _, hpaid, selected_carries_iff _ _ _ _ _ _ _ _ _ _ _ hpaid ?_ ?_⟩
  · decide +kernel
  · decide +kernel

/--
The commitment the contract prices need not be the one the node checks: two
commitments under one hash, the honest words first and a single cost unit in the
one that is drawn.
-/
theorem selected_not_always_carries :
    ¬ ∀ (c : Crypto) (ln : Int → Option Int) (env : Env) (s s' : State) (depth : UInt8)
        (commitments : List PoolCommitmentPacked) (ts : UInt64) (event : MerklePaymentMade)
        (pool : MerklePaymentCandidatePool) (selected : PoolCommitmentPacked),
      payForMerkleTree2 c ln env s depth commitments ts = .ok (s', event) →
      commitments[selectWinnerPool c env commitments.length ts]? = some selected →
      pool.hash c = event.winnerPoolHash →
      pool.verifyCostUnits commitments event.winnerPoolHash = .ok () →
      selected.Carries pool := by
  intro hclaim
  obtain ⟨s', hpaid, -⟩ := sample_paid 1 (.inr rfl)
  have hcarries := hclaim _ _ _ _ _ _ _ _ _ (Sample.pool 3) (Sample.commitment 1) hpaid
    (by decide +kernel) rfl (by decide +kernel)
  exact absurd (hcarries 0) (by decide)

end Autonomi
