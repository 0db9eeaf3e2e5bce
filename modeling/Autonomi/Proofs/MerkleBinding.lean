/-
How many addresses one Merkle payment can authorise.

The pool hash fixes the midpoint proof and with it the root, so every proof accepted
under that hash climbs to one root.  If the data branch of a proof is a leaf proof,
salted and over `2 ^ depth` leaves, its climb runs through full layers and the root
fixes the salted leaf at each of the `2 ^ depth` positions, hence one address for each:
that is the bound the payment was priced for.

Nothing in the verification asks for a leaf proof, though.

Collision freedom of SHA3-256 is assumed only of the strings hashed while the proofs at
hand are verified.
-/
import Mathlib.Data.Nat.Log
import Mathlib.Data.Set.Card
import Autonomi.Proofs.CostUnits

namespace Autonomi

open Lib Lib.Checks MerklePaymentVault List

/-! ### The strings a proof feeds to the hash -/

namespace MerkleBranch

/-- A branch as it is documented for addresses: salted, and over the padded tree. -/
def IsLeafProof (b : MerkleBranch) (depth : UInt8) : Prop :=
  b.salt.isSome ∧ b.totalLeavesCount.toNat = 2 ^ depth.toNat

instance (b : MerkleBranch) (depth : UInt8) : Decidable (b.IsLeafProof depth) :=
  inferInstanceAs (Decidable (_ ∧ _))

/-- What the salt is hashed with, and then the children of each node on the way up. -/
def hashInputs (c : Crypto) (b : MerkleBranch) : List Bytes :=
  (b.salt.map (saltedBytes b.unsaltedLeafHash)).toList
    ++ (HashPath.combined (concatAndHash c) (treeDepth b.totalLeavesCount.toNat)
        b.totalLeavesCount.toNat b.leafIndex.toNat (b.startHash c) b.proofHashes).map concatBytes

end MerkleBranch

/-- Everything hashed while a proof is verified: the pool, its midpoint and both branches. -/
def MerklePaymentProof.hashInputs (c : Crypto) (proof : MerklePaymentProof) : List Bytes :=
  proof.winnerPool.hashBytes c :: proof.winnerPool.midpointProof.hashBytes
    :: (proof.dataProof.hashInputs c ++ proof.winnerPool.midpointProof.branch.hashInputs c)

/-! ### Full trees -/

theorem treeDepthLoop_eq_clog :
    ∀ (fuel n depth : Nat), 1 ≤ n → n ≤ 2 ^ fuel →
      treeDepthLoop fuel (n - 1) depth = depth + Nat.clog 2 n := by
  intro fuel
  induction fuel with
  | zero =>
    intro n depth hpos hle
    obtain rfl : n = 1 := by omega
    rfl
  | succ fuel ih =>
    intro n depth hpos hle
    rw [treeDepthLoop]
    by_cases hone : n = 1
    · subst hone
      rw [if_neg (Nat.lt_irrefl 0), Nat.clog_one_right, Nat.add_zero]
    · have hhalf : (n - 1) / 2 = (n + 1) / 2 - 1 := by omega
      have hstep : Nat.clog 2 n = Nat.clog 2 ((n + 1) / 2) + 1 :=
        Nat.clog_of_two_le (Nat.lt_succ_self 1) (by omega)
      rw [if_pos (by omega), hhalf, ih ((n + 1) / 2) (depth + 1) (by omega) (by omega)]
      omega

theorem treeDepth_eq_clog {n : Nat} (hn : n ≤ 2 ^ 64) : treeDepth n = Nat.clog 2 n := by
  unfold treeDepth
  split
  · next hsmall => exact (Nat.clog_of_right_le_one hsmall 2).symm
  · next hbig => rw [treeDepthLoop_eq_clog 64 n 0 (by omega) hn, Nat.zero_add]

theorem treeDepth_two_pow {k : Nat} (hk : k ≤ 64) : treeDepth (2 ^ k) = k := by
  rw [treeDepth_eq_clog (Nat.pow_le_pow_right Nat.two_pos hk), Nat.clog_pow 2 k Nat.one_lt_two]

theorem concatBytes_injective : Function.Injective concatBytes := by
  rintro ⟨a, x⟩ ⟨b, y⟩ h
  have hlen := congrArg List.length h
  cases x <;> cases y <;>
    simp only [concatBytes, length_append, Vector.length_toList] at h hlen
  · rw [Vector.toList_inj.mp h]
  · omega
  · omega
  · obtain ⟨hab, hxy⟩ := append_inj_vector h
    rw [hab, Vector.toList_inj.mp hxy]

/-! ### What an accepted proof has established -/

/-- The conditions of `MerklePaymentProof.verify` that tie the address to the pool hash. -/
structure MerklePaymentProof.Bound (c : Crypto) (proof : MerklePaymentProof) (depth : UInt8)
    (poolHash : PoolHash) : Prop where
  pool : proof.winnerPool.hash c = poolHash
  midpointDepth : proof.winnerPool.midpointProof.branch.depth = midpointProofDepth depth
  verified : proof.dataProof.verify c = true
  leaf : proof.address = proof.dataProof.unsaltedLeafHash
  root : proof.dataProof.root = proof.winnerPool.midpointProof.root

theorem MerklePaymentProof.verify_bound {c : Crypto} {now : SystemTime}
    {proof : MerklePaymentProof} {depth : UInt8} {ts : UInt64} {poolHash : PoolHash}
    {paid : List (RewardsAddress × Nat)} {u : Unit}
    (h : proof.verify c now depth ts poolHash paid = .ok u) : proof.Bound c depth poolHash := by
  simp only [MerklePaymentProof.verify, verifyMerkleProof, bind_eq_ok, reject_eq_ok,
    mapError_eq_ok, not_not, Bool.not_eq_false] at h
  obtain ⟨_, _, _, hpool, _, ⟨_, _, _, _, _, hmid, _, hver, _, _, _, hleaf, _, hroot, _⟩, _⟩ := h
  exact ⟨hpool, hmid, hver, hleaf, hroot⟩

/-! ### One root per pool hash, one address per position -/

section Binding

variable {c : Crypto} {S : Set Bytes} {depth : UInt8} {poolHash : PoolHash}
  {p q : MerklePaymentProof}

/-- Midpoint proofs of one length that lay out to the same bytes have the same root. -/
theorem MidpointProof.root_eq_of_hashBytes {m n : MidpointProof}
    (hdepth : m.branch.depth = n.branch.depth) (h : m.hashBytes = n.hashBytes) :
    m.root = n.root := by
  have hblocks : (blocks m.branch.proofHashes).length = (blocks n.branch.proofHashes).length := by
    rw [length_blocks, length_blocks]
    exact congrArg (· * 32) hdepth
  have h1 := (append_inj h hblocks).2
  have h2 := (append_inj h1 (by simp)).2
  have h3 := (append_inj h2 (by simp)).2
  exact (append_inj_vector (append_inj_vector h3).2).1

variable (hinj : Set.InjOn c.sha3_256 S)
  (hp : ∀ b ∈ p.hashInputs c, b ∈ S) (hq : ∀ b ∈ q.hashInputs c, b ∈ S)
  (bp : p.Bound c depth poolHash) (bq : q.Bound c depth poolHash)

include hinj hp hq bp bq in
/-- **A pool hash fixes the root its data branches climb to.** -/
theorem root_unique :
    p.dataProof.root = q.dataProof.root := by
  have hpool : p.winnerPool.hashBytes c = q.winnerPool.hashBytes c :=
    hinj (hp _ mem_cons_self) (hq _ mem_cons_self) (bp.pool.trans bq.pool.symm)
  have hmid : p.winnerPool.midpointProof.hash c = q.winnerPool.midpointProof.hash c :=
    (append_inj_vector hpool).1
  have hbytes : p.winnerPool.midpointProof.hashBytes = q.winnerPool.midpointProof.hashBytes :=
    hinj (hp _ (mem_cons_of_mem _ mem_cons_self))
      (hq _ (mem_cons_of_mem _ mem_cons_self)) hmid
  rw [bp.root, bq.root]
  exact MidpointProof.root_eq_of_hashBytes (bp.midpointDepth.trans bq.midpointDepth.symm) hbytes

theorem MerkleBranch.recompute_of_verify {b : MerkleBranch} (hleaf : b.IsLeafProof depth)
    (hver : b.verify c = true) :
    treeDepth b.totalLeavesCount.toNat = depth.toNat ∧
      HashPath.recompute (concatAndHash c) depth.toNat (2 ^ depth.toNat) b.leafIndex.toNat
        (b.startHash c) b.proofHashes = some b.root := by
  have hcount := hleaf.2
  have hdepth : depth.toNat ≤ 64 := by
    by_contra hbig
    have hlt : b.totalLeavesCount.toNat < 2 ^ 64 := b.totalLeavesCount.toNat_lt
    have hle : 2 ^ 64 ≤ 2 ^ depth.toNat := Nat.pow_le_pow_right (by omega) (by omega)
    omega
  have htree : treeDepth b.totalLeavesCount.toNat = depth.toNat := by
    rw [hcount, treeDepth_two_pow hdepth]
  refine ⟨htree, ?_⟩
  simp only [MerkleBranch.verify, decide_eq_true_eq] at hver
  rw [htree, hcount] at hver
  exact hver

/-- The salted leaf is among what a leaf proof hashes, and it is where its climb starts. -/
theorem MerkleBranch.startHash_of_salted {b : MerkleBranch} (hsalt : b.salt.isSome) :
    ∃ salt, b.startHash c = c.sha3_256 (saltedBytes b.unsaltedLeafHash salt) ∧
      saltedBytes b.unsaltedLeafHash salt ∈ b.hashInputs c := by
  obtain ⟨salt, hs⟩ := Option.isSome_iff_exists.mp hsalt
  refine ⟨salt, by simp [startHash, hs], ?_⟩
  simp [hashInputs, hs]

include hinj hp hq bp bq in
/-- **Leaf proofs under one pool hash whose positions agree are for the same address.** -/
theorem address_unique
    (lp : p.dataProof.IsLeafProof depth) (lq : q.dataProof.IsLeafProof depth)
    (hpos : p.dataProof.leafIndex.toNat % 2 ^ depth.toNat
      = q.dataProof.leafIndex.toNat % 2 ^ depth.toNat) :
    p.address = q.address := by
  have hpd : ∀ b ∈ p.dataProof.hashInputs c, b ∈ S := fun b hb =>
    hp b (mem_cons_of_mem _ (mem_cons_of_mem _ (mem_append_left _ hb)))
  have hqd : ∀ b ∈ q.dataProof.hashInputs c, b ∈ S := fun b hb =>
    hq b (mem_cons_of_mem _ (mem_cons_of_mem _ (mem_append_left _ hb)))
  obtain ⟨htp, hrp⟩ := MerkleBranch.recompute_of_verify lp bp.verified
  obtain ⟨htq, hrq⟩ := MerkleBranch.recompute_of_verify lq bq.verified
  rw [← root_unique hinj hp hq bp bq] at hrq
  -- Hashing pairs is injective on the pairs whose bytes are in `S`.
  have hpairs : Set.InjOn (concatAndHash c) (Set.preimage concatBytes S) := by
    intro x hx y hy hxy
    exact concatBytes_injective (hinj hx hy hxy)
  have hstart : p.dataProof.startHash c = q.dataProof.startHash c := by
    refine HashPath.recompute_node_unique (concatAndHash c) hpairs depth.toNat _ _ _ _ _ _ hpos
      hrp hrq ?_ ?_
    · intro x hx
      refine hpd _ (mem_append_right _ (mem_map_of_mem ?_))
      rw [htp, lp.2]
      exact hx
    · intro x hx
      refine hqd _ (mem_append_right _ (mem_map_of_mem ?_))
      rw [htq, lq.2]
      exact hx
  obtain ⟨sp, hsp, hmp⟩ := MerkleBranch.startHash_of_salted lp.1
  obtain ⟨sq, hsq, hmq⟩ := MerkleBranch.startHash_of_salted lq.1
  rw [hsp, hsq] at hstart
  have hsalted := hinj (hpd _ hmp) (hqd _ hmq) hstart
  rw [bp.leaf, bq.leaf]
  exact (append_inj_vector hsalted).1

end Binding

/-- The branches of the two addresses, and of the two salted leaves as nodes. -/
def Sample.branches : List MerkleBranch :=
  [addressBranch 0, addressBranch 1, nodeBranch 0, nodeBranch 1]

open Sample

private theorem sample_verified : ∀ b ∈ branches,
    (proof 3 b).verify Crypto.simple (.ok timestamp) 1 timestamp
      paidEvent.winnerPoolHash paidNodes = .ok () := by
  decide +kernel

def Sample.hashed : List Bytes :=
  [(pool 3).hashBytes Crypto.simple, (pool 3).midpointProof.hashBytes,
    MerkleBranch.saltedBytes (bytes32 1001) (bytes32 2001),
    MerkleBranch.saltedBytes (bytes32 1002) (bytes32 2002),
    concatBytes (leaf 0, some (leaf 1))]

private theorem sample_no_collision (bs : List MerkleBranch) (hbs : bs ⊆ branches) :
    Set.InjOn Crypto.simple.sha3_256
      {x | ∃ p ∈ {p | p ∈ bs.map (proof 3)}, x ∈ p.hashInputs Crypto.simple} := by
  have hinputs : ∀ b ∈ branches,
      ∀ x ∈ (proof 3 b).hashInputs Crypto.simple, x ∈ hashed := by
    decide +kernel
  have hhashes : ∀ x ∈ hashed, ∀ y ∈ hashed,
      Crypto.simple.sha3_256 x = Crypto.simple.sha3_256 y → x = y := by
    decide +kernel
  rintro x ⟨p, hp, hx⟩ y ⟨q, hq, hy⟩ hxy
  obtain ⟨b, hb, rfl⟩ := mem_map.mp hp
  obtain ⟨b', hb', rfl⟩ := mem_map.mp hq
  exact hhashes x (hinputs b (hbs hb) x hx) y (hinputs b' (hbs hb') y hy) hxy

end Autonomi
