/-
What a client builds, nodes accept.

A tree over `n` addresses has `ceil(log2 n)` layers, and padding makes its bottom
layer full.  The branch of an address then climbs through full layers to the root,
and so does the branch of a midpoint from half way up; `verify_merkle_proof` checks
both climbs and that they are as long as the depth says.  So each address goes
through with each candidate, at any time while the payment is fresh.
-/
import Autonomi.Evm.MerkleTreeBuild
import Autonomi.Proofs.MerkleBinding

namespace Autonomi

open Lib Lib.Checks List

variable {c : Crypto}

theorem MerkleBranch.verify_of_full {b : MerkleBranch} {nodes : List Bytes32} {depth index : Nat}
    (hdepth : depth ≤ 8) (hfull : nodes.length = 2 ^ depth)
    (htop : HashTree.layer (concatAndHash c) depth nodes = [b.root])
    (hcount : b.totalLeavesCount = UInt64.ofNat (2 ^ depth))
    (hindex : b.leafIndex = UInt64.ofNat index)
    (hnode : nodes[index]? = some (b.startHash c))
    (hproof : b.proofHashes = HashTree.siblings (concatAndHash c) depth nodes index) :
    b.verify c = true := by
  have hpow : 2 ^ depth ≤ 2 ^ 8 := Nat.pow_le_pow_right Nat.two_pos hdepth
  have hlt : index < 2 ^ depth := hfull ▸ (List.getElem?_eq_some_iff.mp hnode).1
  have hcountNat : b.totalLeavesCount.toNat = 2 ^ depth := by
    rw [hcount, UInt64.toNat_ofNat_of_lt' (by show _ < 2 ^ 64; omega)]
  have hindexNat : b.leafIndex.toNat = index := by
    rw [hindex, UInt64.toNat_ofNat_of_lt' (by show _ < 2 ^ 64; omega)]
  have hclimb := HashTree.recompute_siblings (concatAndHash c) depth nodes index _ hnode
  rw [hfull, htop, Nat.div_eq_of_lt hlt, ← hproof] at hclimb
  simp only [MerkleBranch.verify, decide_eq_true_eq]
  rw [hcountNat, hindexNat, treeDepth_two_pow (by omega), hclimb]
  rfl

namespace MerkleTree

structure BuiltFrom (c : Crypto) (salt : Nat → Bytes32) (leaves : List XorName)
    (tree : MerkleTree) : Prop where
  leafCount : tree.leafCount = leaves.length
  depth : tree.depth.toNat = treeDepth leaves.length
  shallow : tree.depth.toNat ≤ 8
  full : tree.inner.length = 2 ^ tree.depth.toNat
  top : HashTree.layer (concatAndHash c) tree.depth.toNat tree.inner = [tree.root]
  salted : ∀ i, ∀ a, leaves[i]? = some a →
    tree.salts[i]? = some (salt i) ∧
      tree.inner[i]? = some (c.sha3_256 (MerkleBranch.saltedBytes a (salt i)))

theorem fromXornames_ok (salt dummy : Nat → Bytes32) {leaves : List XorName}
    (hmin : 2 ≤ leaves.length) (hmax : leaves.length ≤ 256) :
    ∃ tree, fromXornames c salt dummy leaves = .ok tree ∧ tree.BuiltFrom c salt leaves := by
  set n := leaves.length with hn
  have hclog : treeDepth n = Nat.clog 2 n := treeDepth_eq_clog (by omega)
  have hshallow : treeDepth n ≤ 8 := by
    rw [hclog]
    exact Nat.clog_le_of_le_pow (by omega)
  have hfits : n ≤ 2 ^ treeDepth n := by
    rw [hclog]
    exact Nat.le_pow_clog Nat.one_lt_two n
  set inner := ((leaves.zip ((List.range n).map salt)).map fun leaf =>
      c.sha3_256 (MerkleBranch.saltedBytes leaf.1 leaf.2))
    ++ (List.range (2 ^ treeDepth n - n)).map dummy with hinner
  have hlength : inner.length = 2 ^ treeDepth n := by
    rw [hinner]
    simp only [length_append, length_map, length_zip, length_range, ← hn]
    omega
  -- A full layer has one node at the top.
  have htop : (HashTree.layer (concatAndHash c) (treeDepth n) inner).length = 2 ^ 0 :=
    HashTree.length_layer_full (concatAndHash c) (by rw [hlength, Nat.zero_add])
  obtain ⟨root, hroot⟩ := length_eq_one_iff.mp htop
  have hfound : AntMerkle.root c inner = some root := by
    rw [AntMerkle.root, hlength, treeDepth_two_pow (by omega), hroot]
    rfl
  have hdepth : (UInt8.ofNat (treeDepth n)).toNat = treeDepth n :=
    UInt8.toNat_ofNat_of_lt' (by show _ < 2 ^ 8; omega)
  refine ⟨⟨inner, n, UInt8.ofNat (treeDepth n), root, (List.range n).map salt⟩, ?_, ?_⟩
  · simp only [fromXornames, bind_eq_ok, reject_eq_ok, okOr_eq_ok, minLeaves, maxLeaves,
      maxMerkleDepth, ← hn, ← hinner]
    exact ⟨(), by omega, (), by omega, root, hfound, rfl⟩
  · refine ⟨rfl, hdepth, by rw [hdepth]; exact hshallow, by rw [hdepth]; exact hlength,
      by rw [hdepth]; exact hroot, ?_⟩
    intro i a ha
    have hi : i < n := (List.getElem?_eq_some_iff.mp ha).1
    have hsalt : ((List.range n).map salt)[i]? = some (salt i) := by
      rw [getElem?_map, getElem?_range hi]
      rfl
    refine ⟨hsalt, ?_⟩
    have hzip : (leaves.zip ((List.range n).map salt))[i]? = some (a, salt i) :=
      getElem?_zip_eq_some.mpr ⟨ha, hsalt⟩
    rw [getElem?_append_left (by simp [← hn, hi]), getElem?_map, hzip]
    rfl

section Built

variable {salt : Nat → Bytes32} {leaves : List XorName} {tree : MerkleTree}
  (built : tree.BuiltFrom c salt leaves)

include built

theorem BuiltFrom.layers : treeDepth tree.inner.length = tree.depth.toNat := by
  have hshallow := built.shallow
  rw [built.full, treeDepth_two_pow (by omega)]

theorem BuiltFrom.addressProof {i : Nat} {a : XorName} (ha : leaves[i]? = some a) :
    ∃ branch, tree.generateAddressProof c i a = .ok branch ∧ branch.depth = tree.depth.toNat ∧
      branch.verify c = true ∧ branch.unsaltedLeafHash = a ∧ branch.root = tree.root := by
  obtain ⟨hsalt, hnode⟩ := built.salted i a ha
  have hi : ¬ i ≥ tree.leafCount := by
    rw [built.leafCount]
    exact Nat.not_le.mpr (List.getElem?_eq_some_iff.mp ha).1
  have hproof : AntMerkle.proof c tree.inner i
      = HashTree.siblings (concatAndHash c) tree.depth.toNat tree.inner i := by
    rw [AntMerkle.proof, built.layers]
  refine ⟨_, by simp only [generateAddressProof, bind_eq_ok, reject_eq_ok]; exact ⟨(), hi, rfl⟩,
    ?_, ?_, rfl, rfl⟩
  · rw [hproof]
    exact HashTree.length_siblings_full _ built.full (List.getElem?_eq_some_iff.mp hnode).1
  · refine MerkleBranch.verify_of_full built.shallow built.full built.top rfl rfl ?_ hproof
    rw [hnode, hsalt]
    rfl

theorem BuiltFrom.length_midpointLayer :
    (HashTree.layer (concatAndHash c) (midpointLevel tree.depth) tree.inner).length
      = 2 ^ midpointProofDepth tree.depth := by
  refine HashTree.length_layer_full (concatAndHash c) ?_
  rw [built.full, midpointProofDepth, midpointLevel]
  congr 1
  omega

theorem BuiltFrom.midpointProof {i : Nat} {hash : XorName}
    (hnode : (HashTree.layer (concatAndHash c) (midpointLevel tree.depth) tree.inner)[i]?
      = some hash) :
    ∃ branch, tree.generateMidpointProof c i hash = .ok branch ∧
      branch.depth = midpointProofDepth tree.depth ∧ branch.verify c = true ∧
      branch.root = tree.root := by
  have hshallow := built.shallow
  have hlength := built.length_midpointLayer
  set nodes := HashTree.layer (concatAndHash c) (midpointLevel tree.depth) tree.inner with hnodes
  have hi : i < nodes.length := (List.getElem?_eq_some_iff.mp hnode).1
  have hrest : tree.depth.toNat - midpointLevel tree.depth = midpointProofDepth tree.depth := by
    rw [midpointLevel, midpointProofDepth]
    omega
  have hlevel : midpointLevel tree.depth ≤ tree.depth.toNat := Nat.div_le_self _ _
  have hfound : AntMerkle.proofFromNode c tree.inner (midpointLevel tree.depth) i
      = some (HashTree.siblings (concatAndHash c) (midpointProofDepth tree.depth) nodes i) := by
    rw [AntMerkle.proofFromNode, built.layers, if_pos ⟨hlevel, hi⟩, hrest]
  have htop : HashTree.layer (concatAndHash c) (midpointProofDepth tree.depth) nodes
      = [tree.root] := by
    rw [HashTree.layer_layer, ← hrest, Nat.add_sub_cancel' hlevel, built.top]
  refine ⟨{
      proofHashes := HashTree.siblings (concatAndHash c) (midpointProofDepth tree.depth) nodes i
      leafIndex := UInt64.ofNat i
      totalLeavesCount := UInt64.ofNat (expectedRewardPools tree.depth)
      unsaltedLeafHash := hash
      root := tree.root
      salt := none }, ?_, ?_, ?_, rfl⟩
  · simp only [generateMidpointProof, bind_eq_ok, reject_eq_ok, okOr_eq_ok]
    exact ⟨(), by rw [expectedRewardPools]; omega, _, hfound, rfl⟩
  · exact HashTree.length_siblings_full _ hlength hi
  · refine MerkleBranch.verify_of_full (by rw [midpointProofDepth]; omega) hlength htop rfl rfl
      hnode rfl

/-- There is one candidate for each midpoint, and the branch of each goes through. -/
theorem BuiltFrom.candidates (ts : UInt64) :
    ∃ candidates, tree.rewardCandidates c ts = .ok candidates ∧
      candidates.length = 2 ^ midpointProofDepth tree.depth ∧
      ∀ m ∈ candidates, m.merklePaymentTimestamp = ts ∧
        m.branch.depth = midpointProofDepth tree.depth ∧ m.branch.verify c = true ∧
        m.branch.root = tree.root := by
  set nodes := HashTree.layer (concatAndHash c) (midpointLevel tree.depth) tree.inner with hnodes
  set midpoints : List MerkleMidpoint :=
    (nodes.mapIdx fun index hash => (index, hash)).map fun node => ⟨node.2, node.1⟩
    with hmidpoints
  have hmid : tree.midpoints c = .ok midpoints := by
    simp only [MerkleTree.midpoints, bind_eq_ok, okOr_eq_ok, AntMerkle.getNodesAtLevel]
    exact ⟨_, if_pos (by rw [built.layers]; exact Nat.div_le_self _ _), rfl⟩
  -- Every midpoint is a node of the layer at its own index.
  obtain ⟨candidates, hcandidates, hlength, hall⟩ := mapM_ok_of_forall (l := midpoints)
    (f := fun midpoint => do
      let branch ← tree.generateMidpointProof c midpoint.index midpoint.hash
      return ({ branch, merklePaymentTimestamp := ts } : MidpointProof))
    (P := fun m => m.merklePaymentTimestamp = ts ∧
      m.branch.depth = midpointProofDepth tree.depth ∧ m.branch.verify c = true ∧
      m.branch.root = tree.root) (by
    intro midpoint hmem
    obtain ⟨node, hnode, rfl⟩ := mem_map.mp hmem
    obtain ⟨i, hi, rfl⟩ := mem_mapIdx.mp hnode
    obtain ⟨branch, hbranch, hrest⟩ := built.midpointProof (getElem?_eq_getElem hi)
    exact ⟨⟨branch, ts⟩, by rw [hbranch]; rfl, rfl, hrest⟩)
  refine ⟨candidates, ?_, ?_, hall⟩
  · simp only [rewardCandidates, bind_eq_ok]
    exact ⟨midpoints, hmid, hcandidates⟩
  · rw [hlength, length_map, length_mapIdx, built.length_midpointLayer]

end Built

end MerkleTree

end Autonomi
