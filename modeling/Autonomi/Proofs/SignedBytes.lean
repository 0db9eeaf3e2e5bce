/-
What the signed and hashed byte strings determine.

Graph entries, pointers and quotes are signed through hand-written layouts, and a
candidate pool is hashed through one.

The three signed layouts can be read in one way only.  A graph entry has two lists
without a count; the keys in them begin with a byte above 127 and the word behind the
parents does not, and behind the descendants nothing follows.

The hash of a pool does not determine the pool.  Pools of the same lengths are
determined.
-/
import Autonomi.Lib.SelfDelimiting
import Autonomi.Protocol.Record
import Mathlib.Data.UInt

namespace Autonomi

open Lib List

/-! ### Integers -/

theorem selfDelimiting_u32 : SelfDelimiting Set.univ fun x : UInt32 => toLeBytes 4 x.toNat := by
  refine (selfDelimiting_toLeBytes 4 0).comap (fun a _ b _ h => UInt32.toNat_inj.mp h) ?_
  exact fun x _ => Nat.div_eq_of_lt x.toNat_lt

theorem selfDelimiting_u64 : SelfDelimiting Set.univ fun x : UInt64 => toLeBytes 8 x.toNat := by
  refine (selfDelimiting_toLeBytes 8 0).comap (fun a _ b _ h => UInt64.toNat_inj.mp h) ?_
  exact fun x _ => Nat.div_eq_of_lt x.toNat_lt

/-! ### Graph entries -/

/-- The high bit of the first byte is set, as it is for every compressed curve point. -/
def HighBitSet (key : PublicKey) : Prop := (128 : UInt8) ≤ key[0]

instance (key : PublicKey) : Decidable (HighBitSet key) :=
  inferInstanceAs (Decidable ((128 : UInt8) ≤ key[0]))

theorem begins_of_highBitSet {key : PublicKey} (h : HighBitSet key) (s : Bytes) :
    Begins (128 ≤ ·) (key.toList ++ s) := by
  refine ⟨key[0], ?_, h⟩
  rw [List.head?_append, List.head?_eq_getElem?, Vector.getElem?_toList]
  rfl

theorem not_begins_content (s : Bytes) : ¬ Begins (128 ≤ ·) ("content".toUTF8.toList ++ s) := by
  have hhead : "content".toUTF8.toList.head? = some 99 := by decide +kernel
  rintro ⟨b, hb, hhigh⟩
  rw [List.head?_append, hhead] at hb
  cases hb
  exact absurd hhigh (by decide)

/-- **A signature over a graph entry is over one entry only.** -/
theorem GraphEntry.graphEntry_eq_of_bytesForSignature {e e' : GraphEntry}
    (hkeys : ∀ key ∈ e.parents ++ e'.parents, HighBitSet key)
    (h : e.bytesForSignature = e'.bytesForSignature) :
    e.owner = e'.owner ∧ e.parents = e'.parents ∧ e.content = e'.content ∧
      e.descendants = e'.descendants := by
  have hkey : SelfDelimiting {key | HighBitSet key} Vector.toList :=
    (selfDelimiting_vector 48).mono (Set.subset_univ _)
  have hdescendant : SelfDelimiting Set.univ fun d : PublicKey × Bytes32 =>
      d.1.toList ++ d.2.toList := (selfDelimiting_vector 48).pair (selfDelimiting_vector 32)
  simp only [bytesForSignature, append_assoc] at h
  obtain ⟨howner, h⟩ := append_inj_vector h
  -- The keys of the parents end where the word behind them begins.
  obtain ⟨hparents, h⟩ := hkey.list_until (fun key hkey s => begins_of_highBitSet hkey s)
    (fun key hmem => hkeys key (mem_append_left _ hmem))
    (fun key hmem => hkeys key (mem_append_right _ hmem))
    (not_begins_content _) (not_begins_content _) (append_cancel_left h)
  obtain ⟨hcontent, h⟩ := append_inj_vector (append_cancel_left h)
  have hne : ∀ d ∈ (Set.univ : Set (PublicKey × Bytes32)), d.1.toList ++ d.2.toList ≠ [] := by
    intro d _ hnil
    have hlength := congrArg List.length hnil
    simp at hlength
  exact ⟨howner, hparents, hcontent, hdescendant.list_end hne (fun _ _ => trivial)
    (fun _ _ => trivial) (append_cancel_left h)⟩

/-- A parent whose first byte is 128, and two entries that differ in nothing but the signature. -/
theorem graphEntry_eq_of_two_signatures :
    let parent : PublicKey := Vector.replicate 48 128
    let entry (signature : Signature) : GraphEntry :=
      ⟨Vector.replicate 48 200, [parent], bytes32 5, [(parent, bytes32 6)], signature⟩
    entry (Vector.replicate 96 0) ≠ entry (Vector.replicate 96 1) ∧
      (entry (Vector.replicate 96 0)).parents = (entry (Vector.replicate 96 1)).parents := by
  intro parent entry
  refine ⟨by decide, ?_⟩
  have hbytes : (entry (Vector.replicate 96 0)).bytesForSignature
      = (entry (Vector.replicate 96 1)).bytesForSignature := rfl
  exact (GraphEntry.graphEntry_eq_of_bytesForSignature (by decide) hbytes).2.1

/-! ### Pointers -/

def PointerTarget.variantName : PointerTarget → String
  | chunkAddress _ => "ChunkAddress"
  | graphEntryAddress _ => "GraphEntryAddress"
  | pointerAddress _ => "PointerAddress"
  | scratchpadAddress _ => "ScratchpadAddress"

/-- A string of fewer than 32 bytes in MessagePack: its length in the marker byte. -/
def fixStr (text : String) : Bytes :=
  UInt8.ofNat (0xA0 + text.toUTF8.toList.length) :: text.toUTF8.toList

/-- What is relied on of `rmp_serde::to_vec` for targets: a map of one entry from the variant's
name to the payload, and different targets written differently. -/
structure WritesTargets (rmpTarget : PointerTarget → Bytes) : Prop where
  injective : Function.Injective rmpTarget
  entry : ∀ target, ∃ payload, rmpTarget target = 0x81 :: fixStr target.variantName ++ payload

def PointerTarget.variantNames : List String :=
  ["ChunkAddress", "GraphEntryAddress", "PointerAddress", "ScratchpadAddress"]

variable (target : PointerTarget)

theorem PointerTarget.variantName_mem : target.variantName ∈ variantNames := by
  cases target <;> simp [variantName, variantNames]

/-- The third letter of a variant's name is not the byte a target begins with. -/
theorem fixStr_variantName : ∃ letter ∈ (fixStr target.variantName)[3]?, letter ≠ 0x81 := by
  have hnames : ∀ name ∈ PointerTarget.variantNames, ∃ letter ∈ (fixStr name)[3]?,
      letter ≠ 0x81 := by
    decide +kernel
  exact hnames _ target.variantName_mem

namespace WritesTargets

variable {rmpTarget : PointerTarget → Bytes} (h : WritesTargets rmpTarget)

include h

theorem head (target : PointerTarget) : (rmpTarget target)[0]? = some 0x81 := by
  obtain ⟨payload, hentry⟩ := h.entry target
  rw [hentry]
  rfl

theorem letter (target : PointerTarget) :
    ∃ letter, (rmpTarget target)[4]? = some letter ∧ letter ≠ 0x81 := by
  obtain ⟨payload, hentry⟩ := h.entry target
  obtain ⟨letter, hletter, hne⟩ := fixStr_variantName target
  refine ⟨letter, ?_, hne⟩
  rw [hentry, cons_append, List.getElem?_cons_succ,
    List.getElem?_append_left (List.getElem?_eq_some_iff.mp hletter).1, hletter]

/-- A counter of four bytes and one of eight: four bytes into the first target the second
would have to begin. -/
theorem widths_differ {short long : Bytes} (hshort : short.length = 4) (hlong : long.length = 8)
    (target target' : PointerTarget) : short ++ rmpTarget target ≠ long ++ rmpTarget target' := by
  intro heq
  obtain ⟨letter, hletter, hne⟩ := h.letter target
  have hleft : (short ++ rmpTarget target)[8]? = some letter := by
    rw [List.getElem?_append_right (by omega), hshort, hletter]
  have hright : (long ++ rmpTarget target')[8]? = some 0x81 := by
    rw [List.getElem?_append_right (by omega), hlong, h.head target']
  rw [heq, hright] at hleft
  exact hne (Option.some.inj hleft).symm

end WritesTargets

variable {target target' : PointerTarget}

theorem Pointer.counterBytes_append_inj {rmpTarget : PointerTarget → Bytes}
    (h : WritesTargets rmpTarget) {counter counter' : UInt64}
    (heq : counterBytes counter ++ rmpTarget target = counterBytes counter' ++ rmpTarget target') :
    counter = counter' ∧ rmpTarget target = rmpTarget target' := by
  unfold counterBytes at heq
  by_cases hlarge : counter.toNat > 2 ^ 32 - 1 <;> by_cases hlarge' : counter'.toNat > 2 ^ 32 - 1
  · rw [if_pos hlarge, if_pos hlarge'] at heq
    exact selfDelimiting_u64 trivial trivial heq
  · rw [if_pos hlarge, if_neg hlarge'] at heq
    exact absurd heq.symm (h.widths_differ (length_toLeBytes 4 _) (length_toLeBytes 8 _) _ _)
  · rw [if_neg hlarge, if_pos hlarge'] at heq
    exact absurd heq (h.widths_differ (length_toLeBytes 4 _) (length_toLeBytes 8 _) _ _)
  · rw [if_neg hlarge, if_neg hlarge'] at heq
    have hsmall : ∀ n : Nat, ¬ n > 2 ^ 32 - 1 → n / 256 ^ 4 = 0 := by
      intro n hn
      exact Nat.div_eq_of_lt (by omega)
    obtain ⟨hcounter, hrest⟩ :=
      selfDelimiting_toLeBytes 4 0 (hsmall _ hlarge) (hsmall _ hlarge') heq
    exact ⟨UInt64.toNat_inj.mp hcounter, hrest⟩

/-- **A signature over a pointer is over one owner, counter and target only.** -/
theorem Pointer.pointer_eq_of_bytesForSignature {rmpTarget : PointerTarget → Bytes}
    (h : WritesTargets rmpTarget) {p q : Pointer}
    (heq : p.bytesForSignature rmpTarget = q.bytesForSignature rmpTarget) :
    p.owner = q.owner ∧ p.counter = q.counter ∧ p.target = q.target := by
  simp only [bytesForSignature, append_assoc] at heq
  obtain ⟨howner, heq⟩ := append_inj_vector heq
  obtain ⟨hcounter, htarget⟩ := counterBytes_append_inj h heq
  exact ⟨howner, hcounter, h.injective htarget⟩

def PointerTarget.payload : PointerTarget → Bytes
  | chunkAddress name => name.toList
  | graphEntryAddress owner => owner.toList
  | pointerAddress owner => owner.toList
  | scratchpadAddress owner => owner.toList

/-- A way to write targets, with the bytes of the address as the payload. -/
def Sample.rmpTarget (target : PointerTarget) : Bytes :=
  0x81 :: (fixStr target.variantName ++ target.payload)

open Sample

private theorem variantName_eq_of_rmpTarget (h : rmpTarget target = rmpTarget target') :
    target.variantName = target'.variantName := by
  have hinitials : ∀ name ∈ PointerTarget.variantNames, ∀ name' ∈ PointerTarget.variantNames,
      (fixStr name)[1]? = (fixStr name')[1]? → name = name' := by
    decide +kernel
  have hlong : ∀ name ∈ PointerTarget.variantNames, 1 < (fixStr name).length := by
    decide +kernel
  refine hinitials _ target.variantName_mem _ target'.variantName_mem ?_
  have hletter := congrArg (fun bytes => bytes[1]?) (List.cons.inj h).2
  simp only [List.getElem?_append_left (hlong _ (PointerTarget.variantName_mem _))] at hletter
  exact hletter

theorem writesTargets_sample : WritesTargets rmpTarget := by
  refine ⟨?_, fun target => ⟨_, rfl⟩⟩
  intro target target' h
  have hname := variantName_eq_of_rmpTarget h
  have hpayload : target.payload = target'.payload := by
    have hrest := (List.cons.inj h).2
    rw [hname] at hrest
    exact append_cancel_left hrest
  -- Two targets of different variants have different names.
  cases target <;> cases target' <;>
    simp_all [PointerTarget.variantName, PointerTarget.payload, Vector.toList_inj]

/-- Two pointers with a large counter that differ in nothing but the signature. -/
theorem pointer_eq_of_two_signatures :
    let pointer (signature : Signature) : Pointer :=
      ⟨Vector.replicate 48 200, 2 ^ 40, .chunkAddress (bytes32 5), signature⟩
    pointer (Vector.replicate 96 0) ≠ pointer (Vector.replicate 96 1) ∧
      (pointer (Vector.replicate 96 0)).counter = (pointer (Vector.replicate 96 1)).counter := by
  intro pointer
  refine ⟨by decide, ?_⟩
  have hbytes : (pointer (Vector.replicate 96 0)).bytesForSignature rmpTarget
      = (pointer (Vector.replicate 96 1)).bytesForSignature rmpTarget := rfl
  exact (Pointer.pointer_eq_of_bytesForSignature writesTargets_sample hbytes).2.1

/-! ### Quotes -/

/-- The metrics of lists whose lengths have the same part cut off in the count. -/
theorem QuotingMetrics.selfDelimiting_toBytes (cutOff : Nat) :
    SelfDelimiting {m | m.recordsPerType.length / 2 ^ 32 = cutOff} toBytes := by
  have hrecord : SelfDelimiting Set.univ fun r : UInt32 × UInt32 =>
      toLeBytes 4 r.1.toNat ++ toLeBytes 4 r.2.toNat := selfDelimiting_u32.pair selfDelimiting_u32
  intro m hm m' hm' s t h
  simp only [toBytes, append_assoc] at h
  obtain ⟨hdataType, h⟩ := selfDelimiting_u32 trivial trivial h
  obtain ⟨hdataSize, h⟩ := selfDelimiting_u64 trivial trivial h
  obtain ⟨hclose, h⟩ := selfDelimiting_u64 trivial trivial h
  obtain ⟨hlength, h⟩ := selfDelimiting_toLeBytes 4 cutOff hm hm' h
  obtain ⟨hrecords, h⟩ := hrecord.list hlength h
  obtain ⟨hmax, h⟩ := selfDelimiting_u64 trivial trivial h
  obtain ⟨hreceived, h⟩ := selfDelimiting_u64 trivial trivial h
  obtain ⟨hlive, h⟩ := selfDelimiting_u64 trivial trivial h
  obtain ⟨hdensity, h⟩ := (selfDelimiting_vector 32).option trivial trivial h
  obtain ⟨hsize, h⟩ := selfDelimiting_u64.option trivial trivial h
  refine ⟨?_, h⟩
  cases m
  cases m'
  subst hdataType hdataSize hclose hrecords hmax hreceived hlive hdensity hsize
  rfl

/-- **A node's signature commits to one set of metrics, reward address and timestamp.** -/
theorem MerklePaymentCandidateNode.quote_eq_of_bytesToSign {metrics metrics' : QuotingMetrics}
    {rewardAddress rewardAddress' : RewardsAddress} {timestamp timestamp' : UInt64}
    (hrecords : metrics.recordsPerType.length < 2 ^ 32)
    (hrecords' : metrics'.recordsPerType.length < 2 ^ 32)
    (h : bytesToSign metrics rewardAddress timestamp
      = bytesToSign metrics' rewardAddress' timestamp') :
    metrics = metrics' ∧ rewardAddress = rewardAddress' ∧ timestamp = timestamp' := by
  simp only [bytesToSign, append_assoc] at h
  obtain ⟨hmetrics, h⟩ := QuotingMetrics.selfDelimiting_toBytes 0 (Nat.div_eq_of_lt hrecords)
    (Nat.div_eq_of_lt hrecords') h
  obtain ⟨haddress, h⟩ := append_inj_vector h
  exact ⟨hmetrics, haddress, selfDelimiting_u64.injOn trivial trivial h⟩

theorem quote_eq_of_bytesToSign_sample :
    { Sample.metrics 3 with dataSize := 1000 + 24 } = Sample.metrics 3 := by
  have hbytes : MerklePaymentCandidateNode.bytesToSign
      { metrics 3 with dataSize := 1000 + 24 } (Vector.replicate 20 9) 5
      = MerklePaymentCandidateNode.bytesToSign (metrics 3) (Vector.replicate 20 9) 5 := rfl
  exact (MerklePaymentCandidateNode.quote_eq_of_bytesToSign (by decide) (by decide) hbytes).1

/-! ### Candidate pools -/

/-- Midpoint proofs with as many siblings are laid out differently if they differ. -/
theorem MidpointProof.eq_of_hashBytes {m m' : MidpointProof}
    (hdepth : m.branch.depth = m'.branch.depth) (h : m.hashBytes = m'.hashBytes) : m = m' := by
  obtain ⟨hsiblings, h⟩ := (selfDelimiting_vector 32).list hdepth h
  obtain ⟨hindex, h⟩ := selfDelimiting_u64 trivial trivial h
  obtain ⟨htotal, h⟩ := selfDelimiting_u64 trivial trivial h
  obtain ⟨hleaf, h⟩ := append_inj_vector h
  obtain ⟨hroot, h⟩ := append_inj_vector h
  obtain ⟨hsalt, h⟩ := (selfDelimiting_vector 32).option trivial trivial h
  have htimestamp := selfDelimiting_u64.injOn trivial trivial h
  obtain ⟨⟨⟩, _⟩ := m'
  subst hsiblings hindex htotal hleaf hroot hsalt htimestamp
  rfl

/-- Candidates whose fields of variable length are as long. -/
structure MerklePaymentCandidateNode.SameLengths (a b : MerklePaymentCandidateNode) : Prop where
  pubKey : a.pubKey.length = b.pubKey.length
  signature : a.signature.length = b.signature.length
  /-- Of the number of records, the part that is cut off in the count. -/
  records : a.quotingMetrics.recordsPerType.length / 2 ^ 32
    = b.quotingMetrics.recordsPerType.length / 2 ^ 32

theorem MerklePaymentCandidateNode.SameLengths.refl (a : MerklePaymentCandidateNode) :
    a.SameLengths a := ⟨rfl, rfl, rfl⟩

theorem MerklePaymentCandidateNode.SameLengths.toldApart {a b : MerklePaymentCandidateNode}
    (hsame : a.SameLengths b) : ToldApart toBytes a b := by
  intro s t h
  simp only [toBytes, append_assoc] at h
  obtain ⟨hkey, h⟩ := append_inj h hsame.pubKey
  obtain ⟨hmetrics, h⟩ := QuotingMetrics.selfDelimiting_toBytes _ hsame.records rfl h
  obtain ⟨haddress, h⟩ := append_inj_vector h
  obtain ⟨htimestamp, h⟩ := selfDelimiting_u64 trivial trivial h
  obtain ⟨hsignature, h⟩ := append_inj h hsame.signature
  refine ⟨?_, h⟩
  cases a
  cases b
  subst hkey hmetrics haddress htimestamp hsignature
  rfl

namespace MerklePaymentCandidatePool

/-- Pools with as many siblings in the midpoint branch, and candidates of the same lengths. -/
structure SameLengths (p q : MerklePaymentCandidatePool) : Prop where
  depth : p.midpointProof.branch.depth = q.midpointProof.branch.depth
  candidates : ∀ i : Fin candidatesPerPool, p.candidateNodes[i].SameLengths q.candidateNodes[i]

def hashInputs (c : Crypto) (p : MerklePaymentCandidatePool) : List Bytes :=
  [p.hashBytes c, p.midpointProof.hashBytes]

theorem candidateNodes_eq {p q : MerklePaymentCandidatePool} (hsame : p.SameLengths q)
    (h : encodeAll MerklePaymentCandidateNode.toBytes p.candidateNodes.toList
      = encodeAll MerklePaymentCandidateNode.toBytes q.candidateNodes.toList) :
    p.candidateNodes = q.candidateNodes := by
  have hplaces : List.Forall₂ (ToldApart MerklePaymentCandidateNode.toBytes)
      p.candidateNodes.toList q.candidateNodes.toList := by
    refine forall₂_iff_get.mpr ⟨by simp, ?_⟩
    intro i hi hi'
    have hbound : i < candidatesPerPool := by simpa using hi
    simpa using (hsame.candidates ⟨i, hbound⟩).toldApart
  exact Vector.toList_inj.mp (encodeAll_toldApart hplaces (congrArg (· ++ []) h)).1

/--
**Of pools with the same hash, exactly those of the same lengths are the same pool**, where
nothing that is hashed collides.
-/
theorem pool_eq_iff_sameLengths {c : Crypto} {p q : MerklePaymentCandidatePool}
    (hcollision : Set.InjOn c.sha3_256 {x | x ∈ p.hashInputs c ++ q.hashInputs c})
    (hhash : p.hash c = q.hash c) : p = q ↔ p.SameLengths q := by
  constructor
  · rintro rfl
    exact ⟨rfl, fun i => .refl _⟩
  · intro hsame
    have hbytes : p.hashBytes c = q.hashBytes c :=
      hcollision (by simp [hashInputs]) (by simp [hashInputs]) hhash
    obtain ⟨hmidpoint, hbytes⟩ := append_inj_vector hbytes
    have hmidpoint : p.midpointProof.hashBytes = q.midpointProof.hashBytes :=
      hcollision (by simp [hashInputs]) (by simp [hashInputs]) hmidpoint
    have hproof := MidpointProof.eq_of_hashBytes hsame.depth hmidpoint
    have hnodes := candidateNodes_eq hsame (append_cancel_left hbytes)
    cases p
    cases q
    subst hproof hnodes
    rfl

end MerklePaymentCandidatePool

private theorem candidatesPerPool_pos : 0 < candidatesPerPool := by decide

/-- The sample pool, with the first candidate's signature moved to the front of the next key. -/
def Sample.shiftedPool : MerklePaymentCandidatePool :=
  { pool 3 with
    candidateNodes := ((pool 3).candidateNodes.set 0 { candidate 3 with signature := [] }
      candidatesPerPool_pos).set 1 { candidate 3 with pubKey := [7, 7] } }

private theorem shiftedPool_ne : pool 3 ≠ shiftedPool := by
  intro h
  have hkey := congrArg (fun pool => pool.candidateNodes[1].pubKey) h
  exact absurd hkey (by decide)

private theorem shiftedPool_hashBytes :
    (pool 3).hashBytes Crypto.simple = shiftedPool.hashBytes Crypto.simple := by
  decide +kernel

private theorem shiftedPool_no_collision : Set.InjOn Crypto.simple.sha3_256
    {x | x ∈ (pool 3).hashInputs Crypto.simple
      ++ shiftedPool.hashInputs Crypto.simple} := by
  have hinputs : shiftedPool.hashInputs Crypto.simple
      = (pool 3).hashInputs Crypto.simple :=
    congrArg (· :: _) shiftedPool_hashBytes.symm
  have hpair : ∀ x ∈ (pool 3).hashInputs Crypto.simple,
      ∀ y ∈ (pool 3).hashInputs Crypto.simple,
      Crypto.simple.sha3_256 x = Crypto.simple.sha3_256 y → x = y := by
    decide +kernel
  intro x hx y hy
  rw [Set.mem_ofPred_eq, hinputs, mem_append, or_self] at hx hy
  exact hpair x hx y hy

theorem pool_eq_iff_sameLengths_shifted :
    (Sample.pool 3).hash Crypto.simple = Sample.shiftedPool.hash Crypto.simple ∧
      ¬ (Sample.pool 3).SameLengths Sample.shiftedPool := by
  have hhash : (pool 3).hash Crypto.simple = shiftedPool.hash Crypto.simple :=
    congrArg Crypto.simple.sha3_256 shiftedPool_hashBytes
  refine ⟨hhash, fun hsame => shiftedPool_ne ?_⟩
  exact (MerklePaymentCandidatePool.pool_eq_iff_sameLengths shiftedPool_no_collision hhash).mpr
    hsame

/-- Without the condition it fails: a byte moves from a signature to the next candidate's key. -/
theorem pool_hash_not_binding :
    ¬ ∀ (c : Crypto) (p q : MerklePaymentCandidatePool),
      Set.InjOn c.sha3_256 {x | x ∈ p.hashInputs c ++ q.hashInputs c} →
      p.hash c = q.hash c → p = q := by
  intro hclaim
  exact shiftedPool_ne (hclaim Crypto.simple _ _ shiftedPool_no_collision
    (congrArg Crypto.simple.sha3_256 shiftedPool_hashBytes))

end Autonomi
