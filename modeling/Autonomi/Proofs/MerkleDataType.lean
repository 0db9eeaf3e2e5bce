/-
The data type a Merkle batch was priced for, and the one it stores.

A pool's sixteen candidates sign the data type they quote for, and a verified pool
quotes for one data type throughout.  Which one that is, is never compared with the
type of the record the payment comes with.  So a record that is stored has been
paid at the price of its own type exactly when the first candidate quoted for it.
-/
import Autonomi.Proofs.PaymentForUs
import Autonomi.Proofs.Puts

namespace Autonomi

open Lib Lib.Checks Lib.Fallible

/-- Every candidate of the pool quoted for this data type. -/
def MerklePaymentCandidatePool.QuotedFor (pool : MerklePaymentCandidatePool)
    (dataType : DataTypes) : Prop :=
  ∀ node ∈ pool.candidateNodes.toList, node.quotingMetrics.dataType = dataType.getIndex

/-! ### What verification says of a pool -/

theorem MerklePaymentCandidatePool.dataType_of_verifySignatures {c : Crypto}
    {pool : MerklePaymentCandidatePool} {timestamp : UInt64}
    (h : pool.verifySignatures c timestamp = .ok ()) :
    ∀ node ∈ pool.candidateNodes.toList,
      node.quotingMetrics.dataType = pool.candidateNodes[0].quotingMetrics.dataType := by
  obtain ⟨_, -, h⟩ := bind_eq_ok.mp h
  obtain ⟨_, -, h⟩ := bind_eq_ok.mp h
  intro node hnode
  obtain ⟨_, htype, -⟩ := bind_eq_ok.mp (forM_eq_ok.mp h node hnode)
  exact not_not.mp (reject_eq_ok.mp htype)

variable {es : List NodeExchange}

theorem dataType_of_runs_verifyMerklePayment {n : Node} {proof : MerklePaymentProof}
    {address : NetworkAddress} (h : Runs (verifyMerklePayment n proof address) es (.ok ())) :
    ∀ node ∈ proof.winnerPool.candidateNodes.toList,
      node.quotingMetrics.dataType
        = proof.winnerPool.candidateNodes[0].quotingMetrics.dataType := by
  rcases runs_bind.mp h with ⟨_, -, he⟩ | ⟨_, _, _, -, -, h⟩
  · cases he
  rcases runs_bind.mp h with ⟨_, -, he⟩ | ⟨_, _, info, -, -, h⟩
  · cases he
  rcases runs_bind.mp h with ⟨_, -, he⟩ | ⟨_, _, now, -, -, h⟩
  · cases he
  rcases runs_bind.mp h with ⟨_, -, he⟩ | ⟨_, _, _, -, hverify, -⟩
  · cases he
  obtain ⟨-, hverify⟩ := runs_fromExcept.mp hverify
  have hproof := mapError_eq_ok.mp hverify.symm
  obtain ⟨_, hsigned, -⟩ := bind_eq_ok.mp hproof
  exact MerklePaymentCandidatePool.dataType_of_verifySignatures hsigned

/-! ### What a put says -/

variable {r : Except PutValidationError Unit} {e : NodeExchange}

theorem runs_merklePaid {α : Type} {proj : Item → Option α} {record : Record}
    {f : MerklePaymentProof × α → Validation Unit}
    (h : Runs (orInvalidRecord (record.value.merklePaidAs proj) record.key >>= f) es r)
    (he : e ∈ es) (hput : ¬ e.request.Quiet) :
    ∃ proof item a es', record.value.body = .merklePaid proof item ∧
      Runs (f (proof, a)) es' r ∧ e ∈ es' := by
  obtain ⟨_, second, ⟨proof, a⟩, -, hdecode, hrest, hmem⟩ :=
    runs_bind_of_mem h quiet_orInvalidRecord he hput
  obtain ⟨-, hdecode⟩ := runs_fromExcept.mp hdecode
  obtain ⟨item, hbody, -⟩ := RecordValue.merklePaidAs_eq_some.mp (okOr_eq_ok.mp hdecode.symm)
  exact ⟨proof, item, a, second, hbody, hrest, hmem⟩

theorem runs_verified {n : Node} {proof : MerklePaymentProof} {address : NetworkAddress}
    {f : Unit → Validation Unit} (h : Runs (verifyMerklePayment n proof address >>= f) es r)
    (he : e ∈ es) (hput : ¬ e.request.Quiet) :
    ∃ first, Runs (verifyMerklePayment n proof address) first (.ok ()) := by
  obtain ⟨first, _, _, -, hverify, -, -⟩ := runs_bind_of_mem h quiet_verifyMerklePayment he hput
  exact ⟨first, hverify⟩

theorem verified_of_put {n : Node} {record : Record} {dataType : DataTypes}
    (h : Runs (validateAndStoreMerklePaymentRecord n record dataType) es r) (he : e ∈ es)
    (hput : ¬ e.request.Quiet) :
    ∃ proof item address es', record.value.body = .merklePaid proof item ∧
      Runs (verifyMerklePayment n proof address) es' (.ok ()) := by
  cases dataType with
  | chunk =>
    obtain ⟨proof, item, chunk, es', hbody, h, he⟩ := runs_merklePaid h he hput
    obtain ⟨_, second, alreadyExists, -, -, h, he⟩ :=
      runs_bind_of_mem h quiet_validateKeyAndExistence he hput
    cases alreadyExists with
    | true => exact absurd (asks_runs quiet_notifyFetchCompleted h e he) hput
    | false =>
      obtain ⟨first, hverify⟩ := runs_verified h he hput
      exact ⟨proof, item, _, first, hbody, hverify⟩
  | scratchpad =>
    obtain ⟨proof, item, pad, es', hbody, h, he⟩ := runs_merklePaid h he hput
    obtain ⟨first, hverify⟩ := runs_verified h he hput
    exact ⟨proof, item, _, first, hbody, hverify⟩
  | graphEntry =>
    obtain ⟨proof, item, entry, es', hbody, h, he⟩ := runs_merklePaid h he hput
    obtain ⟨first, hverify⟩ := runs_verified h he hput
    exact ⟨proof, item, _, first, hbody, hverify⟩
  | pointer =>
    obtain ⟨proof, item, pointer, es', hbody, h, he⟩ := runs_merklePaid h he hput
    obtain ⟨first, hverify⟩ := runs_verified h he hput
    exact ⟨proof, item, _, first, hbody, hverify⟩

/--
**When a stored record was priced for its type.**  Whatever the network and the chain
answered: of a record that got stored, all candidates of the winner pool quoted for its
data type exactly when the first of them did.
-/
theorem stored_quotedFor_iff (n : Node) (record stored : Record) (dataType : DataTypes)
    (proof : MerklePaymentProof) (item : Item) (es : List NodeExchange)
    (r : Except PutValidationError Unit) (isClientPut : Bool)
    (hbody : record.value.body = .merklePaid proof item)
    (hruns : Runs (validateAndStoreMerklePaymentRecord n record dataType) es r)
    (hput : putExchange stored isClientPut ∈ es) :
    proof.winnerPool.QuotedFor dataType ↔
      proof.winnerPool.candidateNodes[0].quotingMetrics.dataType = dataType.getIndex := by
  obtain ⟨proof', item', _, _, hbody', hverify⟩ := verified_of_put hruns hput not_quiet_putExchange
  rw [hbody] at hbody'
  cases hbody'
  constructor
  · intro hquoted
    exact hquoted _ (by simp)
  · intro hfirst node hnode
    rw [dataType_of_runs_verifyMerklePayment hverify node hnode, hfirst]

/-! ### A batch priced for scratchpads that stores a chunk -/

namespace Sample

def chunk : Chunk := ⟨[2, 229]⟩

/-- The chunk with a payment from a pool that quoted for the given type. -/
def merkleRecord (dataType : UInt32) : Record where
  key := (bytes32 1001).toList
  value := ⟨some (.dataWithMerklePayment .chunk),
    .merklePaid (proof dataType (addressBranch 0)) (.chunk chunk)⟩

def honestCommitment (dataType : UInt32) : PoolCommitmentPacked where
  poolHash := (pool dataType).hash Crypto.simple
  candidates := Vector.replicate candidatesPerPool
    { rewardsAddress := Vector.replicate 20 9
      dataTypeAndTotalCostUnit := (metrics dataType).packed.toOption.getD 0 }

/-- Nothing is stored, the payment is on chain, and few peers are known. -/
def answers (dataType : UInt32) : (q : NodeRequest) → q.Response
  | .isRecordKeyPresentLocally _ => .ok none
  | .getLocalRecord _ => .ok none
  | .putLocalRecord _ _ => ()
  | .notifyFetchCompleted _ _ => ()
  | .notifyPaymentReceived => ()
  | .getKClosestLocalPeers _ => .ok []
  | .getNetworkDensity => .ok none
  | .verifyPayment _ => .error .paymentInvalid
  | .getMerklePaymentInfo _ =>
    .ok { depth := 1, merklePaymentTimestamp := timestamp, paidNodeAddresses := paidNodes }
  | .getMerklePaymentPackedCommitments _ _ => .ok [honestCommitment dataType]
  | .getClosestPeersWithRetries _ _ => .ok []
  | .systemTimeNow => .ok timestamp

def merkleTrace (dataType : UInt32) : List NodeExchange × Except PutValidationError Unit :=
  (validateAndStoreMerklePaymentRecord node (merkleRecord dataType) .chunk).run.trace
    (answers dataType)

theorem runs_merkleTrace (dataType : UInt32) :
    Runs (validateAndStoreMerklePaymentRecord node (merkleRecord dataType) .chunk)
      (merkleTrace dataType).1 (merkleTrace dataType).2 :=
  Program.executes_trace _ _

def stored : Record := { key := (bytes32 1001).toList, value := .ofChunk chunk }

end Sample

open Sample

theorem stored_quotedFor_sample : (Sample.pool 0).QuotedFor .chunk :=
  (stored_quotedFor_iff node (merkleRecord 0) stored .chunk
    (proof 0 (addressBranch 0)) (.chunk chunk) _ _ true rfl
    (runs_merkleTrace 0) (putExchange_mem (by decide +kernel))).mpr (by decide)

/-- A chunk is stored with the payment of a batch that was priced for scratchpads. -/
theorem stored_not_always_quotedFor :
    ¬ ∀ (n : Node) (record stored : Record) (dataType : DataTypes) (proof : MerklePaymentProof)
        (item : Item) (es : List NodeExchange) (r : Except PutValidationError Unit)
        (isClientPut : Bool),
      record.value.kind = some (.dataWithMerklePayment dataType) →
      record.value.body = .merklePaid proof item →
      Runs (validateAndStoreMerklePaymentRecord n record dataType) es r →
      putExchange stored isClientPut ∈ es →
      proof.winnerPool.QuotedFor dataType := by
  intro h
  have hquoted := h node (merkleRecord 3) stored .chunk
    (proof 3 (addressBranch 0)) (.chunk chunk) _ _ true rfl rfl
    (runs_merkleTrace 3) (putExchange_mem (by decide +kernel))
  have hfirst := hquoted (pool 3).candidateNodes[0] (by simp [proof])
  exact absurd hfirst (by decide)

end Autonomi
