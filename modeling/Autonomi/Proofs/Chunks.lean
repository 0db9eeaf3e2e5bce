/-
What the validation of a chunk does with the local record.

A chunk is never compared with what is stored: it is put if the existence check
found nothing under its key, and otherwise left alone.  A monitor watches for the
existence check; it allows a put only once the check has come back with nothing,
and no reads at all.
-/
import Autonomi.Proofs.Dispatch

namespace Autonomi

open Lib Lib.Fallible

inductive ChunkState
  | unknown
  /-- Nothing was found under the key. -/
  | absent
  | wrote

def Record.IsChunk (key : RecordKey) (record : Record) : Prop :=
  record.key = key ∧ ∃ chunk, record.value = .ofChunk chunk

def chunkMonitor (key : RecordKey) :
    Program.Monitor NodeRequest NodeRequest.Response ChunkState where
  allows
    | .absent, .putLocalRecord record _ => record.IsChunk key
    | _, .putLocalRecord _ _ => False
    | _, .getLocalRecord _ => False
    | _, _ => True
  next
    | _, .putLocalRecord _ _, _ => .wrote
    | .unknown, .isRecordKeyPresentLocally k, .ok none => if k = key then .absent else .unknown
    | s, _, _ => s

/-- The validation puts a chunk at most, once, and only where nothing is stored. -/
def PutsIfAbsent (key : RecordKey) (p : Validation Unit) : Prop :=
  Obeys (chunkMonitor key) (fun _ _ => True) .unknown p

variable {n : Node} {key : RecordKey} {record : Record}

section Rules

variable {α : Type} {s : ChunkState}

theorem chunkMonitor_quiet (key : RecordKey) (s : ChunkState) {q : NodeRequest} (h : q.Quiet) :
    (chunkMonitor key).allows s q ∧
      ∀ x, (chunkMonitor key).next s q x = s ∨ (chunkMonitor key).next s q x = .absent := by
  cases q with
  | getLocalRecord _ | putLocalRecord _ _ => exact False.elim h
  | isRecordKeyPresentLocally k =>
    refine ⟨by cases s <;> trivial, fun x => ?_⟩
    cases s with
    | unknown =>
      rcases x with e | _ | entry
      · exact .inl rfl
      · by_cases hk : k = key
        · exact .inr (if_pos hk)
        · exact .inl (if_neg hk)
      · exact .inl rfl
    | absent | wrote => exact .inl (by rcases x with e | _ | entry <;> rfl)
  | _ => exact ⟨by cases s <;> trivial, fun _ => .inl (by cases s <;> rfl)⟩

theorem obeys_chunk_quiet {p : Validation α}
    {post : ChunkState → Except PutValidationError α → Prop} (h : Asks NodeRequest.Quiet p)
    (hpost : ∀ x, post s x) (habsent : ∀ x, post .absent x) :
    Obeys (chunkMonitor key) post s p := by
  unfold Asks at h
  unfold Obeys at h ⊢
  generalize p.run = tree at h ⊢
  induction tree generalizing s with
  | done a => exact hpost a
  | ask q next ih =>
    obtain ⟨hallows, hnext⟩ := chunkMonitor_quiet key s h.1
    refine ⟨hallows, fun x => ?_⟩
    rcases hnext x with hsame | hlearned
    · rw [hsame]
      exact ih x hpost (h.2 x)
    · rw [hlearned]
      exact ih x habsent (h.2 x)

theorem obeys_chunk_quiet_bind {p : Validation α} {f : α → Validation Unit}
    (hp : Asks NodeRequest.Quiet p)
    (hf : ∀ a, Obeys (chunkMonitor key) (fun _ _ => True) .absent (f a)) :
    Obeys (chunkMonitor key) (fun _ _ => True) .absent (p >>= f) := by
  refine obeys_bind (obeys_chunk_quiet hp ?_ ?_)
  all_goals
    intro x
    cases x with
    | ok a => exact hf a
    | error e => trivial

theorem obeys_chunk_existence {address : NetworkAddress} {f : Bool → Validation Unit}
    (hpresent : Obeys (chunkMonitor key) (fun _ _ => True) .unknown (f true))
    (habsent : address.toRecordKey n.crypto = key →
      Obeys (chunkMonitor key) (fun _ _ => True) .absent (f false)) :
    PutsIfAbsent key (validateKeyAndExistence n address key >>= f) := by
  refine obeys_bind (obeys_reject_bind (fun _ => trivial) fun hkey => ?_)
  have hkey := not_not.mp hkey
  refine obeys_request_bind trivial fun x => ?_
  rcases x with e | _ | entry
  · exact obeys_fromExcept_bind (fun _ _ => trivial) nofun
  · refine obeys_fromExcept_bind (fun _ _ => trivial) fun a ha => ?_
    cases ha
    refine obeys_pure ?_
    have hnext : (chunkMonitor key).next .unknown
        (.isRecordKeyPresentLocally (address.toRecordKey n.crypto)) (.ok none) = .absent :=
      if_pos hkey.symm
    rw [hnext]
    exact habsent hkey.symm
  · refine obeys_fromExcept_bind (fun _ _ => trivial) fun a ha => ?_
    cases ha
    exact obeys_pure hpresent

variable {chunk : Chunk} {isClientPut : Bool}
  (hkey : (NetworkAddress.chunkAddress (chunk.name n.crypto)).toRecordKey n.crypto = key)

include hkey

theorem obeys_storeChunk {post : ChunkState → Except PutValidationError Unit → Prop}
    (herror : ∀ e, post .absent (.error e)) (hwrote : post .wrote (.ok ())) :
    Obeys (chunkMonitor key) post .absent (storeChunk n chunk isClientPut) := by
  refine obeys_reject_bind (fun _ => herror _) fun _ => ?_
  exact obeys_request ⟨hkey, chunk, rfl⟩ fun _ => hwrote

theorem obeys_storeChunkThenNotify {k : RecordKey} {validationType : ValidationType} :
    Obeys (chunkMonitor key) (fun _ _ => True) .absent
      (storeThenNotify (storeChunk n chunk isClientPut) k validationType) :=
  obeys_bind (obeys_storeChunk hkey (fun _ => trivial) (obeys_request trivial fun _ => trivial))

end Rules

/-! ### The chunk paths -/

theorem putsIfAbsent_putPaidChunk : PutsIfAbsent record.key (putPaidChunk n record) := by
  refine obeys_fromExcept_bind (fun _ _ => trivial) ?_
  rintro ⟨payment, chunk⟩ -
  have hpayment : Asks NodeRequest.Quiet (attempt (paymentForUsExistsAndIsStillValid n
      (.chunkAddress (chunk.name n.crypto)) .chunk payment) : Validation _) :=
    asks_attempt quiet_paymentForUs
  refine obeys_chunk_existence ?_ fun hkey => ?_
  · exact obeys_chunk_quiet (asks_bind hpayment fun _ => quiet_notifyFetchCompleted)
      (fun _ => trivial) (fun _ => trivial)
  · refine obeys_chunk_quiet_bind hpayment fun paymentRes => ?_
    exact obeys_chunk_quiet_bind asks_fromExcept fun _ => obeys_storeChunkThenNotify hkey

theorem putsIfAbsent_storeReplicatedChunk :
    PutsIfAbsent record.key (storeReplicatedChunk n record) := by
  refine obeys_fromExcept_bind (fun _ _ => trivial) fun chunk _ => ?_
  refine obeys_chunk_existence (obeys_pure trivial) fun hkey => ?_
  exact obeys_storeChunk hkey (fun _ => trivial) trivial

theorem putsIfAbsent_merklePut :
    PutsIfAbsent record.key (validateAndStoreMerklePaymentRecord n record .chunk) := by
  refine obeys_fromExcept_bind (fun _ _ => trivial) ?_
  rintro ⟨proof, chunk⟩ -
  refine obeys_chunk_existence ?_ fun hkey => ?_
  · exact obeys_chunk_quiet quiet_notifyFetchCompleted (fun _ => trivial) (fun _ => trivial)
  · exact obeys_chunk_quiet_bind quiet_verifyMerklePayment fun _ => obeys_storeChunkThenNotify hkey

/-- **A chunk is put only where nothing is stored**, however it arrives. -/
theorem putsIfAbsent_start (source : Source) (htype : record.value.getDataType = some .chunk) :
    PutsIfAbsent record.key (Job.start n ⟨source, record⟩) := by
  obtain ⟨kind, hkind, hchunk⟩ := Option.map_eq_some_iff.mp htype
  cases source with
  | client =>
    show PutsIfAbsent record.key (validateAndStoreRecord n record)
    unfold validateAndStoreRecord
    rw [hkind]
    cases kind with
    | dataOnly dataType => cases hchunk; exact obeys_throw trivial
    | dataWithPayment dataType => cases hchunk; exact putsIfAbsent_putPaidChunk
    | dataWithMerklePayment dataType => cases hchunk; exact putsIfAbsent_merklePut
  | replicated =>
    show PutsIfAbsent record.key (storeReplicatedInRecord n record)
    unfold storeReplicatedInRecord
    rw [hkind]
    cases kind with
    | dataOnly dataType => cases hchunk; exact putsIfAbsent_storeReplicatedChunk
    | dataWithPayment dataType | dataWithMerklePayment dataType => exact obeys_throw trivial

end Autonomi
