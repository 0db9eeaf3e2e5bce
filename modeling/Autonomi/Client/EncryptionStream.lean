/-
Files as streams of encrypted chunks.

A large file is encrypted by a thread that sends its chunks through a channel, then the
data map through another, and closes the first; the stream finds out that the thread is
done when there is nothing left to receive.  What the thread will send is part of the
state here, so that a stream is determined by what it still produces.
-/
import Autonomi.Protocol.Storage

namespace Autonomi.Client

structure Metadata where
  created : UInt64
  modified : UInt64
  /-- In bytes. -/
  size : UInt64
  extra : Option String
deriving DecidableEq

inductive EncryptionState
  | inMemory (chunks : List Chunk) (dataMapChunk : Chunk)
  /-- The chunks the thread still sends, and the data map if it gets to send one. -/
  | streamInProgress (pending : List Chunk) (datamap : Option Chunk)
      (chunkCount totalEstimatedChunks : Nat)
  | streamDone (dataMapChunk : Chunk) (totalChunkCount : Nat)
deriving DecidableEq

structure EncryptionStream where
  filePath : String
  relativePath : String
  metadata : Metadata
  isPublic : Bool
  state : EncryptionState
deriving DecidableEq

namespace EncryptionStream

variable (stream : EncryptionStream)

def totalChunks : Nat :=
  match stream.state with
  | .inMemory chunks _ => chunks.length
  | .streamInProgress _ _ _ totalEstimatedChunks => totalEstimatedChunks
  | .streamDone _ totalChunkCount => totalChunkCount

def dataMapChunk : Option Chunk :=
  match stream.state with
  | .inMemory _ dataMapChunk => some dataMapChunk
  | .streamInProgress _ _ _ _ => none
  | .streamDone dataMapChunk _ => some dataMapChunk

def nonEmpty (batch : List Chunk) : Option (List Chunk) := if batch = [] then none else some batch

/-- `next_batch`: up to so many chunks, and the stream after it. -/
def nextBatch (batchSize : Nat) : Option (List Chunk) × EncryptionStream :=
  if batchSize = 0 then (some [], stream)
  else
    match stream.state with
    | .inMemory chunks dataMapChunk =>
      (nonEmpty (chunks.take batchSize),
        { stream with state := .inMemory (chunks.drop batchSize) dataMapChunk })
    | .streamInProgress pending datamap chunkCount totalEstimatedChunks =>
      if pending.length < batchSize then
        -- everything is received, and the channel found closed
        match datamap with
        | some dataMapChunk =>
          if stream.isPublic then
            (some (pending ++ [dataMapChunk]),
              { stream with state := .streamDone dataMapChunk (chunkCount + 1) })
          else
            (nonEmpty pending, { stream with state := .streamDone dataMapChunk chunkCount })
        | none =>
          (nonEmpty pending, { stream with
            state := .streamInProgress [] none (chunkCount + pending.length)
              totalEstimatedChunks })
      else
        (some (pending.take batchSize), { stream with
          state := .streamInProgress (pending.drop batchSize) datamap (chunkCount + batchSize)
            totalEstimatedChunks })
    | .streamDone _ _ => (none, stream)

/-! ### What a stream produces -/

def produced : List Chunk :=
  match stream.state with
  | .inMemory chunks _ => chunks
  | .streamInProgress pending datamap _ _ =>
    pending ++ if stream.isPublic then datamap.toList else []
  | .streamDone _ _ => []

def finalDataMap : Option Chunk :=
  match stream.state with
  | .inMemory _ dataMapChunk => some dataMapChunk
  | .streamInProgress _ datamap _ _ => datamap
  | .streamDone dataMapChunk _ => some dataMapChunk

variable {stream : EncryptionStream}

/-- A data map that will never be there is not there. -/
theorem dataMapChunk_eq_none (h : stream.finalDataMap = none) : stream.dataMapChunk = none := by
  obtain ⟨filePath, relativePath, metadata, isPublic, state⟩ := stream
  cases state with
  | inMemory chunks dataMapChunk => cases h
  | streamInProgress pending datamap count estimated => rfl
  | streamDone dataMapChunk count => cases h

theorem nonEmpty_getD (batch : List Chunk) : (nonEmpty batch).getD [] = batch := by
  unfold nonEmpty
  split
  · rename_i h
    exact h.symm
  · rfl

theorem nonEmpty_eq_none {batch : List Chunk} : nonEmpty batch = none ↔ batch = [] := by
  simp [nonEmpty]

/-- What a stream gives is a matter of what it produces.  With the last of it comes the data map, if
there is one. -/
theorem nextBatch_eq {batchSize : Nat} (h : 0 < batchSize) :
    (stream.nextBatch batchSize).1 = nonEmpty (stream.produced.take batchSize) ∧
      (stream.nextBatch batchSize).2.produced = stream.produced.drop batchSize ∧
      (stream.nextBatch batchSize).2.finalDataMap = stream.finalDataMap ∧
      (stream.produced.length < batchSize →
        (stream.nextBatch batchSize).2.dataMapChunk = stream.finalDataMap) := by
  have hzero : batchSize ≠ 0 := Nat.ne_of_gt h
  obtain ⟨filePath, relativePath, metadata, isPublic, state⟩ := stream
  cases state with
  | inMemory chunks datamap | streamDone datamap count =>
    simp [nextBatch, hzero, produced, finalDataMap, dataMapChunk, nonEmpty]
  | streamInProgress pending datamap count estimated =>
    by_cases hclosed : pending.length < batchSize
    · have hfront : pending.length ≤ batchSize := le_of_lt hclosed
      have hall : pending.length + 1 ≤ batchSize := hclosed
      cases datamap <;> cases isPublic <;>
        simp [nextBatch, hzero, hclosed, produced, finalDataMap, dataMapChunk, nonEmpty,
          List.take_of_length_le, List.drop_of_length_le, hfront, hall]
    · have hlong : batchSize ≤ pending.length := Nat.not_lt.mp hclosed
      have hne : pending ≠ [] := List.ne_nil_of_length_pos (by omega)
      simp [nextBatch, hzero, hclosed, produced, finalDataMap, nonEmpty, hne,
        List.take_append_of_le_length hlong, List.drop_append_of_le_length hlong]
      omega

theorem nextBatch_spec (batchSize : Nat) :
    (stream.nextBatch batchSize).1.getD [] = stream.produced.take batchSize ∧
      (stream.nextBatch batchSize).2.produced = stream.produced.drop batchSize ∧
      (stream.nextBatch batchSize).2.finalDataMap = stream.finalDataMap := by
  rcases Nat.eq_zero_or_pos batchSize with rfl | h
  · simp [nextBatch]
  · obtain ⟨hbatch, hrest, hmap, -⟩ := stream.nextBatch_eq h
    exact ⟨by rw [hbatch, nonEmpty_getD], hrest, hmap⟩

theorem nextBatch_eq_none {batchSize : Nat} (h : 0 < batchSize) :
    (stream.nextBatch batchSize).1 = none ↔ stream.produced = [] := by
  rw [(stream.nextBatch_eq h).1, nonEmpty_eq_none, List.take_eq_nil_iff]
  exact or_iff_right (Nat.ne_of_gt h)

/-- `while let Some(batch) = stream.next_batch(..)`: all batches, and the stream after them. -/
def drain (batchSize : Nat) [NeZero batchSize] (stream : EncryptionStream) :
    List Chunk × EncryptionStream :=
  match _hnext : stream.nextBatch batchSize with
  | (none, last) => ([], last)
  | (some batch, rest) =>
    let (chunks, last) := drain batchSize rest
    (batch ++ chunks, last)
termination_by stream.produced.length
decreasing_by
  have hsize : 0 < batchSize := Nat.pos_of_ne_zero (NeZero.ne batchSize)
  have hrest := (stream.nextBatch_spec batchSize).2.1
  have hne : stream.produced ≠ [] := fun hnil => by
    rw [← nextBatch_eq_none hsize, _hnext] at hnil
    cases hnil
  rw [_hnext] at hrest
  rw [hrest, List.length_drop]
  have := List.length_pos_iff.mpr hne
  omega

/-- A drained stream has given all it produces, and has its data map if there is one. -/
theorem drain_spec (batchSize : Nat) [NeZero batchSize] (stream : EncryptionStream) :
    (stream.drain batchSize).1 = stream.produced ∧
      (stream.drain batchSize).2.dataMapChunk = stream.finalDataMap := by
  have hsize : 0 < batchSize := Nat.pos_of_ne_zero (NeZero.ne batchSize)
  induction stream using drain.induct batchSize with
  | case1 stream last h =>
    have hnil : stream.produced = [] := (nextBatch_eq_none hsize).mp (by rw [h])
    have hlast := (stream.nextBatch_eq hsize).2.2.2 (by rwa [hnil])
    rw [h] at hlast
    rw [drain, h]
    exact ⟨hnil.symm, hlast⟩
  | case2 stream batch rest h chunks last hdrain ih =>
    obtain ⟨hbatch, hrest, hmap⟩ := stream.nextBatch_spec batchSize
    rw [h] at hbatch hrest hmap
    rw [drain, h]
    refine ⟨?_, ih.2.trans hmap⟩
    calc batch ++ (rest.drain batchSize).1
      _ = stream.produced.take batchSize ++ stream.produced.drop batchSize := by
          rw [ih.1, hrest, ← hbatch, Option.getD_some]
      _ = stream.produced := List.take_append_drop _ _

/-! ### Batch after batch -/

/-- What calls with these sizes return, and the stream after them. -/
def nextBatches : List Nat → EncryptionStream → List (Option (List Chunk)) × EncryptionStream
  | [], stream => ([], stream)
  | size :: sizes, stream =>
    let (batch, rest) := stream.nextBatch size
    let (batches, last) := nextBatches sizes rest
    (batch :: batches, last)

def countChunks (batches : List (Option (List Chunk))) : Nat :=
  (batches.map fun batch => (batch.getD []).length).sum

/-- **Calls of any sizes return what the stream produces**, in order and once. -/
theorem nextBatches_produced (sizes : List Nat) (stream : EncryptionStream) :
    (nextBatches sizes stream).1.flatMap (·.getD []) = stream.produced.take sizes.sum ∧
      (nextBatches sizes stream).2.produced = stream.produced.drop sizes.sum ∧
      (nextBatches sizes stream).2.finalDataMap = stream.finalDataMap := by
  induction sizes generalizing stream with
  | nil => simp [nextBatches]
  | cons size sizes ih =>
    obtain ⟨hbatch, hrest, hmap⟩ := stream.nextBatch_spec size
    simp [nextBatches, hbatch, ih, hrest, hmap, List.take_add]

variable {dataMapChunk : Chunk} {count estimated : Nat} {sizes : List Nat}
  (hsizes : ∀ size ∈ sizes, 0 < size)

include hsizes

theorem nextBatches_of_done (h : stream.state = .streamDone dataMapChunk count) :
    countChunks (nextBatches sizes stream).1 = 0 ∧ (nextBatches sizes stream).2 = stream := by
  induction sizes with
  | nil => exact ⟨rfl, rfl⟩
  | cons size sizes ih =>
    obtain ⟨hsize, hsizes⟩ := List.forall_mem_cons.mp hsizes
    have hnext : stream.nextBatch size = (none, stream) := by
      simp [nextBatch, h, Nat.ne_of_gt hsize]
    simpa [nextBatches, hnext, countChunks] using ih hsizes

/--
**When the number of chunks is right**: once a call has returned nothing, the stream has
counted what its calls returned exactly if the first ones returned all chunks of the
file, with the data map left for the next.
-/
theorem totalChunks_eq_iff {pending : List Chunk}
    (hstate : stream.state = .streamInProgress pending (some dataMapChunk) count estimated)
    (hnone : none ∈ (nextBatches sizes stream).1) :
    (nextBatches sizes stream).2.totalChunks = count + countChunks (nextBatches sizes stream).1 ↔
      ∃ k, (sizes.take k).sum = pending.length := by
  induction sizes generalizing stream pending count with
  | nil => cases hnone
  | cons size sizes ih =>
    obtain ⟨hsize, hsizes⟩ := List.forall_mem_cons.mp hsizes
    have hzero : size ≠ 0 := Nat.ne_of_gt hsize
    rw [← Nat.or_exists_add_one]
    simp only [List.take_zero, List.sum_nil, List.take_succ_cons, List.sum_cons]
    by_cases hclosed : pending.length < size
    · have hnext : (stream.nextBatch size).2.state
          = .streamDone dataMapChunk (count + stream.isPublic.toNat) := by
        cases hpublic : stream.isPublic <;> simp [nextBatch, hzero, hstate, hclosed, hpublic]
      have hlength : ((stream.nextBatch size).1.getD []).length
          = pending.length + stream.isPublic.toNat := by
        rw [(stream.nextBatch_spec size).1]
        cases hpublic : stream.isPublic <;> simp [produced, hstate, hpublic] <;> omega
      have hnever : ¬ ∃ k, size + (sizes.take k).sum = pending.length := by
        rintro ⟨k, hk⟩
        omega
      obtain ⟨hcount, hlast⟩ := nextBatches_of_done hsizes hnext
      rw [countChunks] at hcount
      simp only [nextBatches, countChunks, List.map_cons, List.sum_cons, hcount, hlast, hlength,
        totalChunks, hnext, or_iff_left hnever]
      omega
    · have hnext : stream.nextBatch size = (some (pending.take size), { stream with
          state := .streamInProgress (pending.drop size) (some dataMapChunk) (count + size)
            estimated }) := by
        simp [nextBatch, hzero, hstate, hclosed]
      have hne : ¬ 0 = pending.length := by omega
      have hfull : (pending.take size).length = size := List.length_take_of_le (by omega)
      simp only [nextBatches, hnext, List.mem_cons, reduceCtorEq, false_or] at hnone
      have hrest := ih hsizes rfl hnone
      simp only [nextBatches, hnext, countChunks, List.map_cons, List.sum_cons, Option.getD_some,
        hfull, ← Nat.add_assoc, or_iff_right hne]
      rw [← countChunks, hrest, List.length_drop]
      refine exists_congr fun k => ?_
      omega

omit hsizes

/-- A file of three chunks. -/
def threeChunks : EncryptionStream :=
  ⟨"", "", ⟨0, 0, 0, none⟩, false, .streamInProgress [⟨[1]⟩, ⟨[2]⟩, ⟨[3]⟩] (some ⟨[4]⟩) 0 3⟩

theorem totalChunks_eq_sample : (nextBatches [3, 1] threeChunks).2.totalChunks = 3 :=
  (totalChunks_eq_iff (by decide : ∀ size ∈ [3, 1], 0 < size) rfl (by decide)).mpr ⟨1, rfl⟩

/-- All three are returned at once, and none of them is counted. -/
theorem chunks_not_counted :
    none ∈ (nextBatches [4, 4] threeChunks).1 ∧ (nextBatches [4, 4] threeChunks).2.totalChunks = 0 ∧
      countChunks (nextBatches [4, 4] threeChunks).1 = 3 := by
  decide

end EncryptionStream

end Autonomi.Client
