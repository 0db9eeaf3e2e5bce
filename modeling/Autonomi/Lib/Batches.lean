/-
A list in batches of a fixed size: `slice::chunks`.
-/
import Mathlib.Algebra.GroupWithZero.Nat
import Mathlib.Data.List.Basic

namespace Lib

open List

variable {α : Type} {size : Nat} [NeZero size]

/-- Consecutive batches of `size` elements; the last one has what is left. -/
def batches (size : Nat) [NeZero size] : List α → List (List α)
  | [] => []
  | a :: l => (a :: l).take size :: batches size ((a :: l).drop size)
termination_by l => l.length
decreasing_by
  have := NeZero.ne size
  simp only [length_drop, length_cons]
  omega

@[simp] theorem batches_nil : batches size ([] : List α) = [] := by rw [batches]

variable {l : List α}

theorem batches_of_ne_nil (h : l ≠ []) :
    batches size l = l.take size :: batches size (l.drop size) := by
  cases l with
  | nil => exact absurd rfl h
  | cons a l => rw [batches]

/-- What fits in one batch is one. -/
theorem batches_of_length_le (h : l ≠ []) (hle : l.length ≤ size) : batches size l = [l] := by
  rw [batches_of_ne_nil h, take_of_length_le hle, drop_of_length_le hle, batches_nil]

theorem flatten_batches (l : List α) : (batches size l).flatten = l := by
  induction l using batches.induct size with
  | case1 => rw [batches_nil, flatten_nil]
  | case2 a l ih => rw [batches, flatten_cons, ih, take_append_drop]

theorem ne_nil_of_mem_batches {batch : List α} (h : batch ∈ batches size l) : batch ≠ [] := by
  induction l using batches.induct size with
  | case1 => simp at h
  | case2 a l ih =>
    rw [batches] at h
    rcases mem_cons.mp h with rfl | h
    · obtain ⟨n, hn⟩ := Nat.exists_eq_succ_of_ne_zero (NeZero.ne size)
      simp [hn]
    · exact ih h

theorem length_le_of_mem_batches {batch : List α} (h : batch ∈ batches size l) :
    batch.length ≤ size := by
  induction l using batches.induct size with
  | case1 => simp at h
  | case2 a l ih =>
    rw [batches] at h
    rcases mem_cons.mp h with rfl | h
    · exact length_take_le _ _
    · exact ih h

/-- The first so many batches are the front of the list. -/
theorem flatten_take_batches (l : List α) (k : Nat) :
    ((batches size l).take k).flatten = l.take (size * k) := by
  induction k generalizing l with
  | zero => simp
  | succ k ih =>
    by_cases hl : l = []
    · simp [hl]
    · rw [batches_of_ne_nil hl, take_succ_cons, flatten_cons, ih, Nat.mul_succ,
        Nat.add_comm, take_add]

/-- How long the batches are depends on the length of the list only. -/
theorem map_length_batches {m : List α} (h : l.length = m.length) :
    (batches size l).map List.length = (batches size m).map List.length := by
  induction l using batches.induct size generalizing m with
  | case1 => rw [length_eq_zero_iff.mp h.symm]
  | case2 a l ih =>
    have hm : m ≠ [] := ne_nil_of_length_pos (h ▸ Nat.succ_pos _)
    rw [batches_of_ne_nil (cons_ne_nil a l), batches_of_ne_nil hm, map_cons,
      map_cons, length_take, length_take, h, ih]
    rw [length_drop, length_drop, h]

end Lib
