/-
The first occurrence of each element of a list.

A loop that keeps what it can insert into a set of things seen keeps the first
occurrence of everything; `unique seen` is that loop from somewhere on.  What is to be
left out altogether is taken as seen before the loop starts.
-/
import Mathlib.Data.Finset.Card

namespace Lib

open List

variable {α : Type} [DecidableEq α] {seen : Finset α}

/-- The elements not seen before, each where it first occurs. -/
def unique (seen : Finset α) : List α → List α
  | [] => []
  | a :: l => if a ∈ seen then unique seen l else a :: unique (insert a seen) l

@[simp] theorem unique_nil : unique seen [] = [] := rfl

theorem unique_cons_of_mem {a : α} (h : a ∈ seen) (l : List α) :
    unique seen (a :: l) = unique seen l := if_pos h

theorem unique_cons_of_notMem {a : α} (h : a ∉ seen) (l : List α) :
    unique seen (a :: l) = a :: unique (insert a seen) l := if_neg h

variable {l : List α}

theorem mem_unique {a : α} : a ∈ unique seen l ↔ a ∈ l ∧ a ∉ seen := by
  induction l generalizing seen with
  | nil => simp
  | cons b l ih =>
    by_cases hb : b ∈ seen
    · rw [unique_cons_of_mem hb, ih, mem_cons]
      grind
    · rw [unique_cons_of_notMem hb, mem_cons, ih, mem_cons, Finset.mem_insert]
      grind

theorem nodup_unique (seen : Finset α) (l : List α) : (unique seen l).Nodup := by
  induction l generalizing seen with
  | nil => exact nodup_nil
  | cons a l ih =>
    by_cases ha : a ∈ seen
    · rw [unique_cons_of_mem ha]
      exact ih seen
    · rw [unique_cons_of_notMem ha, nodup_cons, mem_unique]
      exact ⟨fun h => h.2 (Finset.mem_insert_self a seen), ih _⟩

/-- What is seen in the first list is left out of the second. -/
theorem unique_append (l m : List α) :
    unique seen (l ++ m) = unique seen l ++ unique (seen ∪ l.toFinset) m := by
  induction l generalizing seen with
  | nil => simp
  | cons a l ih =>
    rw [cons_append, toFinset_cons]
    by_cases ha : a ∈ seen
    · rw [unique_cons_of_mem ha, unique_cons_of_mem ha, ih, Finset.union_insert,
        Finset.insert_eq_of_mem (Finset.mem_union_left _ ha)]
    · rw [unique_cons_of_notMem ha, unique_cons_of_notMem ha, ih, Finset.union_insert,
        Finset.insert_union, cons_append]

/-- Leaving elements out afterwards is taking them as seen. -/
theorem filter_unique (s : Finset α) (l : List α) :
    (unique seen l).filter (· ∉ s) = unique (seen ∪ s) l := by
  induction l generalizing seen with
  | nil => rfl
  | cons a l ih =>
    by_cases ha : a ∈ seen
    · rw [unique_cons_of_mem ha, ih, unique_cons_of_mem (Finset.mem_union_left s ha)]
    · rw [unique_cons_of_notMem ha]
      by_cases has : a ∈ s
      · rw [filter_cons_of_neg (by simpa using has), ih,
          unique_cons_of_mem (Finset.mem_union_right seen has), Finset.insert_union,
          Finset.insert_eq_of_mem (Finset.mem_union_right seen has)]
      · rw [filter_cons_of_pos (by simpa using has), ih,
          unique_cons_of_notMem (by simp [ha, has]), Finset.insert_union]

/-- What counts as seen matters only for the elements of the list. -/
theorem unique_congr {s t : Finset α} (h : ∀ a ∈ l, a ∈ s ↔ a ∈ t) : unique s l = unique t l := by
  rw [← Finset.empty_union s, ← Finset.empty_union t, ← filter_unique, ← filter_unique]
  refine filter_congr fun a ha => ?_
  simp only [h a (mem_unique.mp ha).1]

/-- Leaving elements out before is taking them as seen, too. -/
theorem unique_filter (s : Finset α) (l : List α) :
    unique seen (l.filter (· ∉ s)) = unique (seen ∪ s) l := by
  induction l generalizing seen with
  | nil => rfl
  | cons a l ih =>
    by_cases has : a ∈ s
    · rw [filter_cons_of_neg (by simpa using has), ih,
        unique_cons_of_mem (Finset.mem_union_right seen has)]
    · rw [filter_cons_of_pos (by simpa using has)]
      by_cases ha : a ∈ seen
      · rw [unique_cons_of_mem ha, ih, unique_cons_of_mem (Finset.mem_union_left s ha)]
      · rw [unique_cons_of_notMem ha, ih, unique_cons_of_notMem (by simp [ha, has]),
          Finset.insert_union]

theorem unique_eq_self (h : l.Nodup) (hseen : ∀ a ∈ l, a ∉ seen) : unique seen l = l := by
  induction l generalizing seen with
  | nil => rfl
  | cons a l ih =>
    obtain ⟨ha, hl⟩ := nodup_cons.mp h
    obtain ⟨haseen, hlseen⟩ := forall_mem_cons.mp hseen
    rw [unique_cons_of_notMem haseen, ih hl]
    intro b hb hmem
    rcases Finset.mem_insert.mp hmem with rfl | hmem
    · exact ha hb
    · exact hlseen b hb hmem

theorem length_unique (l : List α) : (unique ∅ l).length = l.toFinset.card := by
  rw [← toFinset_card_of_nodup (nodup_unique ∅ l)]
  congr 1
  ext a
  simp [mem_unique]

theorem length_unique_perm {m : List α} (h : l.Perm m) :
    (unique seen l).length = (unique seen m).length := by
  refine ((perm_ext_iff_of_nodup (nodup_unique seen l) (nodup_unique seen m)).mpr ?_).length_eq
  intro a
  rw [mem_unique, mem_unique, h.mem_iff]

/-- An element comes early if few others come before it. -/
theorem mem_take_unique {before after : List α} {a : α} {earlier : Finset α} {k : Nat}
    (ha : a ∉ seen) (hbefore : ∀ b ∈ before, b ∈ seen ∨ b ∈ earlier) (hk : earlier.card < k) :
    a ∈ (unique seen (before ++ a :: after)).take k := by
  have hlength : (unique seen before).length ≤ earlier.card := by
    rw [← toFinset_card_of_nodup (nodup_unique seen before)]
    refine Finset.card_le_card fun b hb => ?_
    obtain ⟨hb, hnew⟩ := mem_unique.mp (mem_toFinset.mp hb)
    exact (hbefore b hb).resolve_left hnew
  rw [unique_append, take_append, take_of_length_le (by omega), mem_append]
  by_cases hmem : a ∈ before
  · exact .inl (mem_unique.mpr ⟨hmem, ha⟩)
  · right
    rw [unique_cons_of_notMem (by simp [ha, hmem])]
    obtain ⟨n, hn⟩ := Nat.exists_eq_succ_of_ne_zero (n := k - (unique seen before).length) (by omega)
    rw [hn]
    exact mem_cons_self

end Lib
