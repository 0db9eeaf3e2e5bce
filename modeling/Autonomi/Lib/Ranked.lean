/-
A set whose elements have ranks, and what code keeps on the side of it.

Two things are kept: an element of the greatest rank, changed as elements come and
looked for anew when it goes, and a table from ranks to elements.  `Greatest` and
`Indexes` say that they are right for a set, and there is a lemma for each way the
set can change.  The table needs elements of the set to have different ranks.
-/
import Autonomi.Lib.Table
import Mathlib.Data.List.Sort

namespace Lib

open List

variable {α : Type} {l : List α}

/-- The last of a list sorted by a number has the greatest number. -/
theorem le_last_insertionSort {g : α → Nat} {m n : Nat}
    (h : (l.insertionSort fun a b => g a ≤ g b).getLast?.map g = some m) :
    n ≤ m ↔ ∃ a ∈ l, n ≤ g a := by
  obtain ⟨last, hlast, rfl⟩ := Option.map_eq_some_iff.mp h
  have hmem : last ∈ l := (mem_insertionSort _).mp (mem_of_getLast? hlast)
  constructor
  · intro hn
    exact ⟨last, hmem, hn⟩
  · rintro ⟨a, ha, hn⟩
    have hle := (pairwise_insertionSort (fun a b => g a ≤ g b) l).rel_getLast
      ((mem_insertionSort _).mpr ha)
    rw [List.getLast?_eq_some_getLast (ne_nil_of_mem ((mem_insertionSort _).mpr ha))] at hlast
    rw [Option.some.inj hlast] at hle
    exact hn.trans hle

/-- In descending order an element is among the first so many if fewer are greater. -/
theorem mem_take_iff {rank : α → Nat} (hl : l.Pairwise fun a b => rank b < rank a) {a : α} :
    ∀ {count : Nat}, a ∈ l.take count ↔
      a ∈ l ∧ (l.filter fun b => rank a < rank b).length < count := by
  induction l with
  | nil => simp
  | cons b l ih =>
    obtain ⟨hb, hl⟩ := pairwise_cons.mp hl
    intro count
    cases count with
    | zero => simp
    | succ count =>
      rw [take_succ_cons, mem_cons, mem_cons, ih hl]
      by_cases hab : rank a < rank b
      · have hne : a ≠ b := by
          rintro rfl
          exact absurd hab (lt_irrefl _)
        simp [hab, hne]
      · have hnot : a ∉ l := fun ha => hab (hb a ha)
        simp only [hnot, false_and, or_false, filter_cons, hab, decide_false, Bool.false_eq_true,
          if_false]
        refine ⟨fun heq => ⟨heq, ?_⟩, And.left⟩
        -- It is the first one, and nothing after it is greater.
        have hnone : l.filter (fun c => rank a < rank c) = [] := by
          simp only [filter_eq_nil_iff, decide_eq_true_eq, not_lt, heq]
          exact fun c hc => le_of_lt (hb c hc)
        rw [hnone]
        exact Nat.succ_pos count

/-! ### The greatest element -/

/-- An element of the greatest rank with its rank, or nothing if the set is empty. -/
def Greatest (rank : α → Nat) (S : Set α) : Option (α × Nat) → Prop
  | none => S = ∅
  | some best => best.1 ∈ S ∧ best.2 = rank best.1 ∧ ∀ a ∈ S, rank a ≤ best.2

def keepGreater (rank : α → Nat) (a : α) : Option (α × Nat) → Option (α × Nat)
  | none => some (a, rank a)
  | some best => if best.2 < rank a then some (a, rank a) else some best

variable {rank : α → Nat} {S : Set α} {best : Option (α × Nat)} {a : α}

theorem Greatest.insert (h : Greatest rank S best) :
    Greatest rank (insert a S) (keepGreater rank a best) := by
  cases best with
  | none =>
    obtain rfl : S = ∅ := h
    refine ⟨Set.mem_insert a _, rfl, ?_⟩
    rintro b (rfl | hb)
    · exact le_rfl
    · exact absurd hb (Set.notMem_empty b)
  | some best =>
    obtain ⟨hmem, hrank, hmax⟩ := h
    by_cases hlt : best.2 < rank a
    · rw [keepGreater, if_pos hlt]
      refine ⟨Set.mem_insert a S, rfl, ?_⟩
      rintro b (rfl | hb)
      · exact le_rfl
      · exact (hmax b hb).trans (le_of_lt hlt)
    · rw [keepGreater, if_neg hlt]
      refine ⟨Set.mem_insert_of_mem a hmem, hrank, ?_⟩
      rintro b (rfl | hb)
      · exact not_lt.mp hlt
      · exact hmax b hb

/-- Losing any other element leaves the greatest what it is. -/
theorem Greatest.erase (h : Greatest rank S best) (hne : ∀ b ∈ best, b.1 ≠ a) :
    Greatest rank (S \ {a}) best := by
  cases best with
  | none =>
    obtain rfl : S = ∅ := h
    exact Set.empty_sdiff _
  | some best =>
    obtain ⟨hmem, hrank, hmax⟩ := h
    exact ⟨⟨hmem, hne best rfl⟩, hrank, fun b hb => hmax b hb.1⟩

/-- The last of the elements in order of rank. -/
theorem greatest_last (rank : α → Nat) (l : List α) :
    Greatest rank {a | a ∈ l}
      ((l.insertionSort fun a b => rank a ≤ rank b).getLast?.map fun a => (a, rank a)) := by
  cases hlast : (l.insertionSort fun a b => rank a ≤ rank b).getLast? with
  | none =>
    have hnil : l = [] := by
      rw [List.getLast?_eq_none_iff, ← length_eq_zero_iff, length_insertionSort] at hlast
      exact length_eq_zero_iff.mp hlast
    subst hnil
    exact Set.eq_empty_of_forall_notMem fun a ha => not_mem_nil ha
  | some last =>
    refine ⟨(mem_insertionSort _).mp (mem_of_getLast? hlast), rfl, ?_⟩
    intro a ha
    exact (le_last_insertionSort (by rw [hlast]; rfl)).mpr ⟨a, ha, le_rfl⟩

/-! ### The table by rank -/

/-- The table finds an element of the set by its rank, and nothing else. -/
def Indexes (rank : α → Nat) (S : Set α) (m : Table Nat α) : Prop :=
  ∀ d a, m.lookup d = some a ↔ a ∈ S ∧ rank a = d

variable {m : Table Nat α}

theorem indexes_empty (rank : α → Nat) : Indexes rank ∅ ∅ := by
  intro d a
  constructor
  · nofun
  · rintro ⟨ha, -⟩
    exact absurd ha (Set.notMem_empty a)

theorem Indexes.insert (h : Indexes rank S m) (hinj : Set.InjOn rank (insert a S)) :
    Indexes rank (insert a S) (m.insert (rank a) a) := by
  intro d b
  by_cases hd : d = rank a
  · subst hd
    rw [AList.lookup_insert]
    constructor
    · intro heq
      cases heq
      exact ⟨Set.mem_insert a S, rfl⟩
    · rintro ⟨hb, hrank⟩
      rw [hinj hb (Set.mem_insert a S) hrank]
  · rw [AList.lookup_insert_ne hd, h d b]
    constructor
    · rintro ⟨hb, hrank⟩
      exact ⟨Set.mem_insert_of_mem a hb, hrank⟩
    · rintro ⟨rfl | hb, hrank⟩
      · exact absurd hrank.symm hd
      · exact ⟨hb, hrank⟩

theorem Indexes.erase (h : Indexes rank S m) (hinj : Set.InjOn rank S) (ha : a ∈ S) :
    Indexes rank (S \ {a}) (m.erase (rank a)) := by
  intro d b
  by_cases hd : d = rank a
  · subst hd
    rw [AList.lookup_erase]
    constructor
    · nofun
    · rintro ⟨⟨hb, hne⟩, hrank⟩
      exact absurd (hinj hb ha hrank) hne
  · rw [AList.lookup_erase_ne hd, h d b]
    constructor
    · rintro ⟨hb, hrank⟩
      refine ⟨⟨hb, ?_⟩, hrank⟩
      rintro rfl
      exact hd hrank.symm
    · rintro ⟨⟨hb, -⟩, hrank⟩
      exact ⟨hb, hrank⟩

/-- Elements put in one after the other. -/
theorem Indexes.insertAll (l : List α) : ∀ {S : Set α} {m : Table Nat α}, Indexes rank S m →
    Set.InjOn rank (S ∪ {a | a ∈ l}) →
    Indexes rank (S ∪ {a | a ∈ l}) (l.foldl (fun m a => m.insert (rank a) a) m) := by
  induction l with
  | nil =>
    intro S m h _
    rw [show S ∪ {a | a ∈ ([] : List α)} = S by simp]
    exact h
  | cons a l ih =>
    intro S m h hinj
    have hset : S ∪ {b | b ∈ a :: l} = Insert.insert a S ∪ {b | b ∈ l} := by
      ext b
      simp only [Set.mem_union, Set.mem_ofPred_eq, mem_cons, Set.mem_insert_iff]
      tauto
    rw [hset] at hinj ⊢
    exact ih (h.insert (hinj.mono Set.subset_union_left)) hinj

/-- The elements in the table are those of the set. -/
theorem Indexes.perm (h : Indexes rank {a | a ∈ l} m) (hl : l.Nodup) :
    (m.entries.map fun e => e.2).Perm l := by
  have hentry : ∀ e, e ∈ m.entries ↔ e.2 ∈ l ∧ rank e.2 = e.1 := by
    intro e
    exact AList.mem_lookup_iff.symm.trans (h e.1 e.2)
  refine (perm_ext_iff_of_nodup ?_ hl).mpr ?_
  · refine List.Nodup.map_on ?_ m.nodupKeys.nodup
    intro e he e' he' heq
    have hd : e.1 = e'.1 := by
      rw [← ((hentry e).mp he).2, heq, ((hentry e').mp he').2]
    exact Sigma.ext hd (heq_of_eq heq)
  · intro a
    rw [mem_map]
    constructor
    · rintro ⟨e, he, rfl⟩
      exact ((hentry e).mp he).1
    · intro ha
      exact ⟨⟨rank a, a⟩, (hentry ⟨rank a, a⟩).mpr ⟨ha, rfl⟩, rfl⟩

/-- Ranks with a property are in the table as often as elements of such a rank. -/
theorem Indexes.count (h : Indexes rank {a | a ∈ l} m) (hl : l.Nodup) (p : Nat → Bool) :
    (m.entries.filter fun e => p e.1).length = (l.filter fun a => p (rank a)).length := by
  have hrank : ∀ e ∈ m.entries, p e.1 = p (rank e.2) := by
    intro e he
    rw [((h e.1 e.2).mp (AList.mem_lookup_iff.mpr he)).2]
  rw [filter_congr hrank, ← ((h.perm hl).filter _).length_eq, filter_map, length_map]
  rfl

end Lib
