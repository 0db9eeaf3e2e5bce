/-
Hash maps, as association lists with distinct keys.

Mathlib's `AList` has the lookups, insertions and removals.  Here are the two other
operations of a hash map that code uses: keeping the entries that pass a test, and
filling a vacant entry.  Both are described by what a lookup finds afterwards.
-/
import Mathlib.Data.List.AList
import Mathlib.Data.List.Induction

namespace Lib

variable {α β : Type} [DecidableEq α]

abbrev Table (α β : Type) := AList fun _ : α => β

namespace Table

variable (m : Table α β)

def retain (keep : α → β → Bool) : Table α β :=
  ⟨m.entries.filter fun e => keep e.1 e.2, m.nodupKeys.sublist List.filter_sublist⟩

def orInsert (a : α) (b : β) : Table α β := if a ∈ m then m else m.insert a b

variable {m}

variable {keep : α → β → Bool} {a : α}

theorem mem_iff_lookup : a ∈ m ↔ ∃ b, m.lookup a = some b :=
  AList.lookup_isSome.symm.trans Option.isSome_iff_exists

theorem lookup_retain : (m.retain keep).lookup a = (m.lookup a).filter (keep a) := by
  ext b
  rw [← Option.mem_def, AList.mem_lookup_iff, Option.filter_eq_some_iff, ← Option.mem_def,
    AList.mem_lookup_iff]
  exact List.mem_filter

theorem mem_retain : a ∈ m.retain keep ↔ ∃ b, m.lookup a = some b ∧ keep a b = true := by
  simp only [mem_iff_lookup, lookup_retain, Option.filter_eq_some_iff]

theorem mem_of_mem_retain (h : a ∈ m.retain keep) : a ∈ m := by
  obtain ⟨b, hb, -⟩ := mem_retain.mp h
  exact mem_iff_lookup.mpr ⟨b, hb⟩

theorem mem_orInsert {a' : α} {b : β} : a' ∈ m.orInsert a b ↔ a' = a ∨ a' ∈ m := by
  unfold orInsert
  by_cases h : a ∈ m
  · rw [if_pos h]
    constructor
    · exact .inr
    · rintro (rfl | hmem)
      · exact h
      · exact hmem
  · rw [if_neg h, AList.mem_insert]

variable (m a) in
theorem length_erase :
    (m.erase a).entries.length = if a ∈ m then m.entries.length - 1 else m.entries.length := by
  have hkeys : ∀ m : Table α β, m.keys.length = m.entries.length := fun _ => List.length_map _
  rw [← hkeys, ← hkeys, AList.keys_erase, List.length_erase]
  exact if_congr Iff.rfl rfl rfl

/-! ### Counters -/

def count (m : Table α Nat) (a : α) : Nat := (m.lookup a).getD 0

def increment (m : Table α Nat) (a : α) : Table α Nat := m.insert a (m.count a + 1)

theorem count_increment {m : Table α Nat} {a' : α} :
    (m.increment a).count a' = m.count a' + if a = a' then 1 else 0 := by
  unfold increment count
  by_cases h : a = a'
  · subst h
    rw [AList.lookup_insert, if_pos rfl]
    rfl
  · rw [AList.lookup_insert_ne (Ne.symm h), if_neg h, Nat.add_zero]

theorem count_empty : count (∅ : Table α Nat) a = 0 := by
  unfold count
  rfl

/-- What was counted more than some number of times is in the table with its count. -/
theorem lt_count_iff {m : Table α Nat} {k : Nat} :
    k < m.count a ↔ ∃ e ∈ m.entries, k < e.2 ∧ e.1 = a := by
  unfold count
  constructor
  · intro hlt
    cases hlookup : m.lookup a with
    | none =>
      rw [hlookup] at hlt
      exact absurd hlt (Nat.not_lt_zero k)
    | some b =>
      rw [hlookup] at hlt
      exact ⟨⟨a, b⟩, AList.mem_lookup_iff.mp hlookup, hlt, rfl⟩
  · rintro ⟨⟨a, b⟩, hmem, hlt, rfl⟩
    rw [show m.lookup a = some b from AList.mem_lookup_iff.mpr hmem]
    exact hlt

/-! ### Entries put in one after the other -/

theorem mem_foldl_insert (l : List (Σ _ : α, β)) : ∀ {m : Table α β} {a : α},
    a ∈ l.foldl (fun m e => m.insert e.1 e.2) m ↔ a ∈ m ∨ ∃ e ∈ l, e.1 = a := by
  induction l with
  | nil => simp
  | cons e l ih =>
    intro m a
    simp only [List.foldl_cons, ih, AList.mem_insert, List.mem_cons, exists_eq_or_imp]
    constructor
    · rintro ((rfl | hm) | hl)
      · exact .inr (.inl rfl)
      · exact .inl hm
      · exact .inr (.inr hl)
    · rintro (hm | rfl | hl)
      · exact .inl (.inr hm)
      · exact .inl (.inl rfl)
      · exact .inr hl

/-- What is found then was put in, or was there before. -/
theorem mem_of_lookup_foldl_insert (l : List (Σ _ : α, β)) : ∀ {m : Table α β} {a : α} {b : β},
    (l.foldl (fun m e => m.insert e.1 e.2) m).lookup a = some b →
      ⟨a, b⟩ ∈ l ∨ m.lookup a = some b := by
  induction l with
  | nil => exact .inr
  | cons e l ih =>
    intro m a b h
    rcases ih h with hl | hm
    · exact .inl (List.mem_cons_of_mem e hl)
    by_cases ha : a = e.1
    · subst ha
      rw [AList.lookup_insert] at hm
      cases hm
      exact .inl List.mem_cons_self
    · rw [AList.lookup_insert_ne ha] at hm
      exact .inr hm

end Table

/-! ### The least of the entries -/

omit [DecidableEq α] in
/-- A loop that looks for an entry before the bound finds one that no other is before. -/
theorem foldl_least {ε : Type} (key : ε → α) (time : ε → Nat) (bound : Nat) (entries : List ε) :
    ∀ {least found}, entries.foldl
        (fun best e => if time e < best.1 then (time e, some (key e)) else best) (bound, none)
          = (least, found) →
      (∀ e ∈ entries, least ≤ time e) ∧
        (found = none ∧ least = bound ∨ ∃ e ∈ entries, found = some (key e) ∧ time e = least) := by
  induction entries using List.reverseRecOn with
  | nil => simp
  | append_singleton entries e ih =>
    intro least found h
    have hbefore := ih rfl
    rw [List.foldl_append, List.foldl_cons, List.foldl_nil] at h
    split at h <;> grind

end Lib
