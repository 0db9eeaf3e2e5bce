/-
Things waiting to happen, in no particular order.

Spawned tasks and messages sent from them are taken up in any order.  A pool is a
list of which any element may be taken next; what is left is the list without it.
For an invariant it is enough to know that the pool was the rest with the element
put in somewhere, and what that means for the elements of one kind.  Where elements
stay in their place and change, they are told apart by their positions.
-/
import Mathlib.Data.List.Basic

namespace Lib.Pool

variable {α : Type}

/-- Take the element at a position out of the pool. -/
def take (pool : List α) (i : Nat) : Option (α × List α) :=
  pool[i]?.map fun a => (a, pool.eraseIdx i)

variable {pool rest : List α} {i : Nat} {a : α} (h : take pool i = some (a, rest))

include h

theorem take_eq_some : ∃ before after, pool = before ++ a :: after ∧ rest = before ++ after := by
  obtain ⟨a', ha, heq⟩ := Option.map_eq_some_iff.mp h
  cases heq
  obtain ⟨hi, rfl⟩ := List.getElem?_eq_some_iff.mp ha
  refine ⟨pool.take i, pool.drop (i + 1), ?_, List.eraseIdx_eq_take_drop_succ pool i⟩
  rw [List.getElem_cons_drop, List.take_append_drop]

theorem getElem?_of_take : pool[i]? = some a := by
  obtain ⟨a', ha, heq⟩ := Option.map_eq_some_iff.mp h
  cases heq
  exact ha

theorem mem_of_take : a ∈ pool := by
  obtain ⟨before, after, rfl, -⟩ := take_eq_some h
  exact List.mem_append_right _ List.mem_cons_self

omit h

/-- From a pool of one there is one thing to take. -/
theorem take_singleton {b : α} (h : take [a] i = some (b, rest)) : b = a ∧ rest = [] := by
  obtain ⟨before, after, hpool, rfl⟩ := take_eq_some h
  obtain ⟨rfl, htail⟩ := List.singleton_eq_append_iff.mp hpool |>.resolve_right (by simp)
  cases htail
  exact ⟨rfl, rfl⟩

theorem take_nil : take [] i ≠ some (a, rest) := by
  simp [take]

/-! ### Positions -/

theorem getElem?_append_single {b : α} (h : (pool ++ [a])[i]? = some b) :
    pool[i]? = some b ∨ (i = pool.length ∧ b = a) := by
  rcases Nat.lt_or_ge i pool.length with hlt | hge
  · rw [List.getElem?_append_left hlt] at h
    exact .inl h
  · rw [List.getElem?_append_right hge] at h
    obtain ⟨hlast, rfl⟩ := List.getElem?_eq_some_iff.mp h
    have hi : i - pool.length < 1 := hlast
    exact .inr ⟨by omega, List.getElem_singleton hlast⟩

theorem getElem?_set_cases {b : α} {j : Nat} (h : (pool.set i a)[j]? = some b) :
    (j = i ∧ b = a) ∨ (j ≠ i ∧ pool[j]? = some b) := by
  by_cases hj : j = i
  · subst hj
    have hlt : j < pool.length := by simpa using (List.getElem?_eq_some_iff.mp h).1
    rw [List.getElem?_set_self hlt] at h
    exact .inl ⟨rfl, (Option.some.inj h).symm⟩
  · rw [List.getElem?_set_ne (Ne.symm hj)] at h
    exact .inr ⟨hj, h⟩

/-! ### The elements of one kind -/

section Kinds

variable {κ : Type} [DecidableEq κ] (kind : α → κ)

/-- The elements of a kind, in the order they came. -/
def ofKind (k : κ) (pool : List α) : List α := pool.filter fun a => kind a = k

variable {kind} {k : κ}

@[simp] theorem ofKind_nil : ofKind kind k [] = [] := rfl

@[simp] theorem ofKind_append {l₁ l₂ : List α} :
    ofKind kind k (l₁ ++ l₂) = ofKind kind k l₁ ++ ofKind kind k l₂ := List.filter_append ..

theorem ofKind_cons_self {l : List α} (h : kind a = k) :
    ofKind kind k (a :: l) = a :: ofKind kind k l :=
  List.filter_cons_of_pos (by simpa using h)

theorem ofKind_cons_other {l : List α} (h : kind a ≠ k) :
    ofKind kind k (a :: l) = ofKind kind k l :=
  List.filter_cons_of_neg (by simpa using h)

theorem mem_ofKind {l : List α} : a ∈ ofKind kind k l ↔ a ∈ l ∧ kind a = k := by
  simp [ofKind]

include h

/-- Taking an element of another kind changes nothing for this one. -/
theorem ofKind_take_other (hkind : kind a ≠ k) :
    ofKind kind k rest = ofKind kind k pool := by
  obtain ⟨before, after, rfl, rfl⟩ := take_eq_some h
  rw [ofKind_append, ofKind_append, ofKind_cons_other hkind]

/-- Taking an element of the kind takes it out of the elements of the kind. -/
theorem ofKind_take_self (hkind : kind a = k) :
    (ofKind kind k pool).Perm (a :: ofKind kind k rest) := by
  obtain ⟨before, after, rfl, rfl⟩ := take_eq_some h
  rw [ofKind_append, ofKind_append, ofKind_cons_self hkind]
  exact List.perm_middle

/-- If there was one of the kind, it is the one taken. -/
theorem ofKind_take_singleton {b : α} (hkind : kind a = k) (hone : ofKind kind k pool = [b]) :
    a = b ∧ ofKind kind k rest = [] := by
  have hperm := ofKind_take_self h hkind
  rw [hone] at hperm
  exact List.cons.inj (List.singleton_perm.mp hperm).symm

/-- If there was none of the kind, none is taken. -/
theorem not_ofKind_nil_of_take (hkind : kind a = k) : ofKind kind k pool ≠ [] :=
  List.ne_nil_of_mem (mem_ofKind.mpr ⟨mem_of_take h, hkind⟩)

end Kinds

end Lib.Pool
