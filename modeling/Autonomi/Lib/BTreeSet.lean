/-
Ordered sets kept as sorted lists.

`BTreeSet` collects elements without repetition and hands them back in order.  A
set is the list it would be iterated as; inserting an element that is there already
leaves the list alone.  What is in a set after inserting and extending does not
depend on the order, so none of the facts here assumes anything of it.
-/
import Mathlib.Data.List.Sort

namespace Lib.BTreeSet

variable {α : Type} [DecidableEq α] (le : α → α → Bool)

def insert (set : List α) (a : α) : List α :=
  if a ∈ set then set else set.orderedInsert (fun x y => le x y = true) a

def extend (set items : List α) : List α := items.foldl (insert le) set

theorem mem_insert {set : List α} {a b : α} : b ∈ insert le set a ↔ b = a ∨ b ∈ set := by
  unfold insert
  by_cases h : a ∈ set
  · rw [if_pos h]
    constructor
    · intro hb
      exact .inr hb
    · intro hb
      rcases hb with rfl | hb
      · exact h
      · exact hb
  · rw [if_neg h, List.mem_orderedInsert]

theorem nodup_insert {set : List α} {a : α} (h : set.Nodup) : (insert le set a).Nodup := by
  unfold insert
  by_cases ha : a ∈ set
  · rw [if_pos ha]
    exact h
  · rw [if_neg ha, (List.perm_orderedInsert _ a set).nodup_iff]
    exact List.nodup_cons.mpr ⟨ha, h⟩

theorem mem_extend {b : α} :
    ∀ {items set : List α}, b ∈ extend le set items ↔ b ∈ set ∨ b ∈ items := by
  intro items
  induction items with
  | nil => intro set; simp [extend]
  | cons a items ih =>
    intro set
    have hstep : extend le set (a :: items) = extend le (insert le set a) items := rfl
    rw [hstep, ih, mem_insert, List.mem_cons]
    tauto

theorem nodup_extend :
    ∀ {items set : List α}, set.Nodup → (extend le set items).Nodup := by
  intro items
  induction items with
  | nil => intro set h; exact h
  | cons a items ih => intro set h; exact ih (nodup_insert le h)

end Lib.BTreeSet
