/-
The history of a value that is changed one update at a time.

An update is made by someone and relates the value before to the value after.  A
history lists who made the updates, in order, from a first value to the present
one; one value leads to another if there is any history between them.  What every
update preserves, a history preserves.
-/
import Mathlib.Logic.Basic

namespace Lib

variable {J V : Type}

inductive History (update : J → V → V → Prop) (start : V) : List J → V → Prop
  | nil : History update start [] start
  | snoc {js : List J} {j : J} {v v' : V} (hpast : History update start js v)
      (hupdate : update j v v') : History update start (js ++ [j]) v'

/-- There is a history from one value to the other. -/
def Leads (update : J → V → V → Prop) (a b : V) : Prop := ∃ js, History update a js b

variable {update : J → V → V → Prop} {a b c : V}

theorem History.append {js ks : List J} (hab : History update a js b)
    (hbc : History update b ks c) : History update a (js ++ ks) c := by
  induction hbc with
  | nil =>
    rw [List.append_nil]
    exact hab
  | snoc _ hupdate ih =>
    rw [← List.append_assoc]
    exact .snoc ih hupdate

theorem Leads.refl (a : V) : Leads update a a := ⟨[], .nil⟩

theorem Leads.trans (hab : Leads update a b) (hbc : Leads update b c) : Leads update a c := by
  obtain ⟨js, hjs⟩ := hab
  obtain ⟨ks, hks⟩ := hbc
  exact ⟨js ++ ks, hjs.append hks⟩

theorem Leads.of_update {j : J} (h : update j a b) : Leads update a b := ⟨[] ++ [j], .snoc .nil h⟩

/-- A relation that holds across every update holds across every history. -/
theorem Leads.relation {R : V → V → Prop} (hrefl : ∀ v, R v v)
    (htrans : ∀ u v w, R u v → R v w → R u w) (hstep : ∀ j v w, update j v w → R v w)
    (h : Leads update a b) : R a b := by
  obtain ⟨js, hjs⟩ := h
  induction hjs with
  | nil => exact hrefl a
  | snoc _ hupdate ih => exact htrans _ _ _ ih (hstep _ _ _ hupdate)

end Lib
