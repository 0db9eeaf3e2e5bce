/-
Checks that stop at the first failure.

A verification routine is a chain of checks, each returning early with its own
error.  `reject` is one such check and `Except`'s bind is the chain; the lemmas
here say what a chain that went through to its end has established, so that a
caller peels a routine into the conditions it guarantees without unfolding it.
-/
import Mathlib.Data.List.Forall2

namespace Lib.Checks

variable {ε α β : Type}

/-- `if bad { return Err(e) }` -/
def reject (bad : Prop) [Decidable bad] (e : ε) : Except ε Unit :=
  if bad then .error e else .ok ()

def okOr (o : Option α) (e : ε) : Except ε α :=
  match o with
  | some a => .ok a
  | none => .error e

@[simp] theorem reject_eq_ok {bad : Prop} [Decidable bad] {e : ε} {u : Unit} :
    reject bad e = .ok u ↔ ¬ bad := by
  unfold reject
  split <;> simp_all

@[simp] theorem okOr_eq_ok {o : Option α} {e : ε} {a : α} : okOr o e = .ok a ↔ o = some a := by
  cases o <;> simp [okOr]

@[simp] theorem okOr_eq_error {o : Option α} {e e' : ε} :
    okOr o e = .error e' ↔ o = none ∧ e = e' := by
  cases o <;> simp [okOr]

@[simp] theorem toOption_okOr (o : Option α) (e : ε) : (okOr o e).toOption = o := by
  cases o <;> rfl

theorem ok_bind (a : α) (f : α → Except ε β) : (Except.ok a >>= f) = f a := rfl

variable {x : Except ε α} {f : α → Except ε β}

@[simp] theorem bind_eq_ok {b : β} : x >>= f = .ok b ↔ ∃ a, x = .ok a ∧ f a = .ok b := by
  cases x with
  | error e | ok a => simp [bind, Except.bind]

@[simp] theorem map_eq_ok {f : α → β} {b : β} : f <$> x = .ok b ↔ ∃ a, x = .ok a ∧ f a = b := by
  cases x with
  | error e | ok a => simp [Functor.map, Except.map]

@[simp] theorem mapError_eq_ok {ε' : Type} {f : ε → ε'} {a : α} :
    x.mapError f = .ok a ↔ x = .ok a := by
  cases x <;> simp [Except.mapError]

theorem isOk_iff : x.isOk = true ↔ ∃ a, x = .ok a := by
  cases x with
  | error e | ok a => simp [Except.isOk, Except.toBool]

section

open List

variable {l : List α}

/-- A check made of every element goes through exactly when it goes through of each. -/
theorem forM_eq_ok {f : α → Except ε Unit} {u : Unit} :
    l.forM f = .ok u ↔ ∀ a ∈ l, f a = .ok () := by
  induction l with
  | nil => simp [pure, Except.pure]
  | cons a l ih =>
    have hcons : (a :: l).forM f = (f a >>= fun _ => l.forM f) := rfl
    rw [hcons, bind_eq_ok, forall_mem_cons, ← ih]
    constructor
    · rintro ⟨⟨⟩, ha, hl⟩
      exact ⟨ha, hl⟩
    · rintro ⟨ha, hl⟩
      exact ⟨(), ha, hl⟩

/-- A computation made of every element goes through exactly when it goes through of each. -/
theorem mapM_eq_ok {bs : List β} :
    l.mapM f = .ok bs ↔ List.Forall₂ (fun a b => f a = .ok b) l bs := by
  induction l generalizing bs with
  | nil =>
    rw [mapM_nil, forall₂_nil_left_iff]
    exact ⟨fun h => (Except.ok.inj h).symm, fun h => congrArg Except.ok h.symm⟩
  | cons a l ih =>
    rw [mapM_cons, forall₂_cons_left_iff]
    simp only [bind_eq_ok, ih]
    constructor
    · intro h
      obtain ⟨b, hb, rest, hrest, heq⟩ := h
      exact ⟨b, rest, hb, hrest, (Except.ok.inj heq).symm⟩
    · intro h
      obtain ⟨b, rest, hb, hrest, rfl⟩ := h
      exact ⟨b, hb, rest, hrest, rfl⟩

/-- An error is that of some element. -/
theorem exists_of_mapM_eq_error {e : ε} (h : l.mapM f = .error e) : ∃ a ∈ l, f a = .error e := by
  induction l with
  | nil => cases h
  | cons a l ih =>
    rw [mapM_cons] at h
    match ha : f a with
    | .error e' =>
      rw [ha] at h
      cases h
      exact ⟨a, mem_cons_self, ha⟩
    | .ok b =>
      rw [ha] at h
      match hl : l.mapM f with
      | .error e' =>
        rw [hl] at h
        cases h
        obtain ⟨a', ha', heq⟩ := ih hl
        exact ⟨a', mem_cons_of_mem a ha', heq⟩
      | .ok bs =>
        rw [hl] at h
        cases h

/-- A computation that goes through of every element goes through of the list, place by place. -/
theorem mapM_ok_of_forall₂ {R : α → β → Prop} (h : ∀ a ∈ l, ∃ b, f a = .ok b ∧ R a b) :
    ∃ bs, l.mapM f = .ok bs ∧ List.Forall₂ R l bs := by
  induction l with
  | nil => exact ⟨[], rfl, .nil⟩
  | cons a l ih =>
    obtain ⟨⟨b, hb, hab⟩, hl⟩ := forall_mem_cons.mp h
    obtain ⟨bs, hbs, hrel⟩ := ih hl
    refine ⟨b :: bs, ?_, .cons hab hrel⟩
    rw [mapM_cons, hb, hbs]
    rfl

/-- A computation that goes through of every element goes through of the list. -/
theorem mapM_ok_of_forall {P : β → Prop} (h : ∀ a ∈ l, ∃ b, f a = .ok b ∧ P b) :
    ∃ bs, l.mapM f = .ok bs ∧ bs.length = l.length ∧ ∀ b ∈ bs, P b := by
  induction l with
  | nil => exact ⟨[], rfl, rfl, forall_mem_nil _⟩
  | cons a l ih =>
    obtain ⟨⟨b, hb, hPb⟩, hl⟩ := forall_mem_cons.mp h
    obtain ⟨bs, hbs, hlength, hall⟩ := ih hl
    refine ⟨b :: bs, ?_, congrArg Nat.succ hlength, forall_mem_cons.mpr ⟨hPb, hall⟩⟩
    rw [mapM_cons, hb, hbs]
    rfl

/-- Two computations that go through of every element, with related results. -/
theorem mapM_ok_both {ε' γ : Type} {g : α → Except ε' γ} {R : β → γ → Prop}
    (h : ∀ a ∈ l, ∃ b c, f a = .ok b ∧ g a = .ok c ∧ R b c) :
    ∃ bs cs, l.mapM f = .ok bs ∧ l.mapM g = .ok cs ∧ List.Forall₂ R bs cs := by
  induction l with
  | nil => exact ⟨[], [], rfl, rfl, .nil⟩
  | cons a l ih =>
    obtain ⟨⟨b, c, hb, hc, hbc⟩, hl⟩ := forall_mem_cons.mp h
    obtain ⟨bs, cs, hbs, hcs, hrel⟩ := ih hl
    refine ⟨b :: bs, c :: cs, ?_, ?_, .cons hbc hrel⟩
    · rw [mapM_cons, hb, hbs]
      rfl
    · rw [mapM_cons, hc, hcs]
      rfl

/-- Computations that agree place by place. -/
theorem mapM_congr_forall₂ {γ : Type} {f : α → Except ε γ} {g : β → Except ε γ} {as : List α}
    {bs : List β} (h : List.Forall₂ (fun a b => f a = g b) as bs) : as.mapM f = bs.mapM g := by
  induction h with
  | nil => rfl
  | cons hab _ ih => rw [mapM_cons, mapM_cons, hab, ih]

end

/-! ### Arrays of a fixed size -/

theorem toList_mapM {n : Nat} (v : Vector α n) (f : α → Except ε β) :
    Vector.toList <$> v.mapM f = v.toList.mapM f := by
  have harray : Vector.toArray <$> v.mapM f = v.toArray.mapM f := Vector.toArray_mapM
  have hlist : Array.toList <$> (Vector.toArray <$> v.mapM f) = v.toList.mapM f := by
    rw [harray, ← Array.toList_mapM]
    rfl
  rw [← hlist, Functor.map_map]
  rfl

theorem vector_mapM_ok_both {ε' γ : Type} {n : Nat} {v : Vector α n} {g : α → Except ε' γ}
    {R : β → γ → Prop} (h : ∀ a ∈ v.toList, ∃ b c, f a = .ok b ∧ g a = .ok c ∧ R b c) :
    ∃ (w : Vector β n) (w' : Vector γ n), v.mapM f = .ok w ∧ v.mapM g = .ok w' ∧
      List.Forall₂ R w.toList w'.toList := by
  obtain ⟨bs, cs, hbs, hcs, hrel⟩ := mapM_ok_both h
  rw [← toList_mapM] at hbs hcs
  obtain ⟨w, hw, rfl⟩ := map_eq_ok.mp hbs
  obtain ⟨w', hw', rfl⟩ := map_eq_ok.mp hcs
  exact ⟨w, w', hw, hw', hrel⟩

end Lib.Checks
