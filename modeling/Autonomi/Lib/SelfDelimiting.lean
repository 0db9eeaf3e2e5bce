/-
Codes that end where they end.

A byte layout puts the codes of several fields one behind the other.  It can be taken
apart again if each code tells where it ends: two codes with anything at all behind them
are the same string only if the values are the same and so is what is behind.  Such
codes are self-delimiting.

A list without a count is taken apart too if what comes behind it cannot be mistaken for
another element: the elements begin with a byte of one kind, and what follows does not.
-/
import Autonomi.Lib.Bytes

namespace Lib

variable {α β : Type}

variable (encode : α → Bytes)

/-- With anything behind them, the codes are the same only if the values are. -/
def ToldApart (a b : α) : Prop :=
  ∀ ⦃s t : Bytes⦄, encode a ++ s = encode b ++ t → a = b ∧ s = t

/-- The codes of any two values in the set are told apart. -/
def SelfDelimiting (dom : Set α) (encode : α → Bytes) : Prop :=
  ∀ ⦃a⦄, a ∈ dom → ∀ ⦃b⦄, b ∈ dom → ToldApart encode a b

/-- The codes of a list of values, one behind the other. -/
def encodeAll (as : List α) : Bytes := (as.map encode).flatten

@[simp] theorem encodeAll_nil : encodeAll encode [] = [] := rfl

@[simp] theorem encodeAll_cons (a : α) (as : List α) :
    encodeAll encode (a :: as) = encode a ++ encodeAll encode as := rfl

/-! ### Fixed widths -/

variable {encode : α → Bytes}

/-- Codes of one length, if they differ at all. -/
theorem selfDelimiting_of_length {dom : Set α} {width : Nat} (hinj : Set.InjOn encode dom)
    (hlength : ∀ a, (encode a).length = width) : SelfDelimiting dom encode := by
  intro a ha b hb s t h
  obtain ⟨hcode, hrest⟩ := List.append_inj h ((hlength a).trans (hlength b).symm)
  exact ⟨hinj ha hb hcode, hrest⟩

theorem selfDelimiting_vector (width : Nat) :
    SelfDelimiting Set.univ (Vector.toList : Vector UInt8 width → Bytes) :=
  selfDelimiting_of_length (fun _ _ _ _ h => Vector.toList_inj.mp h) fun _ => Vector.length_toList

open List

/-- The low bytes of a number are those of its remainder. -/
theorem mod_eq_of_toLeBytes {width : Nat} :
    ∀ {n m : Nat}, toLeBytes width n = toLeBytes width m → n % 256 ^ width = m % 256 ^ width := by
  induction width with
  | zero =>
    intro n m _
    rw [Nat.pow_zero, Nat.mod_one, Nat.mod_one]
  | succ width ih =>
    intro n m h
    obtain ⟨hlow, hhigh⟩ := List.cons.inj h
    have hbyte : n % 256 = m % 256 := by
      have hnat := congrArg UInt8.toNat hlow
      rwa [UInt8.toNat_ofNat', UInt8.toNat_ofNat'] at hnat
    rw [Nat.pow_succ', Nat.mod_mul, Nat.mod_mul, hbyte, ih hhigh]

/-- Numbers that have the same part cut off. -/
theorem selfDelimiting_toLeBytes (width cutOff : Nat) :
    SelfDelimiting {n | n / 256 ^ width = cutOff} (toLeBytes width) := by
  refine selfDelimiting_of_length ?_ (length_toLeBytes width)
  intro n hn m hm h
  rw [← Nat.div_add_mod n (256 ^ width), ← Nat.div_add_mod m (256 ^ width), hn, hm,
    mod_eq_of_toLeBytes h]

/-! ### Putting codes together -/

namespace SelfDelimiting

variable {dom : Set α} {encode : α → Bytes} (h : SelfDelimiting dom encode)

include h

/-- With nothing behind them, too, the codes differ. -/
theorem injOn : Set.InjOn encode dom := by
  intro a ha b hb heq
  exact (h ha hb (congrArg (· ++ []) heq)).1

theorem mono {dom' : Set α} (hsub : dom' ⊆ dom) : SelfDelimiting dom' encode :=
  fun _ ha _ hb => h (hsub ha) (hsub hb)

/-- A value that stands for another. -/
theorem comap {f : β → α} {dom' : Set β} (hinj : Set.InjOn f dom')
    (hmaps : ∀ b ∈ dom', f b ∈ dom) : SelfDelimiting dom' fun b => encode (f b) := by
  intro a ha b hb s t heq
  obtain ⟨hval, hrest⟩ := h (hmaps a ha) (hmaps b hb) heq
  exact ⟨hinj ha hb hval, hrest⟩

omit h

/-- Two fields. -/
theorem pair (h : SelfDelimiting Set.univ encode) {encode' : β → Bytes}
    (h' : SelfDelimiting Set.univ encode') :
    SelfDelimiting Set.univ fun p : α × β => encode p.1 ++ encode' p.2 := by
  intro a _ b _ s t heq
  rw [append_assoc, append_assoc] at heq
  obtain ⟨hfirst, heq⟩ := h trivial trivial heq
  obtain ⟨hsecond, hrest⟩ := h' trivial trivial heq
  exact ⟨Prod.ext hfirst hsecond, hrest⟩

/-- An optional field: the marker tells what follows. -/
theorem option (h : SelfDelimiting Set.univ encode) :
    SelfDelimiting Set.univ (optionBytes encode) := by
  intro o _ o' _ s t heq
  cases o with
  | none =>
    cases o' with
    | none => exact ⟨rfl, (List.cons.inj heq).2⟩
    | some b => exact absurd (List.cons.inj heq).1 (by decide)
  | some a =>
    cases o' with
    | none => exact absurd (List.cons.inj heq).1 (by decide)
    | some b =>
      obtain ⟨hval, hrest⟩ := h trivial trivial (List.cons.inj heq).2
      exact ⟨congrArg some hval, hrest⟩

end SelfDelimiting

variable {as bs : List α}

/-- Two lists of one length, whose elements are told apart place by place. -/
theorem encodeAll_toldApart (h : List.Forall₂ (ToldApart encode) as bs) {s t : Bytes}
    (heq : encodeAll encode as ++ s = encodeAll encode bs ++ t) : as = bs ∧ s = t := by
  induction h with
  | nil => exact ⟨rfl, heq⟩
  | cons hab _ ih =>
    rw [encodeAll_cons, encodeAll_cons, append_assoc, append_assoc] at heq
    obtain ⟨hval, heq⟩ := hab heq
    obtain ⟨hvals, hrest⟩ := ih heq
    exact ⟨congrArg₂ _ hval hvals, hrest⟩

/-- Two lists of one length. -/
theorem SelfDelimiting.list (h : SelfDelimiting Set.univ encode) (hlength : as.length = bs.length)
    {s t : Bytes} (heq : encodeAll encode as ++ s = encodeAll encode bs ++ t) :
    as = bs ∧ s = t := by
  refine encodeAll_toldApart ?_ heq
  exact forall₂_iff_get.mpr ⟨hlength, fun i _ _ => h trivial trivial⟩

/-! ### Lists that end where something else begins -/

/-- The string begins with a byte of this kind. -/
def Begins (kind : UInt8 → Prop) (s : Bytes) : Prop := ∃ b ∈ s.head?, kind b

theorem not_begins_nil (kind : UInt8 → Prop) : ¬ Begins kind [] := by
  rintro ⟨b, hb, -⟩
  cases hb

/-- Two lists without a count, whose elements begin with a byte that does not follow them. -/
theorem SelfDelimiting.list_until {dom : Set α} (h : SelfDelimiting dom encode)
    {kind : UInt8 → Prop} (hkind : ∀ a ∈ dom, ∀ s, Begins kind (encode a ++ s))
    (has : ∀ a ∈ as, a ∈ dom) (hbs : ∀ b ∈ bs, b ∈ dom) {s t : Bytes} (hs : ¬ Begins kind s)
    (ht : ¬ Begins kind t) (heq : encodeAll encode as ++ s = encodeAll encode bs ++ t) :
    as = bs ∧ s = t := by
  induction as generalizing bs with
  | nil =>
    cases bs with
    | nil => exact ⟨rfl, heq⟩
    | cons b bs =>
      -- One list is over, so what follows it would begin like an element of the other.
      rw [encodeAll_nil, nil_append, encodeAll_cons, append_assoc] at heq
      exact absurd (heq ▸ hkind b (hbs b mem_cons_self) _) hs
  | cons a as ih =>
    cases bs with
    | nil =>
      rw [encodeAll_nil, nil_append, encodeAll_cons, append_assoc] at heq
      exact absurd (heq ▸ hkind a (has a mem_cons_self) _) ht
    | cons b bs =>
      rw [encodeAll_cons, encodeAll_cons, append_assoc, append_assoc] at heq
      obtain ⟨hval, heq⟩ := h (has a mem_cons_self) (hbs b mem_cons_self) heq
      obtain ⟨hvals, hrest⟩ := ih (fun x hx => has x (mem_cons_of_mem a hx))
        (fun x hx => hbs x (mem_cons_of_mem b hx)) heq
      exact ⟨congrArg₂ _ hval hvals, hrest⟩

/-- Two lists without a count at the end of a string. -/
theorem SelfDelimiting.list_end {dom : Set α} (h : SelfDelimiting dom encode)
    (hne : ∀ a ∈ dom, encode a ≠ []) (has : ∀ a ∈ as, a ∈ dom) (hbs : ∀ b ∈ bs, b ∈ dom)
    (heq : encodeAll encode as = encodeAll encode bs) : as = bs := by
  have hkind : ∀ a ∈ dom, ∀ s, Begins (fun _ => True) (encode a ++ s) := by
    intro a ha s
    obtain ⟨b, code, hcode⟩ := exists_cons_of_ne_nil (hne a ha)
    exact ⟨b, by rw [hcode]; rfl, trivial⟩
  exact (h.list_until hkind has hbs (not_begins_nil _) (not_begins_nil _)
    (congrArg (· ++ []) heq)).1

end Lib
