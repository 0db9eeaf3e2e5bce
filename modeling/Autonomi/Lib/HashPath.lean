/-
Recomputing the root of a hash tree from one node and its siblings.

A branch is checked by climbing: at each layer the node is combined with the sibling the
branch supplies, on the side its index says, and the index is halved.  A layer of odd
width has no sibling for its last node, which is combined alone.

What a root pins down is stated here once, over any `combine` that is injective on the
inputs the climbs in question actually feed it.  A climb through full layers, `2 ^
depth` nodes wide, looks only at the low `depth` bits of the index, so two such climbs
to one root from indices that agree there start at the same node:
`recompute_node_unique`.
-/
import Mathlib.Algebra.Order.Group.Nat

namespace Lib.HashPath

variable {α : Type}

/-- The two nodes that make up the parent, in order: the sibling's side is the index's parity. -/
def ordered (index : Nat) (node sibling : α) : α × Option α :=
  if index % 2 = 0 then (node, some sibling) else (sibling, some node)

/--
The root above `node`, `depth` layers up, from a layer `width` nodes wide.
`none` when the branch runs out of siblings; left-over siblings are ignored.
-/
def recompute (combine : α × Option α → α) :
    (depth width index : Nat) → (node : α) → (siblings : List α) → Option α
  | 0, _, _, node, _ => some node
  | depth + 1, width, index, node, siblings =>
    if width % 2 = 1 ∧ index + 1 = width then
      recompute combine depth ((width + 1) / 2) (index / 2) (combine (node, none)) siblings
    else
      match siblings with
      | [] => none
      | sibling :: rest =>
        recompute combine depth ((width + 1) / 2) (index / 2)
          (combine (ordered index node sibling)) rest

/-- What `recompute` feeds to `combine`, from the bottom layer up. -/
def combined (combine : α × Option α → α) :
    (depth width index : Nat) → (node : α) → (siblings : List α) → List (α × Option α)
  | 0, _, _, _, _ => []
  | depth + 1, width, index, node, siblings =>
    if width % 2 = 1 ∧ index + 1 = width then
      (node, none) ::
        combined combine depth ((width + 1) / 2) (index / 2) (combine (node, none)) siblings
    else
      match siblings with
      | [] => []
      | sibling :: rest =>
        ordered index node sibling ::
          combined combine depth ((width + 1) / 2) (index / 2)
            (combine (ordered index node sibling)) rest

/-! ### Full layers -/

private theorem full_even (depth index : Nat) :
    ¬ (2 ^ (depth + 1) % 2 = 1 ∧ index + 1 = 2 ^ (depth + 1)) := by
  intro hodd
  omega

private theorem full_half (depth : Nat) : (2 ^ (depth + 1) + 1) / 2 = 2 ^ depth := by
  omega

variable (combine : α × Option α → α)

/-- One layer of a full tree always takes a sibling, and leaves a full tree above it. -/
theorem recompute_full (depth index : Nat) (node sibling : α)
    (rest : List α) :
    recompute combine (depth + 1) (2 ^ (depth + 1)) index node (sibling :: rest)
      = recompute combine depth (2 ^ depth) (index / 2)
          (combine (ordered index node sibling)) rest := by
  simp only [recompute, if_neg (full_even depth index), full_half]

theorem combined_full (depth index : Nat) (node sibling : α)
    (rest : List α) :
    combined combine (depth + 1) (2 ^ (depth + 1)) index node (sibling :: rest)
      = ordered index node sibling ::
          combined combine depth (2 ^ depth) (index / 2)
            (combine (ordered index node sibling)) rest := by
  simp only [combined, if_neg (full_even depth index), full_half]

/-- A full climb cannot do without a sibling. -/
theorem recompute_full_nil (depth index : Nat) (node : α) :
    recompute combine (depth + 1) (2 ^ (depth + 1)) index node [] = none := by
  simp only [recompute, if_neg (full_even depth index)]

/-- Indices of one parity put the node on one side, so the parent gives the node back. -/
theorem ordered_inj {i j : Nat} {a b s t : α} (hpar : i % 2 = j % 2)
    (h : ordered i a s = ordered j b t) : a = b := by
  unfold ordered at h
  rw [← hpar] at h
  split at h
  · exact (Prod.mk.inj h).1
  · exact Option.some.inj (Prod.mk.inj h).2

private theorem low_bits_halve {i j depth : Nat}
    (h : i % 2 ^ (depth + 1) = j % 2 ^ (depth + 1)) :
    i % 2 = j % 2 ∧ i / 2 % 2 ^ depth = j / 2 % 2 ^ depth := by
  have hdvd : 2 ∣ 2 ^ (depth + 1) := ⟨2 ^ depth, by rw [Nat.pow_succ, Nat.mul_comm]⟩
  constructor
  · rw [← Nat.mod_mod_of_dvd i hdvd, ← Nat.mod_mod_of_dvd j hdvd, h]
  · rw [Nat.pow_succ, Nat.mul_comm] at h
    rw [← Nat.mod_mul_right_div_self, ← Nat.mod_mul_right_div_self, h]

/--
**A root pins down the node at a position.**  Two climbs through full layers that
end in one root and whose indices agree on the low `depth` bits start at the same
node, if `combine` does not collide on what the two climbs feed it.
-/
theorem recompute_node_unique {S : Set (α × Option α)}
    (hinj : Set.InjOn combine S) {root : α} :
    ∀ (depth i j : Nat) (a b : α) (s t : List α),
      i % 2 ^ depth = j % 2 ^ depth →
      recompute combine depth (2 ^ depth) i a s = some root →
      recompute combine depth (2 ^ depth) j b t = some root →
      (∀ p ∈ combined combine depth (2 ^ depth) i a s, p ∈ S) →
      (∀ p ∈ combined combine depth (2 ^ depth) j b t, p ∈ S) →
      a = b := by
  intro depth
  induction depth with
  | zero =>
    intro i j a b s t _ ha hb _ _
    simp only [recompute, Option.some.injEq] at ha hb
    rw [ha, hb]
  | succ depth ih =>
    intro i j a b s t hbits ha hb hS hT
    cases s with
    | nil => simp [recompute_full_nil] at ha
    | cons x s =>
      cases t with
      | nil => simp [recompute_full_nil] at hb
      | cons y t =>
        rw [recompute_full] at ha hb
        rw [combined_full] at hS hT
        obtain ⟨hpar, hrest⟩ := low_bits_halve hbits
        -- The parents agree by induction, and `combine` gives back what they are made of.
        have hparent : combine (ordered i a x) = combine (ordered j b y) :=
          ih _ _ _ _ s t hrest ha hb
            (fun p hp => hS p (List.mem_cons_of_mem _ hp))
            (fun p hp => hT p (List.mem_cons_of_mem _ hp))
        have hnodes : ordered i a x = ordered j b y :=
          hinj (hS _ List.mem_cons_self) (hT _ List.mem_cons_self) hparent
        exact ordered_inj hpar hnodes

end Lib.HashPath
