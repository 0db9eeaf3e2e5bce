/-
Hash trees, layer by layer, and the branches they give.

A tree is known by its bottom layer: the layer above combines the nodes two by two, and
the last node of an odd layer alone.  The branch of a node lists its sibling on each
layer on the way up, where it has one.

A branch of the tree is what a climb from that node wants: `recompute_siblings` says
that climbing with it arrives at the node of the tree above, whatever the width of the
bottom layer.
-/
import Autonomi.Lib.HashPath

namespace Lib.HashTree

open HashPath

variable {α : Type}

/-- The layer above: nodes two by two, the last one of an odd layer alone. -/
def parents (combine : α × Option α → α) : List α → List α
  | [] => []
  | [a] => [combine (a, none)]
  | a :: b :: rest => combine (a, some b) :: parents combine rest

def layer (combine : α × Option α → α) : (level : Nat) → (nodes : List α) → List α
  | 0, nodes => nodes
  | level + 1, nodes => layer combine level (parents combine nodes)

def sibling (index : Nat) : Nat := if index % 2 = 0 then index + 1 else index - 1

/-- The siblings on the way up from a node, one for each layer that has one. -/
def siblings (combine : α × Option α → α) : (depth : Nat) → (nodes : List α) → Nat → List α
  | 0, _, _ => []
  | depth + 1, nodes, index =>
    nodes[sibling index]?.toList ++ siblings combine depth (parents combine nodes) (index / 2)

variable (combine : α × Option α → α)

/-- Going up twice. -/
theorem layer_layer {upper : Nat} :
    ∀ {lower : Nat} {nodes : List α},
      layer combine upper (layer combine lower nodes) = layer combine (lower + upper) nodes := by
  intro lower
  induction lower with
  | zero => intro nodes; rw [layer, Nat.zero_add]
  | succ lower ih =>
    intro nodes
    rw [layer, ih, Nat.succ_add, layer]

/-! ### Widths -/

theorem length_parents :
    ∀ nodes : List α, (parents combine nodes).length = (nodes.length + 1) / 2 := by
  intro nodes
  induction nodes using parents.induct with
  | case1 | case2 a => simp [parents]
  | case3 a b rest ih =>
    rw [parents, List.length_cons, ih, List.length_cons, List.length_cons]
    omega

/-- `level` layers up from a full layer, the layer is full again. -/
theorem length_layer_full {depth : Nat} :
    ∀ {level : Nat} {nodes : List α}, nodes.length = 2 ^ (depth + level) →
      (layer combine level nodes).length = 2 ^ depth := by
  intro level
  induction level with
  | zero => intro nodes h; exact h
  | succ level ih =>
    intro nodes h
    have hhalf : (parents combine nodes).length = 2 ^ (depth + level) := by
      rw [length_parents, h, ← Nat.add_assoc, Nat.pow_succ]
      omega
    exact ih hhalf

/-- The branch from a full layer has a sibling on every layer. -/
theorem length_siblings_full :
    ∀ {depth : Nat} {nodes : List α} {index : Nat}, nodes.length = 2 ^ depth →
      index < nodes.length → (siblings combine depth nodes index).length = depth := by
  intro depth
  induction depth with
  | zero => intro nodes index _ _; rfl
  | succ depth ih =>
    intro nodes index h hindex
    have hhalf : (parents combine nodes).length = 2 ^ depth := by
      rw [length_parents, h, Nat.pow_succ]
      omega
    have hsibling : sibling index < nodes.length := by
      unfold sibling
      split <;> omega
    rw [siblings, List.length_append, List.getElem?_eq_getElem hsibling, Option.toList_some,
      ih hhalf (by rw [hhalf]; rw [h, Nat.pow_succ] at hindex; omega)]
    exact Nat.add_comm 1 depth

/-! ### Climbing along a branch of the tree -/

/-- What a node's parent is made of. -/
theorem getElem?_parents :
    ∀ (nodes : List α) (index : Nat) (a : α), nodes[index]? = some a →
      (parents combine nodes)[index / 2]? =
        some (combine (match nodes[sibling index]? with
          | some b => ordered index a b
          | none => (a, none))) := by
  intro nodes
  induction nodes using parents.induct with
  | case1 => intro index a h; simp at h
  | case2 x =>
    intro index a h
    cases index with
    | zero =>
      obtain rfl : x = a := by simpa using h
      rfl
    | succ index => simp at h
  | case3 x y rest ih =>
    intro index a h
    match index with
    | 0 =>
      obtain rfl : x = a := by simpa using h
      rfl
    | 1 =>
      obtain rfl : y = a := by simpa using h
      rfl
    | index + 2 =>
      -- Two places further on, everything is as in the rest of the layer.
      have hhalf : (index + 2) / 2 = index / 2 + 1 := by omega
      have hsibling : sibling (index + 2) = sibling index + 2 := by
        unfold sibling
        split <;> split <;> omega
      have hordered : ∀ b, ordered (index + 2) a b = ordered index a b := by
        intro b
        unfold ordered
        rw [Nat.add_mod_right]
      rw [parents, hhalf, List.getElem?_cons_succ, ih index a (by simpa using h), hsibling]
      simp only [List.getElem?_cons_succ, hordered]

/-- A node has no sibling exactly where the climb combines it alone. -/
theorem getElem?_sibling_eq_none {nodes : List α} {index : Nat} (h : index < nodes.length) :
    nodes[sibling index]? = none ↔ nodes.length % 2 = 1 ∧ index + 1 = nodes.length := by
  rw [List.getElem?_eq_none_iff]
  unfold sibling
  split <;> omega

/-- **Climbing along the tree's own branch arrives at the tree's own node.** -/
theorem recompute_siblings :
    ∀ (depth : Nat) (nodes : List α) (index : Nat) (a : α), nodes[index]? = some a →
      recompute combine depth nodes.length index a (siblings combine depth nodes index)
        = (layer combine depth nodes)[index / 2 ^ depth]? := by
  intro depth
  induction depth with
  | zero =>
    intro nodes index a h
    rw [recompute, layer, Nat.pow_zero, Nat.div_one, h]
  | succ depth ih =>
    intro nodes index a h
    have hindex : index < nodes.length := (List.getElem?_eq_some_iff.mp h).1
    have hparent := getElem?_parents combine nodes index a h
    have hpow : index / 2 ^ (depth + 1) = index / 2 / 2 ^ depth := by
      rw [Nat.pow_succ, Nat.mul_comm, Nat.div_div_eq_div_mul]
    rw [hpow, layer, siblings]
    -- The sibling is there or not, and the climb looks at the width to know.
    cases hs : nodes[sibling index]? with
    | none =>
      rw [hs] at hparent
      simp only [recompute, if_pos ((getElem?_sibling_eq_none hindex).mp hs),
        ← ih _ _ _ hparent, length_parents, Option.toList_none, List.nil_append]
    | some b =>
      rw [hs] at hparent
      have hpair : ¬ (nodes.length % 2 = 1 ∧ index + 1 = nodes.length) := by
        intro hlast
        rw [(getElem?_sibling_eq_none hindex).mpr hlast] at hs
        exact absurd hs (Option.some_ne_none b).symm
      simp only [recompute, if_neg hpair, ← ih _ _ _ hparent, length_parents,
        Option.toList_some, List.cons_append, List.nil_append]

end Lib.HashTree
