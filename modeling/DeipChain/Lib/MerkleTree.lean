import Mathlib.Algebra.Ring.Int.Defs
import Mathlib.Algebra.Ring.Nat
import Mathlib.Data.List.Basic

/-!
# Hash trees

A list of nodes is joined in pairs, level by level, until one node is left. An odd last node of a
level goes up unchanged. The levels do not depend on what the nodes are, so a tree can be built of
leaves, and its digest computed of their digests, along the same levels.
-/
namespace DeipChain.Merkle

universe u v

variable {α : Type u} {δ : Type v}

/-! ## Levels -/

/-- The level above some nodes. -/
def pairs (join : α → α → α) : List α → List α
  | [] => []
  | [node] => [node]
  | first :: second :: rest => join first second :: pairs join rest

theorem length_pairs (join : α → α → α) (nodes : List α) :
    (pairs join nodes).length = (nodes.length + 1) / 2 := by
  induction nodes using pairs.induct with
  | case1 => rw [pairs, List.length_nil]
  | case2 node => rw [pairs, List.length_singleton]
  | case3 first second rest hypothesis =>
    rw [pairs, List.length_cons, hypothesis, List.length_cons, List.length_cons]
    omega

/-- An even number of nodes is joined apart from the nodes behind them. -/
theorem pairs_append (join : α → α → α) (nodes others : List α) (even : nodes.length % 2 = 0) :
    pairs join (nodes ++ others) = pairs join nodes ++ pairs join others := by
  induction nodes using pairs.induct with
  | case1 => rfl
  | case2 node => cases even
  | case3 first second rest hypothesis =>
    rw [List.length_cons, List.length_cons] at even
    rw [List.cons_append, List.cons_append, pairs, pairs, hypothesis (by omega), List.cons_append]

/-- A map that respects the joins goes level by level. -/
theorem map_pairs {join : α → α → α} {other : δ → δ → δ} (field : α → δ)
    (respects : ∀ first second, field (join first second) = other (field first) (field second))
    (nodes : List α) : (pairs join nodes).map field = pairs other (nodes.map field) := by
  induction nodes using pairs.induct with
  | case1 => rfl
  | case2 node => rfl
  | case3 first second rest hypothesis =>
    rw [pairs, List.map_cons, hypothesis, respects]
    rfl

/-- The node that is left of some nodes, if there are any. -/
def collapse (join : α → α → α) : List α → Option α
  | [] => none
  | [node] => some node
  | first :: second :: rest => collapse join (pairs join (first :: second :: rest))
termination_by nodes => nodes.length
decreasing_by
  rw [length_pairs, List.length_cons, List.length_cons]
  omega

theorem collapse_pairs (join : α → α → α) (nodes : List α) :
    collapse join (pairs join nodes) = collapse join nodes := by
  match nodes with
  | [] => rfl
  | [_] => rfl
  | first :: second :: rest => rw [collapse]

theorem collapse_map {join : α → α → α} {other : δ → δ → δ} (field : α → δ)
    (respects : ∀ first second, field (join first second) = other (field first) (field second))
    (nodes : List α) : (collapse join nodes).map field = collapse other (nodes.map field) := by
  induction nodes using collapse.induct join with
  | case1 => rw [collapse, List.map_nil, collapse, Option.map_none]
  | case2 node => rw [collapse, List.map_cons, List.map_nil, collapse, Option.map_some]
  | case3 first second rest hypothesis =>
    rw [collapse, hypothesis, map_pairs field respects, collapse_pairs]

theorem collapse_of_ne_nil {join : α → α → α} {nodes : List α} (some_ : nodes ≠ []) :
    ∃ node, collapse join nodes = some node := by
  induction nodes using collapse.induct join with
  | case1 => exact absurd rfl some_
  | case2 node => exact ⟨node, by rw [collapse]⟩
  | case3 first second rest hypothesis =>
    rw [collapse]
    exact hypothesis (by rw [pairs]; exact List.cons_ne_nil _ _)

/-! ## Trees -/

/-- A tree over leaves. -/
inductive Tree (α : Type u) where
  | leaf (value : α)
  | node (first second : Tree α)
deriving DecidableEq, Repr

namespace Tree

/-- The leaves of a tree in their order. -/
def leaves : Tree α → List α
  | leaf value => [value]
  | node first second => first.leaves ++ second.leaves

/-- The digest at the root. -/
def root (leafDigest : α → δ) (pairDigest : δ → δ → δ) : Tree α → δ
  | leaf value => leafDigest value
  | node first second =>
    pairDigest (first.root leafDigest pairDigest) (second.root leafDigest pairDigest)

/-- The tree over some leaves, if there are any. -/
def build (values : List α) : Option (Tree α) :=
  collapse node (values.map leaf)

theorem root_build (leafDigest : α → δ) (pairDigest : δ → δ → δ) (values : List α) :
    (build values).map (root leafDigest pairDigest) =
      collapse pairDigest (values.map leafDigest) := by
  have respects (first second : Tree α) : (node first second).root leafDigest pairDigest =
      pairDigest (first.root leafDigest pairDigest) (second.root leafDigest pairDigest) := rfl
  rw [build, collapse_map (root leafDigest pairDigest) respects, List.map_map]
  rfl

theorem flatMap_leaves_pairs (nodes : List (Tree α)) :
    (pairs node nodes).flatMap leaves = nodes.flatMap leaves := by
  induction nodes using pairs.induct with
  | case1 => rfl
  | case2 tree => rfl
  | case3 first second rest hypothesis =>
    rw [pairs, List.flatMap_cons, List.flatMap_cons, List.flatMap_cons, hypothesis, leaves,
      List.append_assoc]

theorem leaves_collapse {nodes : List (Tree α)} {tree : Tree α} (left : collapse node nodes = some tree) :
    tree.leaves = nodes.flatMap leaves := by
  induction nodes using collapse.induct (node (α := α)) with
  | case1 =>
    rw [collapse] at left
    cases left
  | case2 single =>
    rw [collapse, Option.some.injEq] at left
    rw [← left, List.flatMap_cons, List.flatMap_nil, List.append_nil]
  | case3 first second rest hypothesis =>
    rw [collapse] at left
    rw [hypothesis left, flatMap_leaves_pairs]

/-- The tree over some leaves has these leaves. -/
theorem leaves_build {values : List α} {tree : Tree α} (built : build values = some tree) :
    tree.leaves = values := by
  rw [leaves_collapse built, List.flatMap_map]
  exact List.flatMap_singleton' values

/-- Trees are told apart by their digests if those of leaves and pairs are told apart.

Proof: induction on the first tree. The digest of a leaf is not that of a pair, so the trees have
the same shape. -/
theorem root_injective {leafDigest : α → δ} {pairDigest : δ → δ → δ}
    (leaf_inj : Function.Injective leafDigest)
    (pair_inj : ∀ first second first' second',
      pairDigest first second = pairDigest first' second' → first = first' ∧ second = second')
    (apart : ∀ value first second, leafDigest value ≠ pairDigest first second) :
    Function.Injective (root leafDigest pairDigest) := by
  intro tree
  induction tree with
  | leaf value =>
    intro other same
    cases other with
    | leaf value' => exact congrArg leaf (leaf_inj same)
    | node first second => exact absurd same (apart _ _ _)
  | node first second one two =>
    intro other same
    cases other with
    | leaf value => exact absurd same.symm (apart _ _ _)
    | node first' second' =>
      obtain ⟨left, right⟩ := pair_inj _ _ _ _ same
      rw [one left, two right]

end Tree

end DeipChain.Merkle
