import Mathlib.Logic.Relation

/-!
# Rooted trees as relations

An edge leads from a node to one below it. In a tree the root has nothing above it, a
node has one node above it at most, and every node is below the root. Such a relation
runs in no cycle. Conversely, nodes whose rank falls as one climbs are below the root.
-/
namespace DeipChain.Rooted

open Relation

universe u
variable {ν : Type u} {edge : ν → ν → Prop} {root : ν} {nodes : ν → Prop}

structure Tree (edge : ν → ν → Prop) (root : ν) (nodes : ν → Prop) : Prop where
  orphan : ∀ above, ¬ edge above root
  unique : ∀ first second node, edge first node → edge second node → first = second
  reached : ∀ node, nodes node → ReflTransGen edge root node

/-- No walk along the edges returns to a node below the root. -/
theorem Tree.acyclic (tree : Tree edge root nodes) {node : ν} (below : ReflTransGen edge root node) :
    ¬ TransGen edge node node := by
  induction below with
  | refl =>
    intro cycle
    obtain ⟨above, _, last⟩ := TransGen.tail'_iff.mp cycle
    exact tree.orphan above last
  | @tail middle node _ step hypothesis =>
    intro cycle
    obtain ⟨above, walk, last⟩ := TransGen.tail'_iff.mp cycle
    obtain rfl : above = middle := tree.unique above middle node last step
    exact hypothesis (TransGen.head' step walk)

/-- Climbing ends below the root if the rank falls at each step up. -/
theorem reached_of_rank (rank : ν → Nat)
    (above : ∀ node, nodes node → ReflTransGen edge root node ∨
      ∃ next, edge next node ∧ nodes next ∧ rank next < rank node) {node : ν}
    (inside : nodes node) : ReflTransGen edge root node := by
  induction bound : rank node using Nat.strongRecOn generalizing node with
  | ind _ hypothesis =>
    rcases above node inside with below | ⟨next, step, listed, lower⟩
    · exact below
    · exact .tail (hypothesis (rank next) (bound ▸ lower) listed rfl) step

/-- A walk along the edges and one more either leaves that one out or comes to it and goes on
    from its end. -/
theorem walk_insert {other : ν → ν → Prop} {tail head : ν}
    (edges : ∀ first second, other first second →
      edge first second ∨ first = tail ∧ second = head) {first last : ν}
    (walk : TransGen other first last) :
    TransGen edge first last ∨ ReflTransGen edge first tail ∧ ReflTransGen edge head last := by
  induction walk with
  | single step =>
    rcases edges _ _ step with old | ⟨rfl, rfl⟩
    · exact .inl (.single old)
    · exact .inr ⟨.refl, .refl⟩
  | tail _ step hypothesis =>
    rcases edges _ _ step with old | ⟨rfl, rfl⟩
    · rcases hypothesis with short | ⟨before, after⟩
      · exact .inl (.tail short old)
      · exact .inr ⟨before, .tail after old⟩
    · rcases hypothesis with short | ⟨before, _⟩
      · exact .inr ⟨short.to_reflTransGen, .refl⟩
      · exact .inr ⟨before, .refl⟩

/-- An edge closes no cycle if no walk leads from its end to its begin. -/
theorem acyclic_insert {other : ν → ν → Prop} {tail head : ν}
    (edges : ∀ first second, other first second →
      edge first second ∨ first = tail ∧ second = head)
    (acyclic : ∀ node, ¬ TransGen edge node node) (apart : ¬ ReflTransGen edge head tail) (node : ν) :
    ¬ TransGen other node node := by
  intro cycle
  rcases walk_insert edges cycle with old | ⟨before, after⟩
  · exact acyclic node old
  · exact apart (after.trans before)

end DeipChain.Rooted
