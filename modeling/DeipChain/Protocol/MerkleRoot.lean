import DeipChain.Lib.MerkleTree

/-!
# The merkle root of a block

`calculate_merkle_root` computes the digests of the transactions of a block and joins them in
pairs, level by level, in one vector: the nodes of a level are written over those of the level
below, and a length tells how many there are. The digests, of `fc`, are parameters.
-/
namespace DeipChain.Protocol

open Merkle

/-- The digests of transactions and of pairs of digests, and the checksum of a digest. -/
structure TransactionHashing (Tx Digest Checksum : Type) where
  merkleDigest : Tx → Digest
  pairDigest : Digest → Digest → Digest
  checksum : Digest → Checksum
  emptyDigest : Digest
  emptyChecksum : Checksum

namespace TransactionHashing

variable {Tx Digest Checksum : Type} (hashing : TransactionHashing Tx Digest Checksum)

/-- The digests come from hashes that never collide: none gives two inputs the same digest, no
    digest is that of a transaction and of a pair, and no checksum is the empty one. -/
structure CollisionFree : Prop where
  leaves : Function.Injective hashing.merkleDigest
  pairs : ∀ first second first' second',
    hashing.pairDigest first second = hashing.pairDigest first' second' →
      first = first' ∧ second = second'
  apart : ∀ transaction first second,
    hashing.merkleDigest transaction ≠ hashing.pairDigest first second
  checksums : Function.Injective hashing.checksum
  nonempty : ∀ digest, hashing.checksum digest ≠ hashing.emptyChecksum

/-- Hashes the ids in pairs, from the cursor `i` up to `iMax`, and writes them behind `k`. -/
def hashPairs (iMax : Nat) (ids : List Digest) (i k : Nat) : List Digest × Nat :=
  if i < iMax then
    hashPairs iMax (ids.set k (hashing.pairDigest (ids.getD i hashing.emptyDigest)
      (ids.getD (i + 1) hashing.emptyDigest))) (i + 2) (k + 1)
  else (ids, k)
termination_by iMax - i

/-- One round of the loop: the ids of the next level, and how many there are. -/
def hashLevel (ids : List Digest) (current : Nat) : List Digest × Nat :=
  let iMax := current - current % 2
  let (paired, k) := hashing.hashPairs iMax ids 0 0
  if current % 2 = 1 then (paired.set k (paired.getD iMax hashing.emptyDigest), k + 1)
  else (paired, k)

/-- The loop over the levels. Each has fewer hashes than the one below. -/
def hashLevels : Nat → List Digest → Nat → List Digest
  | 0, ids, _ => ids
  | fuel + 1, ids, current =>
    if 1 < current then
      let (level, k) := hashing.hashLevel ids current
      hashLevels fuel level k
    else ids

/-- `calculate_merkle_root` -/
def calculateMerkleRoot (transactions : List Tx) : Checksum :=
  if transactions.length = 0 then hashing.emptyChecksum
  else
    let ids := transactions.map hashing.merkleDigest
    hashing.checksum ((hashing.hashLevels ids.length ids ids.length).getD 0 hashing.emptyDigest)

/-- A write behind the nodes that are done. -/
theorem set_done (done others : List Digest) (node written : Digest) :
    (done ++ node :: others).set done.length written = done ++ written :: others := by
  rw [List.set_append_right _ _ (Nat.le_refl _), Nat.sub_self, List.set_cons_zero]

theorem getD_done (done others : List Digest) (node default : Digest) {index : Nat}
    (place : index = done.length) : (done ++ node :: others).getD index default = node := by
  rw [place, List.getD_eq_getElem?_getD, List.getElem?_append_right (Nat.le_refl _), Nat.sub_self,
    List.getElem?_cons_zero, Option.getD_some]

/-- The loop over the pairs of one level. The vector holds the nodes that are written, some that
are not needed any more, and those that are still to be hashed.

Proof: induction on the pairs. A round writes over the first of the nodes that are not needed, or
over the pair itself, and leaves both nodes of the pair as not needed. -/
theorem hashPairs_eq {nodes : List Digest} (even : nodes.length % 2 = 0) (done old rest : List Digest)
    (behind : old.length = done.length) :
    ∃ left, hashing.hashPairs (done.length + old.length + nodes.length)
        (done ++ old ++ nodes ++ rest) (done.length + old.length) done.length =
      (done ++ pairs hashing.pairDigest nodes ++ left ++ rest,
        (done ++ pairs hashing.pairDigest nodes).length) ∧
      left.length = (done ++ pairs hashing.pairDigest nodes).length := by
  induction nodes using pairs.induct generalizing done old with
  | case1 =>
    rw [hashPairs, if_neg (by simp), pairs]
    exact ⟨old, by simp, by simpa using behind⟩
  | case2 node => cases even
  | case3 first second nodes hypothesis =>
    rw [List.length_cons, List.length_cons] at even
    obtain ⟨node, older, split⟩ : ∃ node older, old ++ [first, second] = node :: older := by
      cases old with
      | nil => exact ⟨_, _, rfl⟩
      | cons node others => exact ⟨_, _, rfl⟩
    have longer : older.length = old.length + 1 := by simpa using (congrArg List.length split).symm
    have reads : (done ++ old ++ first :: second :: nodes ++ rest).getD (done.length + old.length)
        hashing.emptyDigest = first := by
      rw [List.append_assoc, List.cons_append]
      exact getD_done _ _ _ _ (by simp)
    have follows : (done ++ old ++ first :: second :: nodes ++ rest).getD
        (done.length + old.length + 1) hashing.emptyDigest = second := by
      have regrouped : done ++ old ++ first :: second :: nodes ++ rest =
          done ++ old ++ [first] ++ second :: (nodes ++ rest) := by simp
      rw [regrouped]
      exact getD_done _ _ _ _ (by simp; omega)
    have whole : done ++ old ++ first :: second :: nodes ++ rest =
        done ++ node :: (older ++ nodes ++ rest) := by
      have regrouped := congrArg (done ++ · ++ nodes ++ rest) split
      simpa using regrouped
    rw [hashPairs, if_pos (by simp), reads, follows, whole, set_done]
    obtain ⟨left, ran, as_long⟩ := hypothesis (by omega)
      (done ++ [hashing.pairDigest first second]) older (by simp; omega)
    refine ⟨left, ?_, ?_⟩
    · rw [pairs]
      simp only [List.length_append, List.length_cons, List.length_nil, List.append_assoc,
        List.cons_append, List.nil_append, longer] at ran ⊢
      rw [← ran]
      congr 1 <;> omega
    · rw [pairs, as_long]
      simp

/-- One round of the loop leaves the next level in front. -/
theorem hashLevel_eq (live dead : List Digest) :
    ∃ left, hashing.hashLevel (live ++ dead) live.length =
      (pairs hashing.pairDigest live ++ left, (pairs hashing.pairDigest live).length) := by
  rw [hashLevel]
  dsimp only
  by_cases odd : live.length % 2 = 1
  · obtain ⟨nodes, last, rfl⟩ : ∃ nodes last, live = nodes ++ [last] := by
      rcases List.eq_nil_or_concat live with rfl | ⟨nodes, last, rfl⟩
      · cases odd
      · exact ⟨nodes, last, List.concat_eq_append⟩
    rw [List.length_append, List.length_singleton] at odd ⊢
    have even : nodes.length % 2 = 0 := by omega
    obtain ⟨left, ran, as_long⟩ := hashPairs_eq hashing even [] [] (last :: dead) rfl
    have count := length_pairs hashing.pairDigest nodes
    simp only [List.nil_append, List.length_nil, Nat.zero_add] at ran as_long
    rw [if_pos odd, odd, Nat.add_sub_cancel, List.append_assoc, List.singleton_append, ran]
    dsimp only
    -- the last node goes up as it is
    rw [getD_done _ _ _ _ (by rw [List.length_append]; omega), List.append_assoc,
      pairs_append _ _ _ even, pairs]
    obtain ⟨node, others, split⟩ : ∃ node others, left ++ last :: dead = node :: others := by
      cases left with
      | nil => exact ⟨_, _, rfl⟩
      | cons node others => exact ⟨_, _, rfl⟩
    rw [split, set_done]
    exact ⟨others, by simp⟩
  · have even : live.length % 2 = 0 := by omega
    obtain ⟨left, ran, _⟩ := hashPairs_eq hashing even [] [] dead rfl
    simp only [List.nil_append, List.length_nil, Nat.zero_add] at ran
    rw [if_neg odd, even, Nat.sub_zero, ran]
    exact ⟨left ++ dead, by simp⟩

/-- The loop ends with the node that is left of all levels in front. -/
theorem hashLevels_eq {fuel : Nat} {live : List Digest} {node : Digest} (enough : live.length ≤ fuel)
    (collapses : collapse hashing.pairDigest live = some node) (dead : List Digest) :
    ∃ left, hashing.hashLevels fuel (live ++ dead) live.length = node :: left := by
  induction fuel generalizing live dead with
  | zero =>
    obtain rfl := List.eq_nil_of_length_eq_zero (Nat.le_zero.mp enough)
    rw [collapse] at collapses
    cases collapses
  | succ fuel hypothesis =>
    rw [hashLevels]
    by_cases more : 1 < live.length
    · obtain ⟨left, ran⟩ := hashLevel_eq hashing live dead
      have fewer := length_pairs hashing.pairDigest live
      rw [if_pos more, ran]
      exact hypothesis (by omega) (by rw [collapse_pairs, collapses]) left
    · rw [if_neg more]
      rcases live with _ | ⟨single, _ | ⟨_, _⟩⟩
      · rw [collapse] at collapses
        cases collapses
      · rw [collapse, Option.some.injEq] at collapses
        exact ⟨dead, by rw [collapses]; rfl⟩
      · exact absurd (by simp) more

/-- The root of a block is the checksum of the digest of the tree over its transactions. -/
theorem calculateMerkleRoot_build {transactions : List Tx} {tree : Merkle.Tree Tx}
    (built : Merkle.Tree.build transactions = some tree) :
    hashing.calculateMerkleRoot transactions =
      hashing.checksum (tree.root hashing.merkleDigest hashing.pairDigest) := by
  have collapses := Merkle.Tree.root_build hashing.merkleDigest hashing.pairDigest transactions
  rw [built, Option.map_some] at collapses
  obtain ⟨left, ran⟩ := hashLevels_eq hashing (Nat.le_refl _) collapses.symm []
  rw [calculateMerkleRoot]
  by_cases none : transactions.length = 0
  · obtain rfl := List.eq_nil_of_length_eq_zero none
    rw [Merkle.Tree.build, List.map_nil, collapse] at built
    cases built
  · rw [List.append_nil] at ran
    rw [if_neg none]
    dsimp only
    rw [ran, List.getD_cons_zero]

/-- The root of every block is the checksum of the root of the tree over its transactions; of no
transactions it is the empty one. Two blocks with one root have the same transactions, as long as
the hashes do not collide. -/
theorem calculateMerkleRoot_tree :
    hashing.calculateMerkleRoot [] = hashing.emptyChecksum ∧
    (∀ transactions ≠ [], ∃ tree, Merkle.Tree.build transactions = some tree ∧
      tree.leaves = transactions ∧
      hashing.calculateMerkleRoot transactions =
        hashing.checksum (tree.root hashing.merkleDigest hashing.pairDigest)) ∧
    (hashing.CollisionFree → Function.Injective hashing.calculateMerkleRoot) := by
  have none : hashing.calculateMerkleRoot [] = hashing.emptyChecksum := rfl
  have built (transactions : List Tx) (some_ : transactions ≠ []) :
      ∃ tree, Merkle.Tree.build transactions = some tree ∧ tree.leaves = transactions ∧
        hashing.calculateMerkleRoot transactions =
          hashing.checksum (tree.root hashing.merkleDigest hashing.pairDigest) := by
    obtain ⟨tree, builds⟩ : ∃ tree, Merkle.Tree.build transactions = some tree :=
      collapse_of_ne_nil (by simpa using some_)
    exact ⟨tree, builds, Merkle.Tree.leaves_build builds, hashing.calculateMerkleRoot_build builds⟩
  refine ⟨none, built, fun free first second same => ?_⟩
  by_cases one : first = []
  · by_cases two : second = []
    · rw [one, two]
    · obtain ⟨tree, _, _, root⟩ := built second two
      rw [one, none, root] at same
      exact absurd same.symm (free.nonempty _)
  · obtain ⟨tree, _, leaves, root⟩ := built first one
    by_cases two : second = []
    · rw [two, none, root] at same
      exact absurd same (free.nonempty _)
    · obtain ⟨other, _, leaves', root'⟩ := built second two
      rw [root, root'] at same
      have trees := Merkle.Tree.root_injective free.leaves free.pairs free.apart (free.checksums same)
      rw [← leaves, ← leaves', trees]

/-- Hashes without collisions: the digest is the tree itself. -/
def free : TransactionHashing Nat (Merkle.Tree Nat) (Option (Merkle.Tree Nat)) where
  merkleDigest := Merkle.Tree.leaf
  pairDigest := Merkle.Tree.node
  checksum := some
  emptyDigest := Merkle.Tree.leaf 0
  emptyChecksum := none

/-- Three transactions and two of them in another order have different roots. -/
theorem calculateMerkleRoot_tree_free :
    free.calculateMerkleRoot [1, 2, 3] ≠ free.calculateMerkleRoot [2, 1] := by
  have distinct : free.CollisionFree := by
    constructor
    · exact fun _ _ same => Merkle.Tree.leaf.inj same
    · exact fun _ _ _ _ same => Merkle.Tree.node.inj same
    · exact fun _ _ _ same => nomatch same
    · exact fun _ _ same => Option.some.inj same
    · exact fun _ same => nomatch same
  exact fun same => absurd ((calculateMerkleRoot_tree free).2.2 distinct same) (by decide)

end TransactionHashing

end DeipChain.Protocol
