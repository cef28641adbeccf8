import Mathlib.Algebra.Ring.Int.Defs
import Mathlib.Algebra.Ring.Nat
import Mathlib.Data.List.Sort

/-!
# Picking the leading elements of a list and shuffling in place

The first elements of a sorted list lead all others: none that was left out comes before
one that was taken. Exchanging two places of a list leaves its elements as they are, and
leaves what lies behind both places alone, so a shuffle of the front of an array by
exchanges permutes the front.
-/
namespace DeipChain.Selection

variable {A : Type}

/-- The chosen candidates are as many as allowed, and no other candidate has to come
before one of them. -/
structure Leading (precedes : A → A → Prop) (count : Nat) (candidates chosen : List A) : Prop where
  among : ∀ element ∈ chosen, element ∈ candidates
  nodup : chosen.Nodup
  size : chosen.length = min count candidates.length
  first : ∀ element ∈ chosen, ∀ other ∈ candidates, other ∉ chosen → precedes element other

/-- The front of a sorted list leads. -/
theorem Leading.of_sorted {precedes : A → A → Prop} {sorted candidates : List A}
    (same : sorted.Perm candidates) (ordered : sorted.Pairwise precedes)
    (distinct : candidates.Nodup) (count : Nat) :
    Leading precedes count candidates (sorted.take count) where
  among element member := same.mem_iff.mp (List.mem_of_mem_take member)
  nodup := (same.nodup_iff.mpr distinct).sublist (List.take_sublist _ _)
  size := by rw [List.length_take, same.length_eq]
  first := by
    intro element member other candidate left
    have inSorted := same.mem_iff.mpr candidate
    rw [← List.take_append_drop count sorted] at inSorted ordered
    rcases List.mem_append.mp inSorted with taken | dropped
    · exact absurd taken left
    · exact (List.pairwise_append.mp ordered).2.2 element member other dropped

/-- Behind a place of a sorted list no element comes before the one at the place. -/
theorem countP_of_sorted {precedes : A → A → Prop} [DecidableRel precedes]
    {sorted items : List A} {place : Nat} {element : A} (same : sorted.Perm items)
    (ordered : sorted.Pairwise precedes) (reflexive : precedes element element)
    (found : sorted[place]? = some element) :
    items.length - place ≤ items.countP (fun other => precedes element other) := by
  have behind : ∀ other ∈ sorted.drop place, precedes element other := by
    obtain ⟨inside, rfl⟩ := List.getElem?_eq_some_iff.mp found
    have tail := ordered.sublist (List.drop_sublist place sorted)
    rw [List.drop_eq_getElem_cons inside] at tail ⊢
    rintro other member
    rcases List.mem_cons.mp member with rfl | later
    · exact reflexive
    · exact (List.pairwise_cons.mp tail).1 other later
  calc items.length - place = (sorted.drop place).length := by
        rw [List.length_drop, same.length_eq]
    _ = (sorted.drop place).countP (fun other => precedes element other) := by
        rw [List.countP_eq_length.mpr]
        simpa using behind
    _ ≤ sorted.countP (fun other => precedes element other) :=
        (List.drop_sublist place sorted).countP_le
    _ = items.countP (fun other => precedes element other) := same.countP_eq _

/-- A loop that drops elements from the front until a test fails has dropped all that pass
it, when those come first. -/
theorem mem_dropWhile_iff {test : A → Bool} {items : List A} {element : A}
    (ordered : items.Pairwise (fun one other => test other = true → test one = true)) :
    element ∈ items.dropWhile test ↔ element ∈ items ∧ test element = false := by
  induction items with
  | nil => simp
  | cons first rest hypothesis =>
    rw [List.pairwise_cons] at ordered
    by_cases passes : test first = true
    · rw [List.dropWhile_cons_of_pos passes, hypothesis ordered.2, List.mem_cons]
      constructor
      · rintro ⟨member, fails⟩
        exact ⟨Or.inr member, fails⟩
      · rintro ⟨rfl | member, fails⟩
        · rw [passes] at fails
          cases fails
        · exact ⟨member, fails⟩
    · rw [List.dropWhile_cons_of_neg passes]
      constructor
      · intro member
        refine ⟨member, ?_⟩
        rcases List.mem_cons.mp member with rfl | behind
        · simpa using passes
        · exact Bool.eq_false_iff.mpr (mt (ordered.1 element behind) passes)
      · exact And.left

/-- Those that it has dropped are the ones that pass. -/
theorem mem_takeWhile_iff {test : A → Bool} {items : List A} {element : A}
    (ordered : items.Pairwise (fun one other => test other = true → test one = true)) :
    element ∈ items.takeWhile test ↔ element ∈ items ∧ test element = true := by
  induction items with
  | nil => simp
  | cons first rest hypothesis =>
    rw [List.pairwise_cons] at ordered
    by_cases passes : test first = true
    · rw [List.takeWhile_cons_of_pos passes, List.mem_cons, List.mem_cons, hypothesis ordered.2]
      constructor
      · rintro (rfl | ⟨member, still⟩)
        · exact ⟨.inl rfl, passes⟩
        · exact ⟨.inr member, still⟩
      · rintro ⟨rfl | member, still⟩
        · exact .inl rfl
        · exact .inr ⟨member, still⟩
    · rw [List.takeWhile_cons_of_neg passes]
      constructor
      · exact fun member => absurd member List.not_mem_nil
      · rintro ⟨member, still⟩
        rcases List.mem_cons.mp member with rfl | behind
        · exact absurd still passes
        · exact absurd (ordered.1 element behind still) passes

/-- What such a loop leaves of a sorted table has distinct keys. -/
theorem nodup_dropWhile_insertionSort {K : Type} {field : A → K} {precedes : A → A → Prop}
    [DecidableRel precedes] {test : A → Bool} {items : List A} (distinct : (items.map field).Nodup) :
    (((items.insertionSort precedes).dropWhile test).map field).Nodup := by
  have sorted := (List.perm_insertionSort precedes items).map field
  exact (sorted.nodup_iff.mpr distinct).sublist ((List.dropWhile_sublist test).map field)

/-- The elements at two places exchanged. -/
def exchange (first second : Nat) (items : List A) : List A :=
  match items[first]?, items[second]? with
  | some one, some two => (items.set first two).set second one
  | _, _ => items

theorem exchange_perm (first second : Nat) (items : List A) :
    (exchange first second items).Perm items := by
  unfold exchange
  split
  · rename_i one two atFirst atSecond
    obtain ⟨firstInside, rfl⟩ := List.getElem?_eq_some_iff.mp atFirst
    obtain ⟨secondInside, rfl⟩ := List.getElem?_eq_some_iff.mp atSecond
    exact List.set_set_perm firstInside secondInside
  · exact List.Perm.refl _

theorem exchange_append {first second : Nat} {front : List A} (back : List A)
    (firstInside : first < front.length) (secondInside : second < front.length) :
    exchange first second (front ++ back) = exchange first second front ++ back := by
  unfold exchange
  rw [List.getElem?_append_left firstInside, List.getElem?_append_left secondInside,
    List.getElem?_eq_getElem firstInside, List.getElem?_eq_getElem secondInside]
  dsimp only
  rw [List.set_append_left _ _ firstInside, List.set_append_left _ _ (by simpa using secondInside)]

/-- Exchanges within the front of a list permute the front. -/
theorem foldl_exchange_append {places : List (Nat × Nat)} {front : List A} (back : List A)
    (inside : ∀ place ∈ places, place.1 < front.length ∧ place.2 < front.length) :
    ∃ shuffled, shuffled.Perm front ∧
      places.foldl (fun items place => exchange place.1 place.2 items) (front ++ back) =
        shuffled ++ back := by
  induction places generalizing front with
  | nil => exact ⟨front, List.Perm.refl _, rfl⟩
  | cons place rest inductionHypothesis =>
    obtain ⟨firstInside, secondInside⟩ := inside place List.mem_cons_self
    have exchanged := exchange_perm place.1 place.2 front
    have still : ∀ other ∈ rest, other.1 < (exchange place.1 place.2 front).length ∧
        other.2 < (exchange place.1 place.2 front).length := by
      intro other member
      rw [exchanged.length_eq]
      exact inside other (List.mem_cons_of_mem _ member)
    obtain ⟨shuffled, permuted, result⟩ := inductionHypothesis still
    refine ⟨shuffled, permuted.trans exchanged, ?_⟩
    rw [List.foldl_cons, exchange_append back firstInside secondInside, result]

end DeipChain.Selection
