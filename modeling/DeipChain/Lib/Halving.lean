import Mathlib.Data.Nat.Log
import Mathlib.Tactic.Common

/-!
# Climbing by halves

A climb goes from one height to the next by half of what is left below the top. Its heights
lie the closer together the closer they are to the top, so that a list of logarithmic length
has a height not far below each place that is not far from the top.
-/
namespace DeipChain.Halving

/-- The height after a height. -/
def next (top low : Nat) : Nat := low + (top - low + 2) / 2

/-- The heights from one on, as long as they do not exceed a bound. -/
def climbFrom (top high : Nat) : Nat → Nat → List Nat
  | 0, low => [low]
  | fuel + 1, low =>
    low :: if next top low ≤ high then climbFrom top high fuel (next top low) else []

/-- The climb from a height, which itself is not compared with the bound. Every step rises, so
the distance to the bound counts enough steps. -/
def climb (top high low : Nat) : List Nat := climbFrom top high (high - low) low

variable {top high low height : Nat}

theorem lt_next : low < next top low := by
  unfold next
  omega

theorem next_le (below : low < top) : next top low ≤ top := by
  unfold next
  omega

/-- What is left is halved. -/
theorem rest_next (below : low < top) : top - next top low + 1 = (top - low + 1) / 2 := by
  unfold next
  omega

theorem climbFrom_eq {fuel : Nat} (enough : high - low ≤ fuel) :
    climbFrom top high fuel low = climb top high low := by
  have steady : ∀ fuel more low, high - low ≤ fuel → high - low ≤ more →
      climbFrom top high fuel low = climbFrom top high more low := by
    intro fuel
    induction fuel with
    | zero =>
      intro more low empty _
      have past : ¬ next top low ≤ high := by
        have rises := @lt_next top low
        omega
      cases more with
      | zero => rfl
      | succ more => rw [climbFrom, climbFrom, if_neg past]
    | succ fuel hypothesis =>
      intro more low within withinMore
      have rises := @lt_next top low
      cases more with
      | zero =>
        have past : ¬ next top low ≤ high := by omega
        rw [climbFrom, climbFrom, if_neg past]
      | succ more =>
        rw [climbFrom, climbFrom, hypothesis more (next top low) (by omega) (by omega)]
  exact steady fuel (high - low) low enough (Nat.le_refl _)

theorem climb_eq (top high low : Nat) :
    climb top high low =
      low :: if next top low ≤ high then climb top high (next top low) else [] := by
  have rises := @lt_next top low
  rw [← climbFrom_eq (Nat.le_succ (high - low)), climbFrom]
  split
  · rw [climbFrom_eq (by omega)]
  · rfl

/-- A climb is taken apart from below. -/
theorem climb_induction {motive : Nat → Prop} (top high low : Nat)
    (step : ∀ low, (next top low ≤ high → motive (next top low)) → motive low) : motive low := by
  induction rest : high - low using Nat.strong_induction_on generalizing low with
  | _ rest hypothesis =>
    have rises := @lt_next top low
    exact step low (fun within => hypothesis (high - next top low) (by omega) _ rfl)

theorem mem_climb (member : height ∈ climb top high low) :
    low ≤ height ∧ (height = low ∨ height ≤ high) := by
  induction low using climb_induction top high with
  | step low hypothesis =>
    have rises := @lt_next top low
    rw [climb_eq, List.mem_cons] at member
    rcases member with rfl | later
    · exact ⟨Nat.le_refl _, .inl rfl⟩
    · split at later
      · rename_i within
        have bounds := hypothesis within later
        omega
      · cases later

theorem climb_bounds (within : low ≤ high) (member : height ∈ climb top high low) :
    low ≤ height ∧ height ≤ high := by
  have bounds := mem_climb member
  omega

/-- A climb rises. -/
theorem climb_rises (top high low : Nat) : (climb top high low).Pairwise (· < ·) := by
  induction low using climb_induction top high with
  | step low hypothesis =>
    have rises := @lt_next top low
    rw [climb_eq]
    refine List.pairwise_cons.mpr ⟨fun height later => ?_, ?_⟩
    · split at later
      · exact Nat.lt_of_lt_of_le rises (mem_climb later).1
      · cases later
    · split
      · rename_i within
        exact hypothesis within
      · exact List.Pairwise.nil

/-- The number of heights on the way to the top. -/
theorem climb_length (within : low ≤ top) :
    (climb top top low).length = Nat.log 2 (top - low + 1) + 1 := by
  induction low using climb_induction top top with
  | step low hypothesis =>
    rw [climb_eq, List.length_cons]
    rcases Nat.lt_or_eq_of_le within with below | rfl
    · have further := next_le below
      have rest : 2 ≤ top - low + 1 := by omega
      rw [if_pos further, hypothesis further further, rest_next below,
        Nat.log_of_one_lt_of_le Nat.one_lt_two rest]
    · rw [if_neg (Nat.not_le.mpr lt_next), Nat.sub_self, List.length_nil, Nat.log_one_right]

/-- Below a place there is a height that is no further away than the top. -/
theorem climb_near {place : Nat} (above : low ≤ place) (within : place ≤ top) :
    ∃ height ∈ climb top top low, height ≤ place ∧ place - height ≤ top - place := by
  induction low using climb_induction top top with
  | step low hypothesis =>
    by_cases reached : next top low ≤ place
    · have further : next top low ≤ top := Nat.le_trans reached within
      obtain ⟨height, member, near⟩ := hypothesis further reached
      refine ⟨height, ?_, near⟩
      rw [climb_eq, if_pos further]
      exact List.mem_cons_of_mem _ member
    · refine ⟨low, by rw [climb_eq]; exact List.mem_cons_self, above, ?_⟩
      unfold next at reached
      omega

/-- A climb to a bound is the first part of the climb to the top. -/
theorem climb_split (within : low ≤ high) (below : high ≤ top) :
    climb top high low ++ (climb top top low).filter (fun height => high < height) =
      climb top top low := by
  induction low using climb_induction top high with
  | step low hypothesis =>
    rw [climb_eq top top low, climb_eq top high low, List.filter_cons_of_neg (by simpa using within),
      List.cons_append]
    by_cases further : next top low ≤ high
    · rw [if_pos further, if_pos (Nat.le_trans further below), hypothesis further further]
    · -- whatever comes next is above the bound
      rw [if_neg further, List.nil_append, List.filter_eq_self.mpr]
      intro height later
      split at later
      · have bound := (mem_climb later).1
        simp only [decide_eq_true_eq]
        omega
      · cases later

/-- Of a climb that starts above a bound, all heights are above it. -/
theorem climb_above (above : high < low) :
    (climb top top low).filter (fun height => high < height) = climb top top low := by
  refine List.filter_eq_self.mpr (fun height member => ?_)
  have bound := (mem_climb member).1
  simp only [decide_eq_true_eq]
  omega

example : climb 26 26 1 = [1, 14, 21, 24, 26] := by decide

end DeipChain.Halving
