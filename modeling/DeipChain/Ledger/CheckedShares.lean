import DeipChain.Ledger.LicenseFees

/-!
# Shares in checked integers

The overloads of `calculate_share` multiply before they divide, both in the checked integer of
`share_type`. The product of an amount and a weight that are each within the largest supply need
not be in range, and then the function throws. Where it is, the share is the quotient without its
fraction.
-/
namespace DeipChain.Ledger

open DeipChain.Result

/-! ## The overloads -/

/-- The division of `share_type`. -/
def divide (first second : Int) : Except String Int := do
  require (second ≠ 0) "division by zero"
  require (¬ (first = -2 ^ 63 ∧ second = -1)) "overflow"
  return first.tdiv second

namespace Checked

/-- `calculate_share(const share_type&, const share_type&)`. -/
def percentShare (amount sharePercent : Int) : Except String Int := do
  let product ← multiply amount sharePercent
  divide product fullPercent

/-- `calculate_share(const share_type&, const share_type&, const share_type&)`. -/
def weightedShare (amount weight totalWeight : Int) : Except String Int := do
  require (totalWeight ≠ 0) "Dividing by zero is restricted"
  let product ← multiply amount weight
  divide product totalWeight

/-- `calculate_share(const share_type&, const percent&)`. -/
def preciseShare (amount : Int) (share : Percent) : Except String Int := do
  require (share.decimals < 15) "decimals < 15"
  let fullShare : Int := 100 * 10 ^ share.decimals
  require (fullShare ≠ 0) "Dividing by zero is restricted"
  let product ← multiply amount share.amount
  divide product fullShare

/-- The overloads for assets keep the symbol. -/
def ofAsset (share : Int → Except String Int) (amount : Asset) : Except String Asset := do
  let value ← share amount.amount
  return ⟨value, amount.symbol⟩

def percentShareOf (amount : Asset) (sharePercent : Int) : Except String Asset :=
  ofAsset (percentShare · sharePercent) amount

def weightedShareOf (amount : Asset) (weight totalWeight : Int) : Except String Asset :=
  ofAsset (weightedShare · weight totalWeight) amount

def preciseShareOf (amount : Asset) (share : Percent) : Except String Asset :=
  ofAsset (preciseShare · share) amount

/-! ## What they compute -/

theorem multiply_ok_iff {first second product : Int} :
    multiply first second = .ok product ↔ FitsShareType first second ∧ product = first * second := by
  simp only [multiply, bind_ok_iff, require_ok_iff, pure_ok_iff]
  constructor
  · rintro ⟨_, fits, rfl⟩
    exact ⟨fits, rfl⟩
  · rintro ⟨fits, rfl⟩
    exact ⟨⟨⟩, fits, rfl⟩

/-- A product of non-negative numbers over a positive one is cut off to its floor, if it fits. -/
theorem divided_ok_iff {amount weight total share : Int} (nonneg : 0 ≤ amount * weight)
    (positive : 0 < total) :
    (do divide (← multiply amount weight) total) = .ok share ↔
      FitsShareType amount weight ∧ share = amount * weight / total := by
  simp only [bind_ok_iff, multiply_ok_iff, divide, require_ok_iff, pure_ok_iff]
  constructor
  · rintro ⟨_, ⟨fits, rfl⟩, _, _, _, _, rfl⟩
    exact ⟨fits, Int.tdiv_eq_ediv_of_nonneg nonneg⟩
  · rintro ⟨fits, rfl⟩
    exact ⟨_, ⟨fits, rfl⟩, ⟨⟩, by omega, ⟨⟩, by omega, Int.tdiv_eq_ediv_of_nonneg nonneg⟩

theorem ofAsset_ok_iff {share : Int → Except String Int} {amount : Asset} {value : Int} :
    ofAsset share amount = .ok ⟨value, amount.symbol⟩ ↔ share amount.amount = .ok value := by
  simp only [ofAsset, bind_ok_iff, pure_ok_iff, Asset.mk.injEq, and_true, exists_eq_right]

/-- What an overload returns is what the model of unbounded integers computes. -/
theorem weightedShare_refines {amount weight total share : Int}
    (computed : weightedShare amount weight total = .ok share) :
    Ledger.weightedShare amount weight total = .ok share := by
  simp only [weightedShare, bind_ok_iff, require_ok_iff, multiply_ok_iff, divide, pure_ok_iff]
    at computed
  obtain ⟨_, nonzero, _, ⟨_, rfl⟩, _, _, _, _, rfl⟩ := computed
  rw [Ledger.weightedShare, require, if_pos nonzero]
  rfl

/-! ## Within the largest supply -/

/-- An amount that an asset may have in circulation. -/
structure InSupply (amount : Int) : Prop where
  nonneg : 0 ≤ amount
  bounded : amount ≤ maxShareSupply

/-- A weight of a positive total within the largest supply. -/
structure Weighs (weight totalWeight : Int) : Prop where
  nonneg : 0 ≤ weight
  part : weight ≤ totalWeight
  bounded : totalWeight ≤ maxShareSupply
  positive : 0 < totalWeight

/-- A percentage from nothing to everything with an allowed precision. -/
structure Portion (share : Percent) : Prop where
  nonneg : 0 ≤ share.amount
  part : share.amount ≤ 100 * 10 ^ share.decimals
  few : share.decimals < 15

theorem weightedShare_ok_iff {amount weight totalWeight share : Int} (within : InSupply amount)
    (weighs : Weighs weight totalWeight) :
    weightedShare amount weight totalWeight = .ok share ↔
      FitsShareType amount weight ∧ share = amount * weight / totalWeight := by
  have nonneg := Int.mul_nonneg within.nonneg weighs.nonneg
  have positive := weighs.positive
  rw [← divided_ok_iff nonneg positive, weightedShare, require, if_pos (by omega)]
  rfl

theorem percentShare_ok_iff {amount sharePercent share : Int} (within : InSupply amount)
    (some_percent : 0 ≤ sharePercent) :
    percentShare amount sharePercent = .ok share ↔
      FitsShareType amount sharePercent ∧ share = amount * sharePercent / fullPercent :=
  divided_ok_iff (Int.mul_nonneg within.nonneg some_percent) (by decide)

theorem preciseShare_ok_iff {amount share : Int} {percent : Percent} (within : InSupply amount)
    (portion : Portion percent) :
    preciseShare amount percent = .ok share ↔ FitsShareType amount percent.amount ∧
      share = amount * percent.amount / (100 * 10 ^ percent.decimals) := by
  have nonneg := Int.mul_nonneg within.nonneg portion.nonneg
  have positive : (0 : Int) < 100 * 10 ^ percent.decimals := by positivity
  rw [← divided_ok_iff nonneg positive]
  simp only [preciseShare, bind_ok_iff, require_ok_iff]
  constructor
  · rintro ⟨_, _, _, _, computed⟩
    exact computed
  · intro computed
    exact ⟨⟨⟩, portion.few, ⟨⟩, by omega, computed⟩

/-- The parts of a split are the floors of the shares. -/
theorem split_le {amount totalWeight : Int} {weights parts : List Int} (within : InSupply amount)
    (weighs : ∀ weight ∈ weights, Weighs weight totalWeight)
    (split : List.Forall₂ (fun weight part => weightedShare amount weight totalWeight = .ok part)
      weights parts) : totalWeight * parts.sum ≤ amount * weights.sum := by
  induction split with
  | nil => simp
  | cons computed _ hypothesis =>
    rw [List.forall_mem_cons] at weighs
    have positive := weighs.1.positive
    obtain ⟨_, rfl⟩ := (weightedShare_ok_iff within weighs.1).mp computed
    rw [List.sum_cons, List.sum_cons, Int.mul_add, Int.mul_add]
    exact Int.add_le_add (Int.mul_ediv_self_le (by omega)) (hypothesis weighs.2)

/-- Shares of a whole. -/
structure Weights (weights : List Int) : Prop where
  nonneg : ∀ weight ∈ weights, 0 ≤ weight
  bounded : weights.sum ≤ maxShareSupply
  positive : 0 < weights.sum

theorem Weights.weighs {weights : List Int} (shares : Weights weights) :
    ∀ weight ∈ weights, Weighs weight weights.sum := by
  intro weight member
  have part : weight ≤ Table.total id weights := Table.le_total shares.nonneg member
  rw [Table.total, List.map_id] at part
  exact ⟨shares.nonneg weight member, part, shares.bounded, shares.positive⟩

theorem split_runs_iff {amount : Int} {weights : List Int} (within : InSupply amount)
    (shares : Weights weights) :
    (∃ parts, weights.mapM (weightedShare amount · weights.sum) = .ok parts ∧ parts.sum ≤ amount) ↔
      ∀ weight ∈ weights, FitsShareType amount weight := by
  constructor
  · rintro ⟨parts, split, _⟩ weight member
    obtain ⟨part, computed⟩ := exists_of_mapM_ok split member
    exact ((weightedShare_ok_iff within (shares.weighs weight member)).mp computed).1
  · intro fits
    obtain ⟨parts, split⟩ := mapM_runs fun weight member =>
      ⟨_, (weightedShare_ok_iff within (shares.weighs weight member)).mpr ⟨fits weight member, rfl⟩⟩
    refine ⟨parts, split, ?_⟩
    have sums := split_le within shares.weighs (forall₂_of_mapM_ok split)
    rw [Int.mul_comm amount] at sums
    exact Int.le_of_mul_le_mul_left sums shares.positive

/-- Within the largest supply each overload returns the floor of the share exactly if the product
    fits the integer, and a split by weights runs through, with parts that do not exceed the
    amount, exactly if each product fits. -/
theorem share_floor_iff {amount : Int} (within : InSupply amount) :
    (∀ weight totalWeight : Int, Weighs weight totalWeight →
      (weightedShare amount weight totalWeight = .ok (amount * weight / totalWeight) ↔
        FitsShareType amount weight) ∧
      ∀ symbol, (weightedShareOf ⟨amount, symbol⟩ weight totalWeight =
        .ok ⟨amount * weight / totalWeight, symbol⟩ ↔ FitsShareType amount weight)) ∧
    (∀ sharePercent : Int, 0 ≤ sharePercent → sharePercent ≤ fullPercent →
      (percentShare amount sharePercent = .ok (amount * sharePercent / fullPercent) ↔
        FitsShareType amount sharePercent) ∧
      ∀ symbol, (percentShareOf ⟨amount, symbol⟩ sharePercent =
        .ok ⟨amount * sharePercent / fullPercent, symbol⟩ ↔ FitsShareType amount sharePercent)) ∧
    (∀ share : Percent, Portion share →
      (preciseShare amount share = .ok (amount * share.amount / (100 * 10 ^ share.decimals)) ↔
        FitsShareType amount share.amount) ∧
      ∀ symbol, (preciseShareOf ⟨amount, symbol⟩ share =
        .ok ⟨amount * share.amount / (100 * 10 ^ share.decimals), symbol⟩ ↔
        FitsShareType amount share.amount)) ∧
    ∀ weights : List Int, Weights weights →
      ((∃ parts, weights.mapM (weightedShare amount · weights.sum) = .ok parts ∧
        parts.sum ≤ amount) ↔ ∀ weight ∈ weights, FitsShareType amount weight) := by
  refine ⟨?_, ?_, ?_, fun weights => split_runs_iff within⟩
  · intro weight totalWeight weighs
    have share : weightedShare amount weight totalWeight = .ok (amount * weight / totalWeight) ↔
        FitsShareType amount weight := by
      rw [weightedShare_ok_iff within weighs, and_iff_left rfl]
    refine ⟨share, fun symbol => ?_⟩
    rw [← share]
    exact ofAsset_ok_iff
  · intro sharePercent some_percent _
    have share : percentShare amount sharePercent = .ok (amount * sharePercent / fullPercent) ↔
        FitsShareType amount sharePercent := by
      rw [percentShare_ok_iff within some_percent, and_iff_left rfl]
    refine ⟨share, fun symbol => ?_⟩
    rw [← share]
    exact ofAsset_ok_iff
  · intro percent portion
    have share : preciseShare amount percent =
        .ok (amount * percent.amount / (100 * 10 ^ percent.decimals)) ↔
        FitsShareType amount percent.amount := by
      rw [preciseShare_ok_iff within portion, and_iff_left rfl]
    refine ⟨share, fun symbol => ?_⟩
    rw [← share]
    exact ofAsset_ok_iff

end Checked

/-- A third of the largest supply by one of three equal weights. -/
theorem Sample.third_of_million :
    Checked.weightedShare 1000000 1 3 = .ok 333333 :=
  (((Checked.share_floor_iff ⟨by decide, by decide⟩).1 1 3
    ⟨by decide, by decide, by decide, by decide⟩).1).mpr (by decide)

/-- All of the largest supply is too much to multiply. -/
theorem Sample.supply_overflows :
    ¬ ∀ amount weight totalWeight : Int, Checked.InSupply amount → Checked.Weighs weight totalWeight →
      Checked.weightedShare amount weight totalWeight = .ok (amount * weight / totalWeight) := by
  intro floors
  have share := floors maxShareSupply maxShareSupply maxShareSupply ⟨by decide, by decide⟩
    ⟨by decide, by decide, by decide, by decide⟩
  exact absurd share (by decide)

end DeipChain.Ledger
