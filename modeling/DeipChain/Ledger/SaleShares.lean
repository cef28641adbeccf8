import DeipChain.Ledger.Blocks
import Mathlib.Algebra.Order.Round
import Mathlib.Data.Rat.Floor
import Mathlib.Tactic.FieldSimp
import Mathlib.Tactic.Ring

/-!
# The shares of a token sale

A finished sale pays each of its tokens to the contributors. The part of a contributor is
rounded to hundredths of a percent and what it buys is cut off to whole units. The last
contributor gets what is left, so that all of the token is paid, unless the rounded parts
come to more than there is: then the group cannot pay them and the block fails.

`free` and `locked` read the two sides of one balance.
-/
namespace DeipChain.Ledger

open DeipChain.Result DeipChain.Table

/-! ## Single balances -/

def free (balances : List Balance) (owner : Name) (symbol : AssetSymbol) : Int :=
  ((balances.find? (Balance.belongs owner symbol)).map Balance.amount).getD 0

def locked (balances : List Balance) (owner : Name) (symbol : AssetSymbol) : Int :=
  ((balances.find? (Balance.belongs owner symbol)).map Balance.frozenAmount).getD 0

/-- What an owner has of an asset. -/
def holding (balances : List Balance) (owner : Name) (symbol : AssetSymbol) : Int :=
  free balances owner symbol + locked balances owner symbol

/-- What a payment adds under the keys of one balance. -/
def entry (owner : Name) (symbol : AssetSymbol) (amount : Int) (other : Name)
    (asset : AssetSymbol) : Int :=
  if other = owner ∧ asset = symbol then amount else 0

section Balances

variable {assets : List AssetObject} {balances after : List Balance} {owner : Name}
variable {symbol : AssetSymbol} {balance : Balance}

theorem accountBalanceExists_iff : accountBalanceExists balances owner symbol = true ↔
    ∃ balance, balances.find? (Balance.belongs owner symbol) = some balance := by
  rw [← Option.isSome_iff_exists, List.find?_isSome, accountBalanceExists, List.any_eq_true]

/-- A change of one balance shows under its keys only. -/
theorem find?_modifyBalance {change : Balance → Balance} (other : Name) (asset : AssetSymbol)
    (found : balances.find? (Balance.belongs owner symbol) = some balance)
    (same : ∀ row, (change row).owner = row.owner ∧ (change row).symbol = row.symbol) :
    (modifyFirst (Balance.belongs owner symbol) change balances).find?
        (Balance.belongs other asset) =
      if other = owner ∧ asset = symbol then some (change balance)
      else balances.find? (Balance.belongs other asset) := by
  by_cases hit : other = owner ∧ asset = symbol
  · obtain ⟨rfl, rfl⟩ := hit
    have key := Balance.belongs_iff.mp (List.find?_some found)
    rw [if_pos ⟨rfl, rfl⟩]
    refine find?_modifyFirst found (Balance.belongs_iff.mpr ?_)
    rw [(same balance).1, (same balance).2]
    exact key
  · rw [if_neg hit]
    refine find?_modifyFirst_apart (fun row key => ?_) balances
    obtain ⟨rfl, rfl⟩ := Balance.belongs_iff.mp key
    have differs : ¬ (row.owner = other ∧ row.symbol = asset) :=
      fun both => hit ⟨both.1.symm, both.2.symm⟩
    constructor
    · rw [← Bool.not_eq_true, Balance.belongs_iff]
      exact differs
    · rw [← Bool.not_eq_true, Balance.belongs_iff, (same row).1, (same row).2]
      exact differs

/-- A debit is covered, and a payment changes one balance on its free side. -/
theorem adjustAccountBalance_free {delta : Asset}
    (adjusted : adjustAccountBalance assets balances owner delta = .ok after) :
    (delta.amount < 0 → -delta.amount ≤ free balances owner delta.symbol) ∧
      ∀ other asset, free after other asset =
          free balances other asset + entry owner delta.symbol delta.amount other asset ∧
        locked after other asset = locked balances other asset := by
  simp only [adjustAccountBalance, getAccountBalance, bind_ok_iff, require_ok_iff, expect_ok_iff,
    pure_ok_iff] at adjusted
  obtain ⟨middle, ensured, balance, found, _, funded, rfl⟩ := adjusted
  -- a balance that is created is empty
  have begun : ∀ other asset, free middle other asset = free balances other asset ∧
      locked middle other asset = locked balances other asset := by
    rw [ensureAccountBalance] at ensured
    split at ensured
    · obtain rfl := pure_ok_iff.mp ensured
      exact fun _ _ => ⟨rfl, rfl⟩
    · simp only [createAccountBalance, bind_ok_iff, require_ok_iff, pure_ok_iff] at ensured
      obtain ⟨_, _, _, _, rfl⟩ := ensured
      intro other asset
      simp only [free, locked, List.find?_append]
      cases balances.find? (Balance.belongs other asset) with
      | some row => exact ⟨rfl, rfl⟩
      | none =>
        rw [List.find?_singleton]
        split <;> exact ⟨rfl, rfl⟩
  have own : free middle owner delta.symbol = balance.amount := by rw [free, found]; rfl
  refine ⟨fun debit => ?_, fun other asset => ?_⟩
  · rw [← (begun owner delta.symbol).1, own]
    exact funded debit
  · rw [← (begun other asset).1, ← (begun other asset).2, entry]
    rw [free, locked, find?_modifyBalance other asset found (by exact fun _ => ⟨rfl, rfl⟩)]
    by_cases hit : other = owner ∧ asset = delta.symbol
    · obtain ⟨rfl, rfl⟩ := hit
      simp [free, locked, found]
    · simp [free, locked, hit]

/-- A payment of a known asset goes through if it is covered. -/
theorem adjustAccountBalance_succeeds {delta : Asset}
    (listed : (assets.any fun asset => asset.symbol == delta.symbol) = true)
    (covered : delta.amount < 0 → -delta.amount ≤ free balances owner delta.symbol) :
    ∃ after, adjustAccountBalance assets balances owner delta = .ok after := by
  simp only [adjustAccountBalance, getAccountBalance, bind_ok_iff, require_ok_iff, expect_ok_iff,
    pure_ok_iff]
  by_cases known : accountBalanceExists balances owner delta.symbol = true
  · obtain ⟨balance, found⟩ := accountBalanceExists_iff.mp known
    refine ⟨_, balances, ?_, balance, found, (), ?_, rfl⟩
    · rw [ensureAccountBalance, if_pos known]
      rfl
    · rwa [free, found] at covered
  · have absent : balances.find? (Balance.belongs owner delta.symbol) = none := by
      rw [List.find?_eq_none]
      simpa [accountBalanceExists] using known
    refine ⟨_, balances ++ [⟨owner, delta.symbol, 0, 0⟩], ?_, ⟨owner, delta.symbol, 0, 0⟩, ?_, (), ?_,
      rfl⟩
    · rw [ensureAccountBalance, if_neg known, createAccountBalance]
      have fresh : balances.any (Balance.belongs owner delta.symbol) = false :=
        Bool.not_eq_true _ ▸ known
      simp only [require, listed, fresh, if_true]
      rfl
    · simp [List.find?_append, absent, Balance.belongs]
    · rwa [free, absent] at covered

/-- What is unfrozen goes from one side of a balance to the other. -/
theorem unfreezeAccountBalance_free {amount : Asset}
    (unfroze : unfreezeAccountBalance balances owner amount = .ok after) (other : Name)
    (asset : AssetSymbol) :
    free after other asset =
        free balances other asset + entry owner amount.symbol amount.amount other asset ∧
      locked after other asset =
        locked balances other asset - entry owner amount.symbol amount.amount other asset := by
  simp only [unfreezeAccountBalance, getAccountBalance, bind_ok_iff, require_ok_iff, expect_ok_iff,
    pure_ok_iff] at unfroze
  obtain ⟨balance, found, _, _, rfl⟩ := unfroze
  rw [free, locked, find?_modifyBalance other asset found (by exact fun _ => ⟨rfl, rfl⟩), entry]
  by_cases hit : other = owner ∧ asset = amount.symbol
  · obtain ⟨rfl, rfl⟩ := hit
    simp [free, locked, found]
  · simp [free, locked, hit]

theorem unfreezeAccountBalance_succeeds {amount : Asset} (positive : 0 < amount.amount)
    (covered : amount.amount ≤ locked balances owner amount.symbol) :
    ∃ after, unfreezeAccountBalance balances owner amount = .ok after := by
  simp only [unfreezeAccountBalance, getAccountBalance, bind_ok_iff, require_ok_iff, expect_ok_iff,
    pure_ok_iff]
  cases found : balances.find? (Balance.belongs owner amount.symbol) with
  | none =>
    rw [locked, found] at covered
    exact absurd covered (Int.not_le.mpr positive)
  | some balance =>
    rw [locked, found] at covered
    exact ⟨_, balance, rfl, (), covered, rfl⟩

/-- What a list of tokens has of an asset. -/
def offered (tokens : List Asset) (symbol : AssetSymbol) : Int :=
  total (fun token => token.under symbol) tokens

theorem offered_cons (token : Asset) (tokens : List Asset) (symbol : AssetSymbol) :
    offered (token :: tokens) symbol = token.under symbol + offered tokens symbol :=
  total_cons _ _ _

/-- Tokens that are unfrozen become free. -/
theorem unfreezeTokens_free {tokens : List Asset} {group : Name}
    (unfroze : unfreezeTokens balances group tokens = .ok after) (other : Name)
    (asset : AssetSymbol) :
    free after other asset =
        free balances other asset + (if other = group then offered tokens asset else 0) ∧
      locked after other asset =
        locked balances other asset - (if other = group then offered tokens asset else 0) := by
  rw [unfreezeTokens] at unfroze
  induction tokens generalizing balances with
  | nil =>
    obtain rfl := pure_ok_iff.mp unfroze
    simp [offered]
  | cons token rest hypothesis =>
    rw [List.foldlM_cons, bind_ok_iff] at unfroze
    obtain ⟨middle, first, others⟩ := unfroze
    have step := unfreezeAccountBalance_free first other asset
    have later := hypothesis others
    rw [later.1, later.2, step.1, step.2, offered_cons, entry, Asset.under]
    by_cases own : other = group
    · by_cases same : asset = token.symbol
      · simp only [own, same, and_self, if_true]
        omega
      · simp only [own, same, Ne.symm same, and_false, if_true, if_false]
        omega
    · simp [own]

theorem offered_nonneg {tokens : List Asset} (positive : ∀ token ∈ tokens, 0 < token.amount)
    (symbol : AssetSymbol) : 0 ≤ offered tokens symbol := by
  refine total_nonneg fun token member => ?_
  rw [Asset.under]
  split
  · exact (positive token member).le
  · exact Int.le_refl 0

theorem unfreezeTokens_succeeds {tokens : List Asset} {group : Name}
    (positive : ∀ token ∈ tokens, 0 < token.amount)
    (covered : ∀ symbol, offered tokens symbol ≤ locked balances group symbol) :
    ∃ after, unfreezeTokens balances group tokens = .ok after := by
  rw [unfreezeTokens]
  induction tokens generalizing balances with
  | nil => exact ⟨balances, rfl⟩
  | cons token rest hypothesis =>
    rw [List.forall_mem_cons] at positive
    have own := covered token.symbol
    rw [offered_cons, Asset.under, if_pos rfl] at own
    have others := offered_nonneg positive.2 token.symbol
    have enough : token.amount ≤ locked balances group token.symbol := by omega
    obtain ⟨middle, first⟩ := unfreezeAccountBalance_succeeds positive.1 enough
    have remains : ∀ symbol, offered rest symbol ≤ locked middle group symbol := by
      intro symbol
      have before := covered symbol
      rw [offered_cons, Asset.under] at before
      rw [(unfreezeAccountBalance_free first group symbol).2, entry]
      by_cases same : token.symbol = symbol
      · simp only [same, and_self, if_true] at before ⊢
        omega
      · simp only [same, Ne.symm same, and_false, if_false] at before ⊢
        omega
    obtain ⟨after, remaining⟩ := hypothesis positive.2 remains
    refine ⟨after, ?_⟩
    rw [List.foldlM_cons, first]
    exact remaining

end Balances

/-! ## Shares -/

/-- The part of the funds that a contribution is, rounded to hundredths of a percent. -/
def basisPoints (contribution totalAmount : Int) : Int :=
  (20000 * contribution + totalAmount) / (2 * totalAmount)

/-- The rounding is exact. -/
theorem basisPoints_eq_round {contribution totalAmount : Int} (positive : 0 < totalAmount) :
    basisPoints contribution totalAmount =
      round ((contribution : ℚ) / totalAmount * 100 * 100) := by
  have whole : (0 : ℚ) < totalAmount := by exact_mod_cast positive
  have same : (contribution : ℚ) / totalAmount * 100 * 100 + 1 / 2 =
      (20000 * contribution + totalAmount) / (2 * totalAmount) := by
    field_simp
    ring
  rw [round_eq, same, basisPoints, eq_comm, Int.floor_eq_iff]
  constructor
  · rw [le_div_iff₀ (by positivity)]
    exact_mod_cast Int.ediv_mul_le _ (by omega)
  · rw [div_lt_iff₀ (by positivity)]
    exact_mod_cast Int.lt_ediv_add_one_mul_self _ (by omega)

/-- What a contribution buys of a token. -/
def share (totalAmount token : Asset) (contribution : Contribution) : Int :=
  preciseShare token.amount ⟨basisPoints contribution.amount.amount totalAmount.amount, 2⟩

theorem share_nonneg {totalAmount token : Asset} {contribution : Contribution}
    (funded : 0 < totalAmount.amount) (offers : 0 < token.amount)
    (given : 0 < contribution.amount.amount) : 0 ≤ share totalAmount token contribution := by
  have points : 0 ≤ basisPoints contribution.amount.amount totalAmount.amount :=
    Int.ediv_nonneg (by omega) (by omega)
  have whole : (0 : Int) ≤ 100 * 10 ^ 2 := by decide
  exact Int.tdiv_nonneg (Int.mul_nonneg offers.le points) whole

/-! ## The payment of one token -/

section Token

variable {assets : List AssetObject} {group : Name} {totalAmount token : Asset}
variable {contributions : List Contribution} {contribution : Contribution}
variable {progress next : List Balance × Int} {balances after : List Balance}

/-- What an owner is paid of a token, by the shares of the contributions. -/
def shareOf (totalAmount token : Asset) (contributions : List Contribution) (owner : Name) : Int :=
  total (fun contribution =>
    if contribution.owner = owner then share totalAmount token contribution else 0) contributions

/-- What the loop over the contributions moves: shares from the group to the owners. -/
def moved (group : Name) (totalAmount token : Asset) (contributions : List Contribution)
    (owner : Name) (symbol : AssetSymbol) : Int :=
  if symbol = token.symbol then
    shareOf totalAmount token contributions owner -
      (if owner = group then total (share totalAmount token) contributions else 0)
  else 0

theorem payContributor_free
    (paid : payContributor basisPoints assets group totalAmount token progress contribution =
      .ok next) :
    next.2 = progress.2 + share totalAmount token contribution ∧
      (0 < share totalAmount token contribution →
        share totalAmount token contribution ≤ free progress.1 group token.symbol) ∧
      ∀ owner symbol, free next.1 owner symbol = free progress.1 owner symbol +
          moved group totalAmount token [contribution] owner symbol ∧
        locked next.1 owner symbol = locked progress.1 owner symbol := by
  simp only [payContributor, bind_ok_iff, pure_ok_iff] at paid
  obtain ⟨_, _, debited, first, credited, second, rfl⟩ := paid
  obtain ⟨funded, debits⟩ := adjustAccountBalance_free first
  obtain ⟨_, credits⟩ := adjustAccountBalance_free second
  refine ⟨rfl, fun positive => ?_, fun owner symbol => ?_⟩
  · have covered := funded (Int.neg_neg_of_pos positive)
    rw [Asset.neg, Int.neg_neg] at covered
    exact covered
  · rw [(credits owner symbol).1, (debits owner symbol).1, (credits owner symbol).2,
      (debits owner symbol).2]
    refine ⟨?_, rfl⟩
    simp only [entry, moved, shareOf, share, Asset.neg, total_cons, total_nil, add_zero]
    by_cases same : symbol = token.symbol
    · by_cases own : owner = contribution.owner
      · subst own
        by_cases also : contribution.owner = group
        · simp [same, also]
        · simp [same, also]
      · by_cases also : owner = group
        · subst also
          simp only [same, own, Ne.symm own, and_self, and_true, if_true, if_false]
          omega
        · simp only [same, own, Ne.symm own, also, and_true, if_true, if_false]
          omega
    · simp [same]

theorem moved_cons (contribution : Contribution) (rest : List Contribution) (owner : Name)
    (symbol : AssetSymbol) :
    moved group totalAmount token (contribution :: rest) owner symbol =
      moved group totalAmount token [contribution] owner symbol +
        moved group totalAmount token rest owner symbol := by
  simp only [moved, shareOf, total_cons, total_nil, add_zero]
  by_cases same : symbol = token.symbol
  · by_cases own : owner = group
    · simp only [same, own, if_true]
      omega
    · simp only [same, own, if_true, if_false]
      omega
  · simp only [same, if_false, add_zero]

/-- What the contributions are paid comes from the group. -/
theorem payContributors_free
    (paid : contributions.foldlM (payContributor basisPoints assets group totalAmount token)
      progress = .ok next) :
    next.2 = progress.2 + total (share totalAmount token) contributions ∧
      ∀ owner symbol, free next.1 owner symbol = free progress.1 owner symbol +
          moved group totalAmount token contributions owner symbol ∧
        locked next.1 owner symbol = locked progress.1 owner symbol := by
  induction contributions generalizing progress with
  | nil =>
    obtain rfl := pure_ok_iff.mp paid
    simp [moved, shareOf]
  | cons contribution rest hypothesis =>
    rw [List.foldlM_cons, bind_ok_iff] at paid
    obtain ⟨middle, first, others⟩ := paid
    obtain ⟨sum, _, step⟩ := payContributor_free first
    obtain ⟨sums, later⟩ := hypothesis others
    refine ⟨by rw [sums, sum, total_cons, add_assoc], fun owner symbol => ?_⟩
    rw [(later owner symbol).1, (later owner symbol).2, (step owner symbol).1,
      (step owner symbol).2, moved_cons contribution rest, add_assoc]
    exact ⟨rfl, rfl⟩

/-- What a group that is not among the contributors pays. -/
theorem moved_group (foreign : ∀ contribution ∈ contributions, contribution.owner ≠ group) :
    moved group totalAmount token contributions group token.symbol =
      -total (share totalAmount token) contributions := by
  have none : shareOf totalAmount token contributions group = 0 :=
    total_eq_zero fun contribution member => if_neg (foreign contribution member)
  rw [moved, if_pos rfl, if_pos rfl, none, zero_sub]

/-- The group can pay the shares exactly if they are not more than it has. -/
theorem payContributors_ok_iff
    (listed : (assets.any fun asset => asset.symbol == token.symbol) = true)
    (foreign : ∀ contribution ∈ contributions, contribution.owner ≠ group)
    (positive : ∀ contribution ∈ contributions, 0 ≤ share totalAmount token contribution)
    (solvent : 0 ≤ free progress.1 group token.symbol) :
    (∃ next, contributions.foldlM (payContributor basisPoints assets group totalAmount token)
        progress = .ok next) ↔
      total (share totalAmount token) contributions ≤ free progress.1 group token.symbol := by
  induction contributions generalizing progress with
  | nil => exact iff_of_true ⟨progress, rfl⟩ solvent
  | cons contribution rest hypothesis =>
    rw [List.forall_mem_cons] at foreign positive
    have others := total_nonneg positive.2
    have lone : ∀ other ∈ [contribution], other.owner ≠ group := by
      simpa using foreign.1
    rw [total_cons]
    constructor
    · rintro ⟨next, paid⟩
      rw [List.foldlM_cons, bind_ok_iff] at paid
      obtain ⟨middle, first, remaining⟩ := paid
      obtain ⟨_, covered, step⟩ := payContributor_free first
      have left := (step group token.symbol).1
      rw [moved_group lone, total_cons, total_nil] at left
      have enough : 0 ≤ free middle.1 group token.symbol := by
        by_cases some : 0 < share totalAmount token contribution
        · have := covered some
          omega
        · omega
      have bounded := (hypothesis foreign.2 positive.2 enough).mp ⟨next, remaining⟩
      omega
    · intro bounded
      obtain ⟨asset, known⟩ : ∃ asset, getAssetBySymbol assets token.symbol = .ok asset := by
        obtain ⟨asset, found⟩ := Option.isSome_iff_exists.mp
          (List.find?_isSome.trans List.any_eq_true.symm |>.mpr listed)
        exact ⟨asset, expect_ok_iff.mpr found⟩
      have own := positive.1
      obtain ⟨debited, first⟩ : ∃ debited, adjustAccountBalance assets progress.1 group
          (⟨share totalAmount token contribution, token.symbol⟩ : Asset).neg = .ok debited := by
        refine adjustAccountBalance_succeeds listed fun _ => ?_
        simp only [Asset.neg]
        omega
      obtain ⟨credited, second⟩ : ∃ credited, adjustAccountBalance assets debited contribution.owner
          ⟨share totalAmount token contribution, token.symbol⟩ = .ok credited :=
        adjustAccountBalance_succeeds listed fun debit => absurd debit (Int.not_lt.mpr own)
      have paid : payContributor basisPoints assets group totalAmount token progress contribution =
          .ok (credited, progress.2 + share totalAmount token contribution) := by
        simp only [payContributor, known, bind, Except.bind]
        simp only [share] at first second ⊢
        simp only [first, second, pure, Except.pure]
      have left := ((payContributor_free paid).2.2 group token.symbol).1
      rw [moved_group lone, total_cons, total_nil] at left
      obtain ⟨next, remaining⟩ := (hypothesis foreign.2 positive.2 (by omega)).mpr
        (by omega : _ ≤ free (credited, progress.2 + share totalAmount token contribution).1 _ _)
      refine ⟨next, ?_⟩
      rw [List.foldlM_cons, paid]
      exact remaining

/-- What an owner is paid of a token in all. The last contributor gets what the shares leave. -/
def received (totalAmount token : Asset) (contributions : List Contribution)
    (last : Contribution) (owner : Name) : Int :=
  shareOf totalAmount token contributions owner +
    (if last.owner = owner then
      token.amount - total (share totalAmount token) contributions else 0)

/-- What the payment of a token moves. -/
def settled (group : Name) (totalAmount token : Asset) (contributions : List Contribution)
    (last : Contribution) (owner : Name) (symbol : AssetSymbol) : Int :=
  if symbol = token.symbol then
    received totalAmount token contributions last owner -
      (if owner = group then token.amount else 0)
  else 0

variable {last : Contribution}

theorem distributeToken_free (ends : contributions.getLast? = some last)
    (paid : distributeToken basisPoints assets group totalAmount contributions balances token =
      .ok after) (owner : Name) (symbol : AssetSymbol) :
    free after owner symbol = free balances owner symbol +
        settled group totalAmount token contributions last owner symbol ∧
      locked after owner symbol = locked balances owner symbol := by
  simp only [distributeToken, ends, bind_ok_iff] at paid
  obtain ⟨⟨middle, distributed⟩, ran, paid⟩ := paid
  obtain ⟨sum, moves⟩ := payContributors_free ran
  rw [zero_add] at sum
  dsimp only at sum paid moves
  subst sum
  split at paid
  · obtain ⟨credited, first, second⟩ := bind_ok_iff.mp paid
    have credits := (adjustAccountBalance_free first).2 owner symbol
    have debits := (adjustAccountBalance_free second).2 owner symbol
    rw [debits.1, debits.2, credits.1, credits.2, (moves owner symbol).1, (moves owner symbol).2]
    refine ⟨?_, rfl⟩
    simp only [entry, moved, settled, received, Asset.neg]
    by_cases same : symbol = token.symbol
    · by_cases own : owner = group
      · subst own
        by_cases ended : last.owner = owner
        · simp only [same, ended, and_self, if_true]
          omega
        · simp only [same, ended, Ne.symm ended, and_true, if_true, if_false]
          omega
      · by_cases ended : last.owner = owner
        · simp only [same, own, ended, and_true, if_true, if_false]
          omega
        · simp only [same, own, ended, Ne.symm ended, and_true, if_true, if_false]
          omega
    · simp only [same, and_false, if_false, add_zero]
  · rename_i nothing
    obtain rfl := pure_ok_iff.mp paid
    rw [(moves owner symbol).1, (moves owner symbol).2]
    refine ⟨?_, rfl⟩
    simp only [moved, settled, received]
    by_cases same : symbol = token.symbol
    · by_cases own : owner = group
      · simp only [same, own, if_true]
        split <;> omega
      · simp only [same, own, if_true, if_false]
        split <;> omega
    · simp only [same, if_false]

/-- A token can be paid from exactly its amount if the shares are not more than that. -/
theorem distributeToken_ok_iff (ends : contributions.getLast? = some last)
    (listed : (assets.any fun asset => asset.symbol == token.symbol) = true)
    (foreign : ∀ contribution ∈ contributions, contribution.owner ≠ group)
    (positive : ∀ contribution ∈ contributions, 0 ≤ share totalAmount token contribution)
    (offers : 0 < token.amount) (holds : free balances group token.symbol = token.amount) :
    (∃ after, distributeToken basisPoints assets group totalAmount contributions balances token =
        .ok after) ↔ total (share totalAmount token) contributions ≤ token.amount := by
  have solvent : 0 ≤ free ((balances, 0) : List Balance × Int).1 group token.symbol := by
    dsimp only
    omega
  have payable := payContributors_ok_iff listed foreign positive solvent
  dsimp only at payable
  rw [← holds, ← payable]
  constructor
  · rintro ⟨after, paid⟩
    obtain ⟨progress, ran, _⟩ := bind_ok_iff.mp paid
    exact ⟨progress, ran⟩
  · rintro ⟨⟨middle, distributed⟩, ran⟩
    have bounded := payable.mp ⟨_, ran⟩
    obtain ⟨sum, moves⟩ := payContributors_free ran
    rw [zero_add] at sum
    dsimp only at sum moves
    subst sum
    simp only [distributeToken, ran, ends, bind, Except.bind]
    split
    · rename_i left
      obtain ⟨credited, first⟩ : ∃ credited, adjustAccountBalance assets middle last.owner
          ⟨token.amount - total (share totalAmount token) contributions, token.symbol⟩ =
            .ok credited := by
        refine adjustAccountBalance_succeeds listed fun debit => ?_
        dsimp only at debit
        omega
      have still := ((adjustAccountBalance_free first).2 group token.symbol).1
      have apart := foreign last (List.mem_of_getLast? ends)
      rw [entry, if_neg fun both => apart both.1.symm, (moves group token.symbol).1,
        moved_group foreign] at still
      rw [first]
      refine adjustAccountBalance_succeeds listed fun _ => ?_
      simp only [Asset.neg]
      omega
    · exact ⟨middle, rfl⟩

/-- The payments of the tokens add up. -/
theorem distributeTokens_free {tokens : List Asset} (ends : contributions.getLast? = some last)
    (paid : tokens.foldlM (distributeToken basisPoints assets group totalAmount contributions)
      balances = .ok after) (owner : Name) (symbol : AssetSymbol) :
    free after owner symbol = free balances owner symbol + total (fun token =>
        settled group totalAmount token contributions last owner symbol) tokens ∧
      locked after owner symbol = locked balances owner symbol := by
  induction tokens generalizing balances with
  | nil =>
    obtain rfl := pure_ok_iff.mp paid
    simp
  | cons token rest hypothesis =>
    rw [List.foldlM_cons, bind_ok_iff] at paid
    obtain ⟨middle, first, others⟩ := paid
    have step := distributeToken_free ends first owner symbol
    have later := hypothesis others
    rw [later.1, later.2, step.1, step.2, total_cons, add_assoc]
    exact ⟨rfl, rfl⟩

/-- Tokens of different assets can be paid exactly if each of them can. -/
theorem distributeTokens_ok_iff {tokens : List Asset} (ends : contributions.getLast? = some last)
    (listed : ∀ token ∈ tokens, (assets.any fun asset => asset.symbol == token.symbol) = true)
    (foreign : ∀ contribution ∈ contributions, contribution.owner ≠ group)
    (positive : ∀ token ∈ tokens, ∀ contribution ∈ contributions,
      0 ≤ share totalAmount token contribution)
    (offers : ∀ token ∈ tokens, 0 < token.amount) (apart : (tokens.map Asset.symbol).Nodup)
    (holds : ∀ token ∈ tokens, free balances group token.symbol = token.amount) :
    (∃ after, tokens.foldlM (distributeToken basisPoints assets group totalAmount contributions)
        balances = .ok after) ↔
      ∀ token ∈ tokens, total (share totalAmount token) contributions ≤ token.amount := by
  induction tokens generalizing balances with
  | nil => exact iff_of_true ⟨balances, rfl⟩ fun _ none => absurd none List.not_mem_nil
  | cons token rest hypothesis =>
    rw [List.forall_mem_cons] at listed positive offers holds
    rw [List.map_cons, List.nodup_cons] at apart
    have own := distributeToken_ok_iff ends listed.1 foreign positive.1 offers.1 holds.1
    -- the other tokens are still there when the first one has been paid
    have still : ∀ middle, distributeToken basisPoints assets group totalAmount contributions
        balances token = .ok middle →
        ∀ other ∈ rest, free middle group other.symbol = other.amount := by
      intro middle paid other member
      have differs : other.symbol ≠ token.symbol :=
        fun same => apart.1 (same ▸ List.mem_map_of_mem member)
      rw [(distributeToken_free ends paid group other.symbol).1, settled, if_neg differs, add_zero]
      exact holds.2 other member
    rw [List.forall_mem_cons, ← own]
    constructor
    · rintro ⟨after, paid⟩
      rw [List.foldlM_cons, bind_ok_iff] at paid
      obtain ⟨middle, first, others⟩ := paid
      have later := hypothesis listed.2 positive.2 offers.2 apart.2 (still middle first)
      exact ⟨⟨middle, first⟩, later.mp ⟨after, others⟩⟩
    · rintro ⟨⟨middle, first⟩, bounded⟩
      have later := hypothesis listed.2 positive.2 offers.2 apart.2 (still middle first)
      obtain ⟨after, others⟩ := later.mpr bounded
      refine ⟨after, ?_⟩
      rw [List.foldlM_cons, first]
      exact others

end Token

/-! ## The sale -/

/-- `finish_research_token_sale` with the multiplication of `share_type`, which throws when the
    product of an amount and a part of the funds does not fit into 64 bits. -/
def finishSale (state : State) (id : Nat) : Except String State := do
  let sale ← getResearchTokenSaleById state.sales id
  require (∀ token ∈ sale.securityTokensOnSale,
      ∀ contribution ∈ contributionsTo state.contributions id,
        token.amount * basisPoints contribution.amount.amount sale.totalAmount.amount < 2 ^ 63)
    "overflow"
  finishResearchTokenSale basisPoints state id

/-- A sale that has reached its soft cap. Its contributions make up its funds, and its group has
    the tokens on sale frozen and no others of them. -/
structure Reached (state : State) (sale : TokenSale) (group : Name) : Prop where
  found : getResearchTokenSaleById state.sales sale.id = .ok sale
  research : ∃ research, state.getResearchById sale.researchId = .ok research ∧
    research.researchGroup = group ∧
    ∃ row, state.getResearchGroup research.researchGroupId = .ok row ∧ row.account = group
  capped : 0 < sale.softCap.amount ∧ sale.softCap.amount ≤ sale.totalAmount.amount
  given : ∀ contribution ∈ contributionsTo state.contributions sale.id, 0 < contribution.amount.amount
  collected : total (fun contribution => contribution.amount.amount)
    (contributionsTo state.contributions sale.id) = sale.totalAmount.amount
  owners : ((contributionsTo state.contributions sale.id).map Contribution.owner).Nodup
  offers : ∀ token ∈ sale.securityTokensOnSale, 0 < token.amount
  listed : ∀ symbol ∈ sale.totalAmount.symbol :: sale.securityTokensOnSale.map Asset.symbol,
    (state.assets.any fun asset => asset.symbol == symbol) = true
  covered : ∀ symbol, offered sale.securityTokensOnSale symbol ≤ locked state.balances group symbol
  bare : ∀ token ∈ sale.securityTokensOnSale, free state.balances group token.symbol = 0

/-- What an owner gains, apart from the funds that the group is credited. -/
def gain (state next : State) (sale : TokenSale) (group owner : Name) (symbol : AssetSymbol) : Int :=
  holding next.balances owner symbol - holding state.balances owner symbol -
    (if owner = group then sale.totalAmount.under symbol else 0)

/-- Of each token on sale the contributors get all together, nobody loses any, and the group gives
    just that. Beside its tokens the group gains nothing but the funds. -/
structure Distributed (state next : State) (sale : TokenSale) (group : Name) : Prop where
  whole : ∀ token ∈ sale.securityTokensOnSale,
    total (fun contribution => gain state next sale group contribution.owner token.symbol)
      (contributionsTo state.contributions sale.id) = token.amount
  fair : ∀ token ∈ sale.securityTokensOnSale,
    ∀ contribution ∈ contributionsTo state.contributions sale.id,
      0 ≤ gain state next sale group contribution.owner token.symbol
  spent : ∀ token ∈ sale.securityTokensOnSale,
    gain state next sale group group token.symbol = -token.amount
  credited : ∀ symbol, (∀ token ∈ sale.securityTokensOnSale, token.symbol ≠ symbol) →
    gain state next sale group group symbol = 0

/-- The tokens on sale are of different assets, the group buys none of them itself, and the rounded
    shares in each of them are not more than there is of it. -/
structure Payable (sale : TokenSale) (group : Name) (contributions : List Contribution) : Prop where
  apart : (sale.securityTokensOnSale.map Asset.symbol).Nodup
  foreign : sale.securityTokensOnSale ≠ [] →
    ∀ contribution ∈ contributions, contribution.owner ≠ group
  bounded : ∀ token ∈ sale.securityTokensOnSale,
    total (share sale.totalAmount token) contributions ≤ token.amount
  fits : ∀ token ∈ sale.securityTokensOnSale, ∀ contribution ∈ contributions,
    token.amount * basisPoints contribution.amount.amount sale.totalAmount.amount < 2 ^ 63

section Sale

variable {state next : State} {sale : TokenSale} {group : Name} {last : Contribution}
variable {contributions : List Contribution} {totalAmount token : Asset}

/-- With distinct owners, what the contributors get of a token is all of it. -/
theorem total_received (owners : (contributions.map Contribution.owner).Nodup)
    (ends : contributions.getLast? = some last) :
    total (fun contribution => received totalAmount token contributions last contribution.owner)
      contributions = token.amount := by
  have member := List.mem_of_getLast? ends
  have shares : total (fun contribution =>
      shareOf totalAmount token contributions contribution.owner) contributions =
        total (share totalAmount token) contributions := by
    simp only [shareOf]
    rw [total_comm]
    refine total_congr fun contribution listed => ?_
    refine (total_congr fun other _ => ?_).trans
      (total_ite_key _ owners (List.mem_map_of_mem listed))
    exact if_congr eq_comm rfl rfl
  have rest := total_ite_key (token.amount - total (share totalAmount token) contributions) owners
    (List.mem_map_of_mem member)
  simp only [received, total_add, shares]
  simp only [eq_comm] at rest ⊢
  rw [← rest]
  omega

/-- With distinct assets, only the payment of its own token moves an asset. -/
theorem total_settled {tokens : List Asset} (apart : (tokens.map Asset.symbol).Nodup)
    (member : token ∈ tokens) (owner : Name) :
    total (fun other => settled group totalAmount other contributions last owner token.symbol)
        tokens = settled group totalAmount token contributions last owner token.symbol := by
  rw [← total_ite_key (settled group totalAmount token contributions last owner token.symbol) apart
    (List.mem_map_of_mem member)]
  refine total_congr fun other listed => ?_
  by_cases same : other.symbol = token.symbol
  · rw [if_pos same, List.inj_on_of_nodup_map apart listed member same]
  · rw [if_neg same, settled, if_neg (Ne.symm same)]

/-- The owners gain what the payments of the tokens move to them. -/
theorem finishSale_gain (reached : Reached state sale group)
    (ends : (contributionsTo state.contributions sale.id).getLast? = some last)
    (finished : finishSale state sale.id = .ok next) (owner : Name) (symbol : AssetSymbol) :
    gain state next sale group owner symbol = total (fun token =>
      settled group sale.totalAmount token (contributionsTo state.contributions sale.id) last owner
        symbol) sale.securityTokensOnSale := by
  obtain ⟨research, gotResearch, ownGroup, row, gotRow, ownRow⟩ := reached.research
  simp only [finishSale, finishResearchTokenSale, reached.found, gotResearch, gotRow, bind_ok_iff,
    require_ok_iff, pure_ok_iff, Except.ok.injEq, exists_eq_left', ownGroup, ownRow] at finished
  obtain ⟨_, _, unfrozen, unfroze, distributed, paid, final, credited, rfl⟩ := finished
  have first := unfreezeTokens_free unfroze owner symbol
  have second := distributeTokens_free ends paid owner symbol
  have third := (adjustAccountBalance_free credited).2 owner symbol
  rw [gain, holding, holding, third.1, third.2, second.1, second.2, first.1, first.2, entry,
    Asset.under]
  by_cases own : owner = group
  · by_cases same : symbol = sale.totalAmount.symbol
    · simp only [own, same, and_self, if_true]
      omega
    · simp only [own, same, Ne.symm same, and_false, if_true, if_false]
      omega
  · simp only [own, false_and, if_false]
    omega

/-- A sale whose funds are positive has a last contribution. -/
theorem Reached.ends (reached : Reached state sale group) :
    ∃ last, (contributionsTo state.contributions sale.id).getLast? = some last := by
  cases listed : (contributionsTo state.contributions sale.id).getLast? with
  | some last => exact ⟨last, rfl⟩
  | none =>
    have collected := reached.collected
    rw [List.getLast?_eq_none_iff.mp listed, total_nil] at collected
    have capped := reached.capped
    omega

theorem Reached.shares_nonneg (reached : Reached state sale group) :
    ∀ token ∈ sale.securityTokensOnSale,
      ∀ contribution ∈ contributionsTo state.contributions sale.id,
        0 ≤ share sale.totalAmount token contribution := by
  intro token offered contribution member
  have funded : 0 < sale.totalAmount.amount := lt_of_lt_of_le reached.capped.1 reached.capped.2
  exact share_nonneg funded (reached.offers token offered) (reached.given contribution member)

/-- What the group pays where it is not among the contributors. -/
theorem settled_group (foreign : ∀ contribution ∈ contributions, contribution.owner ≠ group)
    (ends : contributions.getLast? = some last) (symbol : AssetSymbol) :
    settled group totalAmount token contributions last group symbol = -token.under symbol := by
  have none : shareOf totalAmount token contributions group = 0 :=
    total_eq_zero fun contribution member => if_neg (foreign contribution member)
  rw [settled, received, none, if_neg (foreign last (List.mem_of_getLast? ends)), if_pos rfl,
    Asset.under]
  by_cases same : symbol = token.symbol
  · rw [if_pos same, if_pos same.symm]
    omega
  · rw [if_neg same, if_neg (Ne.symm same), neg_zero]

/-- Positive amounts that each make up all of their asset are of different assets. -/
theorem nodup_of_offered {tokens : List Asset} (offers : ∀ token ∈ tokens, 0 < token.amount)
    (alone : ∀ token ∈ tokens, offered tokens token.symbol = token.amount) :
    (tokens.map Asset.symbol).Nodup := by
  induction tokens with
  | nil => exact List.nodup_nil
  | cons token rest hypothesis =>
    rw [List.forall_mem_cons] at offers alone
    have others : offered rest token.symbol = 0 := by
      have all := alone.1
      rw [offered_cons, Asset.under, if_pos rfl] at all
      omega
    have apart : ∀ other ∈ rest, other.symbol ≠ token.symbol := by
      intro other member same
      have part : other.under token.symbol ≤ offered rest token.symbol := by
        refine le_total (fun row listed => ?_) member
        rw [Asset.under]
        split
        · exact (offers.2 row listed).le
        · exact Int.le_refl 0
      rw [Asset.under, if_pos same, others] at part
      exact absurd part (Int.not_le.mpr (offers.2 other member))
    rw [List.map_cons, List.nodup_cons]
    constructor
    · intro listed
      obtain ⟨other, member, same⟩ := List.mem_map.mp listed
      exact apart other member same
    · refine hypothesis offers.2 fun other member => ?_
      have all := alone.2 other member
      rw [offered_cons, Asset.under, if_neg (Ne.symm (apart other member)), zero_add] at all
      exact all

/-- If a sale is distributed, what it offers is of different assets and none of it goes back to
    the group. -/
theorem Distributed.apart (reached : Reached state sale group)
    (finished : finishSale state sale.id = .ok next)
    (distributed : Distributed state next sale group) :
    (sale.securityTokensOnSale.map Asset.symbol).Nodup ∧
      (sale.securityTokensOnSale ≠ [] →
        ∀ contribution ∈ contributionsTo state.contributions sale.id,
          contribution.owner ≠ group) := by
  obtain ⟨last, ends⟩ := reached.ends
  have foreign : sale.securityTokensOnSale ≠ [] →
      ∀ contribution ∈ contributionsTo state.contributions sale.id, contribution.owner ≠ group := by
    intro some contribution member own
    obtain ⟨token, offered⟩ := List.exists_mem_of_ne_nil _ some
    have gains := distributed.fair token offered contribution member
    rw [own, distributed.spent token offered] at gains
    have offers := reached.offers token offered
    omega
  refine ⟨nodup_of_offered reached.offers fun token member => ?_, foreign⟩
  have spent := distributed.spent token member
  have others := foreign (List.ne_nil_of_mem member)
  rw [finishSale_gain reached ends finished,
    total_congr fun other _ => settled_group others ends token.symbol] at spent
  have negated : total (fun other => -other.under token.symbol) sale.securityTokensOnSale =
      -offered sale.securityTokensOnSale token.symbol := by
    have sum := total_add (fun other : Asset => -other.under token.symbol)
      (fun other => other.under token.symbol) sale.securityTokensOnSale
    rw [total_eq_zero fun _ _ => neg_add_cancel _] at sum
    rw [offered]
    omega
  omega

/-- A sale whose tokens can be paid is distributed. -/
theorem Payable.distributed (reached : Reached state sale group)
    (payable : Payable sale group (contributionsTo state.contributions sale.id))
    (finished : finishSale state sale.id = .ok next) : Distributed state next sale group := by
  obtain ⟨last, ends⟩ := reached.ends
  have gains : ∀ token ∈ sale.securityTokensOnSale, ∀ owner,
      gain state next sale group owner token.symbol =
        received sale.totalAmount token (contributionsTo state.contributions sale.id) last owner -
          (if owner = group then token.amount else 0) := by
    intro token member owner
    rw [finishSale_gain reached ends finished, total_settled payable.apart member, settled,
      if_pos rfl]
  have paid : ∀ token ∈ sale.securityTokensOnSale,
      ∀ contribution ∈ contributionsTo state.contributions sale.id,
        gain state next sale group contribution.owner token.symbol =
          received sale.totalAmount token (contributionsTo state.contributions sale.id) last
            contribution.owner := by
    intro token member contribution listed
    have apart := payable.foreign (List.ne_nil_of_mem member) contribution listed
    rw [gains token member, if_neg apart, sub_zero]
  constructor
  · intro token member
    rw [total_congr fun contribution listed => paid token member contribution listed]
    exact total_received reached.owners ends
  · intro token member contribution listed
    rw [paid token member contribution listed]
    refine add_nonneg (total_nonneg fun other others => ?_) ?_
    · split
      · exact reached.shares_nonneg token member other others
      · exact Int.le_refl 0
    · have bounded := payable.bounded token member
      split <;> omega
  · intro token member
    rw [finishSale_gain reached ends finished, total_settled payable.apart member,
      settled_group (payable.foreign (List.ne_nil_of_mem member)) ends, Asset.under, if_pos rfl]
  · intro symbol other
    rw [finishSale_gain reached ends finished]
    exact total_eq_zero fun token member => if_neg (Ne.symm (other token member))

/-- The sale is finished and distributed exactly if its tokens can be paid. -/
theorem finishSale_distributed_iff (reached : Reached state sale group) :
    (∃ next, finishSale state sale.id = .ok next ∧ Distributed state next sale group) ↔
      Payable sale group (contributionsTo state.contributions sale.id) := by
  obtain ⟨last, ends⟩ := reached.ends
  obtain ⟨research, gotResearch, ownGroup, row, gotRow, ownRow⟩ := reached.research
  have listed : ∀ token ∈ sale.securityTokensOnSale,
      (state.assets.any fun asset => asset.symbol == token.symbol) = true := fun token member =>
    reached.listed token.symbol (List.mem_cons_of_mem _ (List.mem_map_of_mem member))
  -- what was unfrozen is all that the group has of the tokens
  have holds : ∀ unfrozen, unfreezeTokens state.balances group sale.securityTokensOnSale =
      .ok unfrozen → (sale.securityTokensOnSale.map Asset.symbol).Nodup →
      ∀ token ∈ sale.securityTokensOnSale, free unfrozen group token.symbol = token.amount := by
    intro unfrozen unfroze apart token member
    rw [(unfreezeTokens_free unfroze group token.symbol).1, if_pos rfl, reached.bare token member,
      zero_add, offered, ← total_ite_key token.amount apart (List.mem_map_of_mem member)]
    refine total_congr fun other others => ?_
    rw [Asset.under]
    by_cases same : other.symbol = token.symbol
    · rw [if_pos same, if_pos same, List.inj_on_of_nodup_map apart others member same]
    · rw [if_neg same, if_neg same]
  constructor
  · rintro ⟨next, finished, distributed⟩
    obtain ⟨apart, foreign⟩ := distributed.apart reached finished
    simp only [finishSale, finishResearchTokenSale, reached.found, gotResearch, bind_ok_iff,
      require_ok_iff, Except.ok.injEq, exists_eq_left', ownGroup] at finished
    obtain ⟨_, fits, _, _, unfrozen, unfroze, balances, paid, _⟩ := finished
    refine ⟨apart, foreign, fun token member => ?_, fits⟩
    have bounded := (distributeTokens_ok_iff ends listed (foreign (List.ne_nil_of_mem member))
      reached.shares_nonneg reached.offers apart (holds unfrozen unfroze apart)).mp ⟨balances, paid⟩
    exact bounded token member
  · intro payable
    obtain ⟨unfrozen, unfroze⟩ := unfreezeTokens_succeeds reached.offers reached.covered
    have pays : ∃ balances, sale.securityTokensOnSale.foldlM
        (distributeToken basisPoints state.assets group sale.totalAmount
          (contributionsTo state.contributions sale.id)) unfrozen = .ok balances := by
      by_cases none : sale.securityTokensOnSale = []
      · rw [none]
        exact ⟨unfrozen, rfl⟩
      · exact (distributeTokens_ok_iff ends listed (payable.foreign none) reached.shares_nonneg
          reached.offers payable.apart (holds unfrozen unfroze payable.apart)).mpr payable.bounded
    obtain ⟨balances, paid⟩ := pays
    obtain ⟨final, credited⟩ : ∃ final, adjustAccountBalance state.assets balances group
        sale.totalAmount = .ok final := by
      have capped := reached.capped
      exact adjustAccountBalance_succeeds (reached.listed _ List.mem_cons_self) fun debit =>
        absurd debit (by omega)
    have finished : ∃ next, finishSale state sale.id = .ok next := by
      simp only [finishSale, finishResearchTokenSale, reached.found, gotResearch, gotRow,
        bind_ok_iff, require_ok_iff, Except.ok.injEq, exists_eq_left', ownGroup, ownRow]
      exact ⟨_, (), payable.fits, unfrozen, unfroze, balances, paid, final, credited, rfl⟩
    obtain ⟨next, finished⟩ := finished
    exact ⟨next, finished, payable.distributed reached finished⟩

end Sale

/-! ## Rounding up -/

namespace Sample

/-- The sale of an amount of a token for one core token each. -/
def market (amount : Int) (contributors : List Name) : TokenSale where
  id := 0
  externalId := "sale"
  researchId := 0
  researchExternalId := "lens"
  securityTokensOnSale := [⟨amount, token⟩]
  startTime := 4
  endTime := 10
  totalAmount := ⟨contributors.length, deipSymbol⟩
  softCap := ⟨1, deipSymbol⟩
  hardCap := ⟨100, deipSymbol⟩
  status := .finished

/-- The state in which that sale has reached its soft cap. -/
def selling (amount : Int) (contributors : List Name) : State :=
  { genesis.blank [genesis.coreAsset,
      { symbol := token, stringSymbol := "LENS", issuer := "lab", type := .researchSecurityToken,
        tokenizedResearch := some "lens", licenseRevenueHoldersShare := none, maxSupply := 10000,
        currentSupply := 10000, isDefault := false }] with
    balances := [⟨"lab", token, 0, amount⟩]
    sales := [market amount contributors]
    contributions := contributors.map fun owner => ⟨0, owner, ⟨1, deipSymbol⟩⟩
    groups := [⟨0, "lab", "alice", ⟨0, deipSymbol⟩⟩]
    registry := ⟨[⟨0, "lens", "lab", 0, [⟨10000, token⟩]⟩], [], [], [], [], []⟩ }

/-- Three equal contributions leave a unit to the last contributor. -/
def three : List Name := ["alice", "bob", "carol"]

/-- Six equal contributions are each rounded up. -/
def six : List Name := ["alice", "bob", "carol", "dave", "erin", "frank"]

theorem three_reached : Reached (selling 100 three) (market 100 three) "lab" where
  found := rfl
  research := ⟨_, rfl, rfl, _, rfl, rfl⟩
  capped := by decide
  given := by decide
  collected := by decide
  owners := by decide
  offers := by decide
  listed := by decide
  covered symbol := by
    simp only [offered, market, total_cons, total_nil, Asset.under, locked, selling]
    by_cases same : token = symbol
    · subst same
      decide
    · simp [same, Balance.belongs]
  bare := by decide

theorem six_reached : Reached (selling 10000 six) (market 10000 six) "lab" where
  found := rfl
  research := ⟨_, rfl, rfl, _, rfl, rfl⟩
  capped := by decide
  given := by decide
  collected := by decide
  owners := by decide
  offers := by decide
  listed := by decide
  covered symbol := by
    simp only [offered, market, total_cons, total_nil, Asset.under, locked, selling]
    by_cases same : token = symbol
    · subst same
      decide
    · simp [same, Balance.belongs]
  bare := by decide

theorem three_distributed :
    (∃ next, finishSale (selling 100 three) 0 = .ok next ∧
        Distributed (selling 100 three) next (market 100 three) "lab") ↔
      Payable (market 100 three) "lab" (contributionsTo (selling 100 three).contributions 0) :=
  finishSale_distributed_iff three_reached

/-- The sixth of six equal shares is not covered any more. -/
theorem six_fails : Reached (selling 10000 six) (market 10000 six) "lab" ∧
    ¬ ∃ next, finishSale (selling 10000 six) 0 = .ok next := by
  refine ⟨six_reached, ?_⟩
  rintro ⟨next, finished⟩
  have failed : (finishSale (selling 10000 six) 0).isOk = false := by decide +kernel
  rw [finished] at failed
  cases failed

end Sample

end DeipChain.Ledger
