import DeipChain.Ledger.Contracts
import DeipChain.Ledger.SaleShares
import Mathlib.Data.List.Dedup

/-!
# The fees of licenses

The holders of each security token of a research share a part of a license fee. The part is
cut off to whole units, and so is what a holder gets of it by the portion of the supply that he
has. The tokens take turns, and a holder's balance counts as it is then: where a token is itself
the asset of the fee, what the tokens before it brought counts as well.

Nothing keeps the tokens from promising more than the fee together, nor a token of which
nothing is issued any more from having holders. Then the operation fails.
-/
namespace DeipChain.Ledger

open DeipChain.Result DeipChain.Table

/-! ## The payments and what they report -/

/-- The product of two amounts is in the range of `share_type`. -/
def FitsShareType (first second : Int) : Prop :=
  -2 ^ 63 ≤ first * second ∧ first * second < 2 ^ 63

instance (first second : Int) : Decidable (FitsShareType first second) :=
  inferInstanceAs (Decidable (_ ∧ _))

/-- The multiplication of `share_type`. -/
def multiply (first second : Int) : Except String Int := do
  require (FitsShareType first second) "overflow"
  return first * second

/-- The percentage that a token promises to its holders. -/
def AssetObject.sharePercent (token : AssetObject) : Percent :=
  token.licenseRevenueHoldersShare.getD ⟨0, 2⟩

/-- `calculate_share(fee, share_percent)`. -/
def beneficiaryShare (fee : Asset) (token : AssetObject) : Except String (AssetObject × Int) := do
  let product ← multiply fee.amount token.sharePercent.amount
  return (token, product.tdiv (100 * 10 ^ token.sharePercent.decimals))

/-- `account_revenue_income_history_operation`. -/
structure AccountRevenueIncome where
  account : Name
  securityToken : Asset
  revenue : Asset
  timestamp : Time
deriving DecidableEq, Repr

/-- The balances in the course of the payments, with the sum of these and the virtual
    operations that report them. -/
structure Distribution where
  balances : List Balance
  totalRevenue : Int
  incomes : List AccountRevenueIncome
deriving DecidableEq, Repr

/-- Pays a holder. The balance of the token is read again for the report. -/
def payBeneficiary (state : State) (token : AssetObject) (revenue : Asset) (paid : Distribution)
    (holder : Name) : Except String Distribution := do
  let balance ← getAccountBalance paid.balances holder token.symbol
  require (token.currentSupply ≠ 0) "Dividing by zero is restricted"
  let product ← multiply revenue.amount balance.amount
  let share := product.tdiv token.currentSupply
  let balances ← adjustAccountBalance state.assets paid.balances holder ⟨share, revenue.symbol⟩
  let kept ← getAccountBalance balances holder token.symbol
  return {
    balances
    totalRevenue := paid.totalRevenue + share
    incomes := paid.incomes ++ [⟨holder, ⟨kept.amount, kept.symbol⟩, ⟨share, revenue.symbol⟩,
      state.props.time⟩] }

def payBeneficiaries (state : State) (feeSymbol : AssetSymbol) (paid : Distribution)
    (beneficiary : AssetObject × Int) : Except String Distribution :=
  (holdersOf paid.balances beneficiary.1.symbol).foldlM
    (payBeneficiary state beneficiary.1 ⟨beneficiary.2, feeSymbol⟩) paid

/-- What `create_research_license_evaluator` does with the fee. -/
def shareLicenseFee (state : State) (research : Research) (licensee : Name) (fee : Asset) :
    Except String (State × List AccountRevenueIncome) := do
  require (accountBalanceExists state.balances licensee fee.symbol)
    "${1} asset balance does not exist for ${2} account"
  let balance ← getAccountBalance state.balances licensee fee.symbol
  let funded ← (Asset.mk balance.amount balance.symbol).atLeast fee
  require (funded = true) "Account ${1} balance is not enough."
  let beneficiaries ← (beneficiaryTokens state.assets research.externalId).mapM
    (beneficiaryShare fee)
  let paid ← beneficiaries.foldlM (payBeneficiaries state fee.symbol) ⟨state.balances, 0, []⟩
  require (paid.totalRevenue ≤ fee.amount)
    "Total revenue amount ${1} is more than fee amount ${2}"
  let kept ← payRest state.assets paid.balances research.researchGroup
    ⟨fee.amount - paid.totalRevenue, fee.symbol⟩
  let balances ← adjustAccountBalance state.assets kept licensee fee.neg
  return ({ state with balances }, paid.incomes)

/-- `create_research_license_evaluator::do_apply` with the virtual operations that it pushes. -/
def CreateResearchLicenseOperation.evaluate (state : State) (op : CreateResearchLicenseOperation) :
    Except String (State × List AccountRevenueIncome) := do
  require (state.accountExists op.licenser) "Account ${1} does not exist"
  require (state.accountExists op.licensee) "Account ${1} does not exist"
  let group ← state.getResearchGroupByAccount op.licenser
  let research ← state.getResearch op.researchExternalId
  require (group.account = research.researchGroup)
    "Research ${1} is not owned by ${2} research group"
  require (∀ expiration ∈ op.expirationTime, state.props.time < expiration)
    "Research license is expired on creation"
  match op.fee with
  | none => return (state, [])
  | some fee => shareLicenseFee state research op.licensee fee

/-! ## The shares -/

/-- The part of a fee that falls to the holders of a token. -/
def revenueOf (fee : Asset) (token : AssetObject) : Int :=
  preciseShare fee.amount token.sharePercent

theorem beneficiaryShare_ok_iff {fee : Asset} {token : AssetObject} {result : AssetObject × Int} :
    beneficiaryShare fee token = .ok result ↔
      FitsShareType fee.amount token.sharePercent.amount ∧ (token, revenueOf fee token) = result := by
  simp only [beneficiaryShare, multiply, bind_ok_iff, require_ok_iff, pure_ok_iff]
  constructor
  · rintro ⟨_, ⟨_, fits, rfl⟩, rfl⟩
    exact ⟨fits, rfl⟩
  · rintro ⟨fits, rfl⟩
    exact ⟨_, ⟨(), fits, rfl⟩, rfl⟩

/-- A token without a promise gets nothing. -/
theorem revenueOf_eq (fee : Asset) (token : AssetObject) :
    revenueOf fee token = token.licenseRevenueHoldersShare.elim 0 (preciseShare fee.amount) := by
  rw [revenueOf, AssetObject.sharePercent]
  cases token.licenseRevenueHoldersShare with
  | none => simp [preciseShare]
  | some share => rfl

/-- What a portion of a token's supply brings of a revenue. -/
def portion (token : AssetObject) (revenue amount : Int) : Int :=
  (revenue * amount).tdiv token.currentSupply

section Payments

variable {state next : State} {research : Research} {licensee : Name} {fee revenue : Asset}
  {token : AssetObject} {tokens : List AssetObject} {paid after : Distribution}
  {balances : List Balance} {holder : Name} {holders : List Name}
  {incomes : List AccountRevenueIncome}

/-- All about the payment of one holder. -/
theorem payBeneficiary_parts (pays : payBeneficiary state token revenue paid holder = .ok after) :
    ∃ balance kept, paid.balances.find? (Balance.belongs holder token.symbol) = some balance ∧
      token.currentSupply ≠ 0 ∧ FitsShareType revenue.amount balance.amount ∧
      adjustAccountBalance state.assets paid.balances holder
        ⟨portion token revenue.amount balance.amount, revenue.symbol⟩ = .ok after.balances ∧
      after.totalRevenue = paid.totalRevenue + portion token revenue.amount balance.amount ∧
      after.incomes = paid.incomes ++ [⟨holder, ⟨kept, token.symbol⟩,
        ⟨portion token revenue.amount balance.amount, revenue.symbol⟩, state.props.time⟩] := by
  simp only [payBeneficiary, multiply, getAccountBalance, bind_ok_iff, require_ok_iff,
    expect_ok_iff, pure_ok_iff] at pays
  obtain ⟨balance, found, _, supplied, _, ⟨_, fits, rfl⟩, adjusted, credits, kept, reread, rfl⟩ := pays
  have own := (Balance.belongs_iff.mp (List.find?_some reread)).2
  exact ⟨balance, kept.amount, found, supplied, fits, credits, rfl, by rw [← own]; rfl⟩

/-! ## The payments of the ledger -/

theorem payBeneficiary_payHolder
    (pays : payBeneficiary state token revenue paid holder = .ok after) :
    payHolder state.assets token revenue (paid.balances, paid.totalRevenue) holder =
      .ok (after.balances, after.totalRevenue) := by
  obtain ⟨balance, _, found, supplied, _, adjusted, sum, _⟩ := payBeneficiary_parts pays
  simp only [payHolder, getAccountBalance, weightedShare, bind_ok_iff, expect_ok_iff,
    require_ok_iff, pure_ok_iff]
  exact ⟨balance, found, _, ⟨(), supplied, rfl⟩, after.balances, adjusted, by rw [sum]; rfl⟩

theorem payBeneficiaries_payHolders
    (pays : payBeneficiaries state fee.symbol paid (token, revenueOf fee token) = .ok after) :
    payHolders state.assets fee (paid.balances, paid.totalRevenue) token =
      .ok (after.balances, after.totalRevenue) := by
  rw [payHolders, ← revenueOf_eq]
  obtain ⟨last, ran, rfl⟩ := foldlM_simulates
    (fun (paid : Distribution) progress => progress = (paid.balances, paid.totalRevenue))
    (by
      rintro holder _ paid _ after rfl pays
      exact ⟨_, payBeneficiary_payHolder pays, rfl⟩) rfl pays
  exact ran

/-- The shares are computed if the products fit. -/
theorem beneficiaryShares_ok_iff {beneficiaries : List (AssetObject × Int)} :
    tokens.mapM (beneficiaryShare fee) = .ok beneficiaries ↔
      (∀ token ∈ tokens, FitsShareType fee.amount token.sharePercent.amount) ∧
        tokens.map (fun token => (token, revenueOf fee token)) = beneficiaries :=
  mapM_ok_iff fun _ _ => beneficiaryShare_ok_iff

theorem shareLicenseFee_payLicenseFee
    (shared : shareLicenseFee state research licensee fee = .ok (next, incomes)) :
    payLicenseFee state research licensee fee = .ok next := by
  simp only [shareLicenseFee, beneficiaryShares_ok_iff, bind_ok_iff, pure_ok_iff,
    Prod.mk.injEq] at shared
  obtain ⟨_, known, balance, found, funded, enough, _, whole, _, ⟨_, rfl⟩, paid, ran, _, bounded,
    kept, keeps, balances, debited, rfl, _⟩ := shared
  rw [List.foldlM_map] at ran
  obtain ⟨last, follows, rfl⟩ := foldlM_simulates
    (fun (paid : Distribution) progress => progress = (paid.balances, paid.totalRevenue))
    (by
      rintro token _ paid _ after rfl pays
      exact ⟨_, payBeneficiaries_payHolders pays, rfl⟩) rfl ran
  simp only [payLicenseFee, bind_ok_iff, pure_ok_iff]
  exact ⟨(), known, balance, found, funded, enough, (), whole, _, follows, (), bounded, kept, keeps,
    balances, debited, rfl⟩

/-- Whenever the evaluator succeeds, the step of the ledger has the same result. -/
theorem CreateResearchLicenseOperation.evaluate_apply {op : CreateResearchLicenseOperation}
    (evaluated : op.evaluate state = .ok (next, incomes)) : op.apply state = .ok next := by
  simp only [evaluate, bind_ok_iff] at evaluated
  obtain ⟨_, licenser, _, licensee, group, gotGroup, research, got, _, owned, _, current, ran⟩ :=
    evaluated
  simp only [apply, bind_ok_iff]
  refine ⟨(), licenser, (), licensee, group, gotGroup, research, got, (), owned, (), current, ?_⟩
  cases given : op.fee with
  | none =>
    rw [given, pure_ok_iff] at ran
    obtain ⟨rfl, _⟩ := Prod.mk.injEq _ _ _ _ ▸ ran
    rfl
  | some fee =>
    rw [given] at ran
    exact shareLicenseFee_payLicenseFee ran

/-! ## The keys of the balances -/

/-- The key of the unique index. -/
def Balance.key (balance : Balance) : Name × AssetSymbol :=
  (balance.owner, balance.symbol)

theorem accountBalanceExists_iff_key {owner : Name} {symbol : AssetSymbol} :
    accountBalanceExists balances owner symbol = true ↔
      (owner, symbol) ∈ balances.map Balance.key := by
  simp [accountBalanceExists, Balance.belongs_iff, Balance.key]

/-- Without a balance, an owner has nothing. -/
theorem free_of_unknown {owner : Name} {symbol : AssetSymbol}
    (unknown : (owner, symbol) ∉ balances.map Balance.key) : free balances owner symbol = 0 := by
  have none : balances.find? (Balance.belongs owner symbol) = none := by
    rw [List.find?_eq_none]
    intro balance member own
    obtain ⟨rfl, rfl⟩ := Balance.belongs_iff.mp own
    exact unknown (List.mem_map_of_mem member)
  rw [free, none]
  rfl

theorem mem_holdersOf_iff {symbol : AssetSymbol} :
    holder ∈ holdersOf balances symbol ↔ (holder, symbol) ∈ balances.map Balance.key := by
  simp only [holdersOf, List.mem_map, List.mem_filter, Balance.key, Prod.mk.injEq, beq_iff_eq]
  constructor
  · rintro ⟨balance, ⟨member, same⟩, own⟩
    exact ⟨balance, member, own, same⟩
  · rintro ⟨balance, member, own, same⟩
    exact ⟨balance, ⟨member, same⟩, own⟩

theorem nodup_holdersOf (distinct : Distinct balances) (symbol : AssetSymbol) :
    (holdersOf balances symbol).Nodup := by
  rw [holdersOf, List.nodup_map_iff_inj_on (List.Nodup.of_map _ distinct |>.filter _)]
  intro first member second others same
  rw [List.mem_filter, beq_iff_eq] at member others
  refine List.inj_on_of_nodup_map distinct member.1 others.1 ?_
  rw [same, member.2, others.2]

/-- A payment keeps the keys, and adds at most its own. -/
theorem adjustAccountBalance_keys {after : List Balance} {owner : Name} {delta : Asset}
    (adjusted : adjustAccountBalance state.assets balances owner delta = .ok after) :
    after.map Balance.key = balances.map Balance.key ∨
      after.map Balance.key = balances.map Balance.key ++ [(owner, delta.symbol)] := by
  simp only [adjustAccountBalance, ensureAccountBalance, bind_ok_iff, pure_ok_iff] at adjusted
  obtain ⟨middle, ensured, _, _, _, _, rfl⟩ := adjusted
  rw [map_modifyFirst (by exact fun _ => rfl)]
  split at ensured
  · obtain rfl := pure_ok_iff.mp ensured
    exact .inl rfl
  · simp only [createAccountBalance, bind_ok_iff, pure_ok_iff] at ensured
    obtain ⟨_, _, _, _, rfl⟩ := ensured
    exact .inr (List.map_append ..)

/-! ## The course of the payments -/

/-- What the reported incomes of an owner come to. -/
def earned (incomes : List AccountRevenueIncome) (owner : Name) (symbol : AssetSymbol) : Int :=
  total (fun income => if income.account = owner then income.revenue.under symbol else 0) incomes

theorem earned_append (first second : List AccountRevenueIncome) (owner : Name)
    (symbol : AssetSymbol) :
    earned (first ++ second) owner symbol = earned first owner symbol + earned second owner symbol :=
  total_append _ _ _

/-- Nobody is taken anything. -/
def Fair (incomes : List AccountRevenueIncome) : Prop :=
  ∀ income ∈ incomes, 0 ≤ income.revenue.amount

/-- The payments so far: the balances hold what they held and what was reported. -/
structure Paying (balances : List Balance) (fee : Asset) (paid : Distribution) : Prop where
  distinct : Distinct paid.balances
  kept : ∀ key ∈ balances.map Balance.key, key ∈ paid.balances.map Balance.key
  known : ∀ key ∈ paid.balances.map Balance.key,
    key.1 ∈ balances.map Balance.owner ∧ key.2 ∈ balances.map Balance.symbol
  free : ∀ owner symbol,
    free paid.balances owner symbol = free balances owner symbol + earned paid.incomes owner symbol
  locked : ∀ owner symbol, locked paid.balances owner symbol = locked balances owner symbol
  recorded : paid.totalRevenue = total (fun income => income.revenue.amount) paid.incomes
  reported : ∀ income ∈ paid.incomes,
    income.account ∈ balances.map Balance.owner ∧ income.revenue.symbol = fee.symbol

theorem Paying.begin (distinct : Distinct balances) : Paying balances fee ⟨balances, 0, []⟩ where
  distinct := distinct
  kept _ member := member
  known _ member := by
    obtain ⟨balance, listed, rfl⟩ := List.mem_map.mp member
    exact ⟨List.mem_map_of_mem listed, List.mem_map_of_mem listed⟩
  free _ _ := (add_zero _).symm
  locked _ _ := rfl
  recorded := rfl
  reported _ none := absurd none List.not_mem_nil

/-- Every payment of the fee's asset is of that kind. -/
theorem Paying.pay (before : Paying balances fee paid)
    (held : fee.symbol ∈ balances.map Balance.symbol) (same : revenue.symbol = fee.symbol)
    (pays : payBeneficiary state token revenue paid holder = .ok after) :
    Paying balances fee after := by
  obtain ⟨balance, kept, found, _, _, adjusted, sum, reports⟩ := payBeneficiary_parts pays
  obtain ⟨own, _⟩ := Balance.belongs_iff.mp (List.find?_some found)
  have member := List.mem_of_find?_eq_some found
  have lives := (before.known balance.key (List.mem_map_of_mem member)).1
  rw [Balance.key, own] at lives
  have moves := adjustAccountBalance_free adjusted
  have keys := adjustAccountBalance_keys adjusted
  constructor
  · exact (adjustAccountBalance_moved (fun _ _ => True) (.inl trivial) adjusted).distinct
      before.distinct
  · intro key listed
    have old := before.kept key listed
    rcases keys with keys | keys
    · rw [keys]
      exact old
    · rw [keys]
      exact List.mem_append_left _ old
  · intro key listed
    rcases keys with keys | keys
    · rw [keys] at listed
      exact before.known key listed
    · rw [keys, List.mem_append, List.mem_singleton] at listed
      rcases listed with old | rfl
      · exact before.known key old
      · exact ⟨lives, same ▸ held⟩
  · intro owner symbol
    rw [(moves.2 owner symbol).1, before.free, reports, earned_append, add_assoc]
    congr 1
    simp only [earned, total_cons, total_nil, add_zero, entry, Asset.under]
    by_cases hit : holder = owner
    · by_cases asset : revenue.symbol = symbol
      · simp [hit, asset]
      · simp [hit, asset, Ne.symm asset]
    · simp [hit, Ne.symm hit]
  · intro owner symbol
    rw [(moves.2 owner symbol).2, before.locked]
  · rw [sum, reports, before.recorded, total_append, total_cons, total_nil, add_zero]
  · rw [reports]
    exact forall_append_singleton before.reported ⟨lives, same⟩

/-! ## The payments of one token -/

/-- A holder is paid, and not less than nothing, if there is a supply and the product fits. -/
theorem payBeneficiary_ok_iff
    (listed : (state.assets.any fun asset => asset.symbol == revenue.symbol) = true)
    (known : (holder, token.symbol) ∈ paid.balances.map Balance.key) :
    (∃ after, payBeneficiary state token revenue paid holder = .ok after ∧ Fair after.incomes) ↔
      Fair paid.incomes ∧ token.currentSupply ≠ 0 ∧
        FitsShareType revenue.amount (free paid.balances holder token.symbol) ∧
        0 ≤ portion token revenue.amount (free paid.balances holder token.symbol) := by
  obtain ⟨balance, found⟩ := accountBalanceExists_iff.mp (accountBalanceExists_iff_key.mpr known)
  have amount : free paid.balances holder token.symbol = balance.amount := by
    rw [free, found]
    rfl
  rw [amount]
  constructor
  · rintro ⟨after, pays, fair⟩
    obtain ⟨_, _, also, supplied, fits, _, _, reports⟩ := payBeneficiary_parts pays
    obtain rfl := Option.some.inj (found.symm.trans also)
    rw [reports, Fair, List.forall_mem_append] at fair
    exact ⟨fair.1, supplied, fits, fair.2 _ List.mem_cons_self⟩
  · rintro ⟨fair, supplied, fits, credit⟩
    obtain ⟨balances, adjusted⟩ : ∃ balances, adjustAccountBalance state.assets paid.balances holder
        ⟨portion token revenue.amount balance.amount, revenue.symbol⟩ = .ok balances :=
      adjustAccountBalance_succeeds listed fun debit => absurd debit (Int.not_lt.mpr credit)
    have still : (holder, token.symbol) ∈ balances.map Balance.key := by
      rcases adjustAccountBalance_keys adjusted with keys | keys
      · rw [keys]
        exact known
      · rw [keys]
        exact List.mem_append_left _ known
    obtain ⟨kept, reread⟩ := accountBalanceExists_iff.mp (accountBalanceExists_iff_key.mpr still)
    refine ⟨⟨balances, paid.totalRevenue + portion token revenue.amount balance.amount,
      paid.incomes ++ [⟨holder, ⟨kept.amount, kept.symbol⟩,
        ⟨portion token revenue.amount balance.amount, revenue.symbol⟩, state.props.time⟩]⟩, ?_,
      forall_append_singleton fair credit⟩
    simp only [payBeneficiary, multiply, getAccountBalance, bind_ok_iff, require_ok_iff,
      expect_ok_iff, pure_ok_iff]
    exact ⟨balance, found, (), supplied, _, ⟨(), fits, rfl⟩, balances, adjusted, kept, reread, rfl⟩

/-- What the payment of one holder changes. -/
theorem payBeneficiary_effects
    (pays : payBeneficiary state token revenue paid holder = .ok after) :
    (∀ key ∈ paid.balances.map Balance.key, key ∈ after.balances.map Balance.key) ∧
      (∀ other ≠ holder, ∀ symbol,
        free after.balances other symbol = free paid.balances other symbol) ∧
      ∀ owner, earned after.incomes owner revenue.symbol =
        earned paid.incomes owner revenue.symbol + if owner = holder then
          portion token revenue.amount (free paid.balances holder token.symbol) else 0 := by
  obtain ⟨balance, kept, found, _, _, adjusted, _, reports⟩ := payBeneficiary_parts pays
  have amount : free paid.balances holder token.symbol = balance.amount := by
    rw [free, found]
    rfl
  refine ⟨fun key member => ?_, fun other apart symbol => ?_, fun owner => ?_⟩
  · rcases adjustAccountBalance_keys adjusted with keys | keys
    · rw [keys]
      exact member
    · rw [keys]
      exact List.mem_append_left _ member
  · rw [((adjustAccountBalance_free adjusted).2 other symbol).1, entry,
      if_neg fun both => apart both.1, add_zero]
  · rw [reports, earned_append, amount]
    congr 1
    simp only [earned, total_cons, total_nil, add_zero, Asset.under, if_true]
    exact if_congr eq_comm rfl rfl

/-- All holders of a token are paid if each can be from what he has of it now. -/
theorem payHoldersList_ok_iff (distinct : holders.Nodup)
    (listed : (state.assets.any fun asset => asset.symbol == revenue.symbol) = true)
    (known : ∀ holder ∈ holders, (holder, token.symbol) ∈ paid.balances.map Balance.key) :
    (∃ after, holders.foldlM (payBeneficiary state token revenue) paid = .ok after ∧
        Fair after.incomes) ↔
      Fair paid.incomes ∧ ∀ holder ∈ holders, token.currentSupply ≠ 0 ∧
        FitsShareType revenue.amount (free paid.balances holder token.symbol) ∧
        0 ≤ portion token revenue.amount (free paid.balances holder token.symbol) := by
  induction holders generalizing paid with
  | nil => simp [pure, Except.pure]
  | cons holder rest hypothesis =>
    rw [List.nodup_cons] at distinct
    rw [List.forall_mem_cons] at known
    -- the payment of the first leaves what the others have
    have others : ∀ middle, payBeneficiary state token revenue paid holder = .ok middle →
        ((∃ after, rest.foldlM (payBeneficiary state token revenue) middle = .ok after ∧
            Fair after.incomes) ↔
          Fair middle.incomes ∧ ∀ other ∈ rest, token.currentSupply ≠ 0 ∧
            FitsShareType revenue.amount (free paid.balances other token.symbol) ∧
            0 ≤ portion token revenue.amount (free paid.balances other token.symbol)) := by
      intro middle pays
      obtain ⟨grows, same, _⟩ := payBeneficiary_effects pays
      rw [hypothesis distinct.2 fun other member => grows _ (known.2 other member)]
      refine and_congr_right fun _ => forall₂_congr fun other member => ?_
      rw [same other fun equal => distinct.1 (equal ▸ member)]
    rw [List.forall_mem_cons, ← and_assoc, ← payBeneficiary_ok_iff listed known.1]
    constructor
    · rintro ⟨after, ran, fair⟩
      rw [List.foldlM_cons, bind_ok_iff] at ran
      obtain ⟨middle, pays, remaining⟩ := ran
      obtain ⟨begun, each⟩ := (others middle pays).mp ⟨after, remaining, fair⟩
      exact ⟨⟨middle, pays, begun⟩, each⟩
    · rintro ⟨⟨middle, pays, begun⟩, each⟩
      obtain ⟨after, remaining, fair⟩ := (others middle pays).mpr ⟨begun, each⟩
      refine ⟨after, ?_, fair⟩
      rw [List.foldlM_cons, pays]
      exact remaining

/-- What the holders of a token earn. -/
theorem payHoldersList_earned (distinct : holders.Nodup)
    (ran : holders.foldlM (payBeneficiary state token revenue) paid = .ok after) (owner : Name) :
    earned after.incomes owner revenue.symbol = earned paid.incomes owner revenue.symbol +
      if owner ∈ holders then
        portion token revenue.amount (free paid.balances owner token.symbol) else 0 := by
  induction holders generalizing paid with
  | nil =>
    obtain rfl := pure_ok_iff.mp ran
    simp
  | cons holder rest hypothesis =>
    rw [List.nodup_cons] at distinct
    rw [List.foldlM_cons, bind_ok_iff] at ran
    obtain ⟨middle, pays, remaining⟩ := ran
    obtain ⟨_, same, earns⟩ := payBeneficiary_effects pays
    rw [hypothesis distinct.2 remaining, earns, add_assoc]
    congr 1
    by_cases own : owner = holder
    · subst own
      simp [distinct.1]
    · simp [own, same owner own]

/-! ## What the holders are due -/

/-- What an owner has of a security token when its turn comes. -/
structure Stake where
  token : AssetObject
  amount : Int
deriving DecidableEq, Repr

/-- What a stake brings of a fee. -/
def Stake.due (fee : Asset) (stake : Stake) : Int :=
  portion stake.token (revenueOf fee stake.token) stake.amount

/-- The share of a stake can be computed, and takes nothing from its owner. -/
structure Stake.Payable (fee : Asset) (stake : Stake) : Prop where
  fits : FitsShareType (revenueOf fee stake.token) stake.amount
  fair : 0 ≤ stake.due fee

/-- The balance of a token counts, and for the asset of the fee what the owner earned before. -/
def stakeIn (balances : List Balance) (fee : Asset) (owner : Name) (earned : Int)
    (token : AssetObject) : Stake :=
  ⟨token, free balances owner token.symbol + (Asset.mk earned fee.symbol).under token.symbol⟩

/-- The stakes of an owner in the given tokens, which take turns. -/
def stakes (balances : List Balance) (fee : Asset) (owner : Name) :
    Int → List AssetObject → List Stake
  | _, [] => []
  | earned, token :: rest =>
    let stake := stakeIn balances fee owner earned token
    stake :: stakes balances fee owner (earned + stake.due fee) rest

theorem Paying.earned_under (before : Paying balances fee paid) (owner : Name)
    (symbol : AssetSymbol) : earned paid.incomes owner symbol =
      (Asset.mk (earned paid.incomes owner fee.symbol) fee.symbol).under symbol := by
  by_cases same : fee.symbol = symbol
  · rw [Asset.under, if_pos same, same]
  · rw [Asset.under, if_neg same]
    refine total_eq_zero fun income member => ?_
    rw [Asset.under, (before.reported income member).2, if_neg same, ite_self]

/-- What an owner has of a token in the course of the payments. -/
theorem Paying.free_eq (before : Paying balances fee paid) (owner : Name) :
    Ledger.free paid.balances owner token.symbol =
      (stakeIn balances fee owner (earned paid.incomes owner fee.symbol) token).amount := by
  rw [before.free, before.earned_under, stakeIn]

theorem Paying.held_iff (before : Paying balances fee paid) (symbol : AssetSymbol) :
    (∃ holder, holder ∈ holdersOf paid.balances symbol) ↔ symbol ∈ balances.map Balance.symbol := by
  simp only [mem_holdersOf_iff]
  constructor
  · rintro ⟨holder, listed⟩
    exact (before.known _ listed).2
  · intro held
    obtain ⟨balance, member, rfl⟩ := List.mem_map.mp held
    exact ⟨balance.owner, before.kept _ (List.mem_map_of_mem member)⟩

/-- Who has no balance of a token has nothing at stake in it. -/
theorem Paying.idle (before : Paying balances fee paid) {owner : Name}
    (none : owner ∉ holdersOf paid.balances token.symbol) :
    (stakeIn balances fee owner (earned paid.incomes owner fee.symbol) token).amount = 0 := by
  rw [← before.free_eq]
  exact free_of_unknown fun listed => none (mem_holdersOf_iff.mpr listed)

theorem Stake.due_of_idle {stake : Stake} (idle : stake.amount = 0) : stake.due fee = 0 := by
  rw [due, portion, idle, mul_zero, Int.zero_tdiv]

theorem Stake.payable_of_idle {stake : Stake} (idle : stake.amount = 0) : stake.Payable fee := by
  constructor
  · rw [FitsShareType, idle, mul_zero]
    decide
  · exact (due_of_idle idle).ge

/-- The holders of a token are paid if it has a supply and all stakes in it can be paid. -/
theorem payBeneficiaries_ok_iff (before : Paying balances fee paid)
    (listed : (state.assets.any fun asset => asset.symbol == fee.symbol) = true) :
    (∃ after, payBeneficiaries state fee.symbol paid (token, revenueOf fee token) = .ok after ∧
        Fair after.incomes) ↔
      Fair paid.incomes ∧
        (token.symbol ∈ balances.map Balance.symbol → token.currentSupply ≠ 0) ∧
        ∀ owner ∈ balances.map Balance.owner,
          (stakeIn balances fee owner (earned paid.incomes owner fee.symbol) token).Payable fee := by
  have known : ∀ holder ∈ holdersOf paid.balances token.symbol,
      (holder, token.symbol) ∈ paid.balances.map Balance.key :=
    fun _ member => mem_holdersOf_iff.mp member
  have priced : (state.assets.any fun asset =>
      asset.symbol == (Asset.mk (revenueOf fee token) fee.symbol).symbol) = true := listed
  refine (payHoldersList_ok_iff (nodup_holdersOf before.distinct _) priced known).trans ?_
  refine and_congr_right fun _ => ?_
  simp only [before.free_eq]
  constructor
  · intro each
    constructor
    · intro held
      obtain ⟨holder, member⟩ := (before.held_iff _).mpr held
      exact (each holder member).1
    · intro owner _
      by_cases member : owner ∈ holdersOf paid.balances token.symbol
      · exact ⟨(each owner member).2.1, (each owner member).2.2⟩
      · exact Stake.payable_of_idle (before.idle member)
  · rintro ⟨supplied, each⟩ holder member
    have payable := each holder (before.known _ (known holder member)).1
    exact ⟨supplied ((before.held_iff _).mp ⟨holder, member⟩), payable.fits, payable.fair⟩

theorem payBeneficiaries_earned (before : Paying balances fee paid)
    (pays : payBeneficiaries state fee.symbol paid (token, revenueOf fee token) = .ok after)
    (owner : Name) : earned after.incomes owner fee.symbol =
      earned paid.incomes owner fee.symbol +
        (stakeIn balances fee owner (earned paid.incomes owner fee.symbol) token).due fee := by
  rw [payHoldersList_earned (nodup_holdersOf before.distinct _) pays, before.free_eq]
  congr 1
  by_cases member : owner ∈ holdersOf paid.balances token.symbol
  · rw [if_pos member]
    rfl
  · rw [if_neg member, Stake.due_of_idle (before.idle member)]

theorem Paying.payBeneficiaries (before : Paying balances fee paid)
    (held : fee.symbol ∈ balances.map Balance.symbol)
    (pays : payBeneficiaries state fee.symbol paid (token, revenueOf fee token) = .ok after) :
    Paying balances fee after := by
  refine foldlM_invariant (fun _ paid => Paying balances fee paid) ?_ before pays
  intro holder rest paid after before pays
  have same : (Asset.mk (revenueOf fee token) fee.symbol).symbol = fee.symbol := rfl
  exact before.pay held same pays

/-- All tokens are paid if each that has holders has a supply and all stakes can be paid. -/
theorem payTokens_ok_iff (before : Paying balances fee paid)
    (held : fee.symbol ∈ balances.map Balance.symbol)
    (listed : (state.assets.any fun asset => asset.symbol == fee.symbol) = true) :
    (∃ after, (tokens.map fun token => (token, revenueOf fee token)).foldlM
        (payBeneficiaries state fee.symbol) paid = .ok after ∧ Fair after.incomes) ↔
      Fair paid.incomes ∧
        (∀ token ∈ tokens, token.symbol ∈ balances.map Balance.symbol → token.currentSupply ≠ 0) ∧
        ∀ owner ∈ balances.map Balance.owner,
          ∀ stake ∈ stakes balances fee owner (earned paid.incomes owner fee.symbol) tokens,
            stake.Payable fee := by
  induction tokens generalizing paid with
  | nil => simp [stakes, pure, Except.pure]
  | cons token rest hypothesis =>
    simp only [stakes, List.forall_mem_cons]
    constructor
    · rintro ⟨after, ran, fair⟩
      rw [List.map_cons, List.foldlM_cons, bind_ok_iff] at ran
      obtain ⟨middle, pays, remaining⟩ := ran
      obtain ⟨begun, supplied, each⟩ :=
        (hypothesis (before.payBeneficiaries held pays)).mp ⟨after, remaining, fair⟩
      obtain ⟨start, own, first⟩ :=
        (payBeneficiaries_ok_iff before listed).mp ⟨middle, pays, begun⟩
      refine ⟨start, ⟨own, supplied⟩, fun owner member => ⟨first owner member, ?_⟩⟩
      rw [← payBeneficiaries_earned before pays]
      exact each owner member
    · rintro ⟨start, ⟨own, supplied⟩, each⟩
      obtain ⟨middle, pays, begun⟩ := (payBeneficiaries_ok_iff before listed).mpr
        ⟨start, own, fun owner member => (each owner member).1⟩
      have later : ∀ owner ∈ balances.map Balance.owner, ∀ stake ∈ stakes balances fee owner
          (earned middle.incomes owner fee.symbol) rest, stake.Payable fee := by
        intro owner member
        rw [payBeneficiaries_earned before pays]
        exact (each owner member).2
      obtain ⟨after, remaining, fair⟩ :=
        (hypothesis (before.payBeneficiaries held pays)).mpr ⟨begun, supplied, later⟩
      refine ⟨after, ?_, fair⟩
      rw [List.map_cons, List.foldlM_cons, pays]
      exact remaining

theorem payTokens_earned (before : Paying balances fee paid)
    (held : fee.symbol ∈ balances.map Balance.symbol)
    (ran : (tokens.map fun token => (token, revenueOf fee token)).foldlM
      (payBeneficiaries state fee.symbol) paid = .ok after) (owner : Name) :
    earned after.incomes owner fee.symbol = earned paid.incomes owner fee.symbol +
      total (Stake.due fee)
        (stakes balances fee owner (earned paid.incomes owner fee.symbol) tokens) := by
  induction tokens generalizing paid with
  | nil =>
    obtain rfl := pure_ok_iff.mp ran
    simp [stakes]
  | cons token rest hypothesis =>
    rw [List.map_cons, List.foldlM_cons, bind_ok_iff] at ran
    obtain ⟨middle, pays, remaining⟩ := ran
    rw [hypothesis (before.payBeneficiaries held pays) remaining,
      payBeneficiaries_earned before pays, stakes, total_cons, add_assoc]

theorem Paying.payTokens (before : Paying balances fee paid)
    (held : fee.symbol ∈ balances.map Balance.symbol)
    (ran : (tokens.map fun token => (token, revenueOf fee token)).foldlM
      (Ledger.payBeneficiaries state fee.symbol) paid = .ok after) : Paying balances fee after := by
  rw [List.foldlM_map] at ran
  refine foldlM_invariant (fun _ paid => Paying balances fee paid) ?_ before ran
  intro token rest paid after before pays
  exact before.payBeneficiaries held pays

/-! ## The reports -/

theorem payHoldersList_reports
    (ran : holders.foldlM (payBeneficiary state token revenue) paid = .ok after) :
    (∀ income ∈ paid.incomes, income ∈ after.incomes) ∧
      ∀ holder ∈ holders, ∃ income ∈ after.incomes,
        income.account = holder ∧ income.securityToken.symbol = token.symbol := by
  induction holders generalizing paid with
  | nil =>
    obtain rfl := pure_ok_iff.mp ran
    exact ⟨fun _ member => member, fun _ none => absurd none List.not_mem_nil⟩
  | cons holder rest hypothesis =>
    rw [List.foldlM_cons, bind_ok_iff] at ran
    obtain ⟨middle, pays, remaining⟩ := ran
    obtain ⟨_, _, _, _, _, _, _, reports⟩ := payBeneficiary_parts pays
    obtain ⟨keeps, others⟩ := hypothesis remaining
    rw [reports, List.forall_mem_append] at keeps
    refine ⟨keeps.1, List.forall_mem_cons.mpr ⟨?_, others⟩⟩
    exact ⟨_, keeps.2 _ List.mem_cons_self, rfl, rfl⟩

/-- Every holder of each of the tokens is reported. -/
theorem payTokens_reports (before : Paying balances fee paid)
    (held : fee.symbol ∈ balances.map Balance.symbol)
    (ran : (tokens.map fun token => (token, revenueOf fee token)).foldlM
      (payBeneficiaries state fee.symbol) paid = .ok after) :
    (∀ income ∈ paid.incomes, income ∈ after.incomes) ∧
      ∀ token ∈ tokens, ∀ balance ∈ balances, balance.symbol = token.symbol →
        ∃ income ∈ after.incomes,
          income.account = balance.owner ∧ income.securityToken.symbol = token.symbol := by
  induction tokens generalizing paid with
  | nil =>
    obtain rfl := pure_ok_iff.mp ran
    exact ⟨fun _ member => member, fun _ none => absurd none List.not_mem_nil⟩
  | cons token rest hypothesis =>
    rw [List.map_cons, List.foldlM_cons, bind_ok_iff] at ran
    obtain ⟨middle, pays, remaining⟩ := ran
    obtain ⟨keeps, others⟩ := hypothesis (before.payBeneficiaries held pays) remaining
    obtain ⟨kept, reports⟩ := payHoldersList_reports pays
    refine ⟨fun income member => keeps income (kept income member),
      List.forall_mem_cons.mpr ⟨fun balance member same => ?_, others⟩⟩
    have holds : balance.owner ∈ holdersOf paid.balances token.symbol := by
      rw [mem_holdersOf_iff, ← same]
      exact before.kept _ (List.mem_map_of_mem member)
    obtain ⟨income, listed, own⟩ := reports balance.owner holds
    exact ⟨income, keeps income listed, own⟩

/-- All payments are of the fee's asset. -/
theorem Paying.total_under (before : Paying balances fee paid) (symbol : AssetSymbol) :
    total (fun income => income.revenue.under symbol) paid.incomes =
      (Asset.mk paid.totalRevenue fee.symbol).under symbol := by
  by_cases same : fee.symbol = symbol
  · rw [Asset.under, if_pos same, before.recorded]
    refine total_congr fun income member => ?_
    rw [Asset.under, (before.reported income member).2, if_pos same]
  · rw [Asset.under, if_neg same]
    refine total_eq_zero fun income member => ?_
    rw [Asset.under, (before.reported income member).2, if_neg same]

/-- The sum of the payments is what the owners of the balances earned. -/
theorem Paying.totalRevenue_eq (before : Paying balances fee paid) :
    paid.totalRevenue = total (fun owner => earned paid.incomes owner fee.symbol)
      (balances.map Balance.owner).dedup := by
  simp only [earned]
  rw [total_comm, before.recorded]
  refine total_congr fun income member => ?_
  obtain ⟨known, same⟩ := before.reported income member
  have lone : total (fun owner => if id owner = income.account then income.revenue.amount else 0)
      (balances.map Balance.owner).dedup = income.revenue.amount := by
    refine total_ite_key _ ?_ ?_
    · rw [List.map_id]
      exact List.nodup_dedup _
    · rw [List.map_id, List.mem_dedup]
      exact known
  rw [← lone]
  refine total_congr fun owner _ => ?_
  rw [Asset.under, if_pos same]
  exact if_congr eq_comm rfl rfl

end Payments

/-! ## The license -/

/-- The evaluator gets to the fee, and the licensee has a balance of at least that. An owner has
    one balance of an asset, and the asset of the fee is listed. -/
structure CreateResearchLicenseOperation.Accepted (state : State)
    (op : CreateResearchLicenseOperation) (research : Research) (fee : Asset) : Prop where
  valid : op.validate = .ok ()
  licenser : state.accountExists op.licenser = true
  licensee : state.accountExists op.licensee = true
  found : state.getResearch op.researchExternalId = .ok research
  owned : ∃ group, state.getResearchGroupByAccount op.licenser = .ok group ∧
    group.account = research.researchGroup
  current : ∀ expiration ∈ op.expirationTime, state.props.time < expiration
  charged : op.fee = some fee
  held : accountBalanceExists state.balances op.licensee fee.symbol = true
  funded : fee.amount ≤ free state.balances op.licensee fee.symbol
  distinct : Distinct state.balances
  listed : (state.assets.any fun asset => asset.symbol == fee.symbol) = true

/-- Every holder of each token got a payment of no negative amount, the group got the rest of the
    fee, and the licensee paid the fee. Nothing of it is lost or added. -/
structure Licensed (state next : State) (research : Research) (licensee : Name) (fee : Asset)
    (incomes : List AccountRevenueIncome) : Prop where
  fair : Fair incomes
  reported : ∀ token ∈ beneficiaryTokens state.assets research.externalId,
    ∀ balance ∈ state.balances, balance.symbol = token.symbol →
      ∃ income ∈ incomes, income.account = balance.owner ∧
        income.securityToken.symbol = token.symbol
  bounded : total (fun income => income.revenue.amount) incomes ≤ fee.amount
  paid : ∀ owner symbol, free next.balances owner symbol =
    free state.balances owner symbol + earned incomes owner symbol +
      (if owner = research.researchGroup then
        fee.under symbol - total (fun income => income.revenue.under symbol) incomes else 0) -
      (if owner = licensee then fee.under symbol else 0)
  kept : ∀ owner symbol, locked next.balances owner symbol = locked state.balances owner symbol
  whole : ∀ symbol, total (Balance.held symbol) next.balances =
    total (Balance.held symbol) state.balances

/-- The tokens that have holders have a supply, the holders' shares can be computed and take
    nothing from them, and together they are not more than the fee. -/
structure Affordable (state : State) (tokens : List AssetObject) (fee : Asset) : Prop where
  fits : ∀ token ∈ tokens, FitsShareType fee.amount token.sharePercent.amount
  supplied : ∀ token ∈ tokens, token.symbol ∈ state.balances.map Balance.symbol →
    token.currentSupply ≠ 0
  payable : ∀ owner ∈ state.balances.map Balance.owner,
    ∀ stake ∈ stakes state.balances fee owner 0 tokens, stake.Payable fee
  bounded : total (fun owner => total (Stake.due fee) (stakes state.balances fee owner 0 tokens))
    (state.balances.map Balance.owner).dedup ≤ fee.amount

section Licenses

variable {state next : State} {op : CreateResearchLicenseOperation} {research : Research}
  {fee : Asset} {paid : Distribution} {incomes : List AccountRevenueIncome}

/-- What the group keeps is added to its balance. -/
theorem payRest_free {assets : List AssetObject} {balances after : List Balance} {group : Name}
    {rest : Asset} (positive : 0 ≤ rest.amount)
    (keeps : payRest assets balances group rest = .ok after) (owner : Name) (symbol : AssetSymbol) :
    free after owner symbol = free balances owner symbol +
        (if owner = group then rest.under symbol else 0) ∧
      locked after owner symbol = locked balances owner symbol := by
  rw [payRest] at keeps
  split at keeps
  · have moves := (adjustAccountBalance_free keeps).2 owner symbol
    rw [moves.1, moves.2, entry, Asset.under]
    refine ⟨?_, rfl⟩
    by_cases own : owner = group
    · by_cases same : symbol = rest.symbol
      · simp [own, same]
      · simp [same, Ne.symm same]
    · simp [own]
  · obtain rfl := pure_ok_iff.mp keeps
    have zero : rest.amount = 0 := by omega
    simp [Asset.under, zero]

theorem payRest_succeeds {assets : List AssetObject} {balances : List Balance} {group : Name}
    {rest : Asset} (positive : 0 ≤ rest.amount)
    (listed : (assets.any fun asset => asset.symbol == rest.symbol) = true) :
    ∃ after, payRest assets balances group rest = .ok after := by
  rw [payRest]
  split
  · exact adjustAccountBalance_succeeds listed fun debit => absurd debit (Int.not_lt.mpr positive)
  · exact ⟨balances, rfl⟩

theorem earned_nonneg (fair : Fair incomes) (owner : Name) (symbol : AssetSymbol) :
    0 ≤ earned incomes owner symbol := by
  refine total_nonneg fun income member => ?_
  have positive := fair income member
  rw [Asset.under]
  split
  · split <;> omega
  · exact Int.le_refl 0

theorem symbol_of_held {balances : List Balance} {owner : Name} {symbol : AssetSymbol}
    (held : accountBalanceExists balances owner symbol = true) :
    symbol ∈ balances.map Balance.symbol := by
  obtain ⟨balance, member, same⟩ := List.mem_map.mp (accountBalanceExists_iff_key.mp held)
  exact List.mem_map.mpr ⟨balance, member, congrArg Prod.snd same⟩

/-- Where the evaluator succeeds and nobody is taken anything, all is as it should be. -/
theorem shareLicenseFee_licensed {licensee : Name} (distinct : Distinct state.balances)
    (shared : shareLicenseFee state research licensee fee = .ok (next, incomes))
    (fair : Fair incomes) : Licensed state next research licensee fee incomes := by
  have whole : ∀ symbol, total (Balance.held symbol) next.balances =
      total (Balance.held symbol) state.balances := by
    intro symbol
    obtain ⟨after, rfl, moved⟩ : ∃ after, next = { state with balances := after } ∧
        Moved (fun _ _ => True) (fun _ => 0) state.balances after :=
      payLicenseFee_moved (fun _ _ _ _ => trivial) (fun _ _ => trivial) trivial trivial
        (shareLicenseFee_payLicenseFee shared)
    exact (moved.held symbol).trans (add_zero _)
  simp only [shareLicenseFee, beneficiaryShares_ok_iff, bind_ok_iff, require_ok_iff, pure_ok_iff,
    Prod.mk.injEq] at shared
  obtain ⟨_, held, _, _, _, _, _, _, _, ⟨_, rfl⟩, paid, ran, _, bounded, kept, keeps, balances,
    debited, rfl, rfl⟩ := shared
  have begun : Paying state.balances fee ⟨state.balances, 0, []⟩ := .begin distinct
  have course := begun.payTokens (symbol_of_held held) ran
  have positive : 0 ≤ (Asset.mk (fee.amount - paid.totalRevenue) fee.symbol).amount :=
    Int.sub_nonneg.mpr bounded
  have rest := payRest_free positive keeps
  have debits := (adjustAccountBalance_free debited).2
  constructor
  · exact fair
  · exact (payTokens_reports begun (symbol_of_held held) ran).2
  · rw [← course.recorded]
    exact bounded
  · intro owner symbol
    rw [(debits owner symbol).1, (rest owner symbol).1, course.free, course.total_under, entry]
    simp only [Asset.neg, Asset.under]
    by_cases asset : fee.symbol = symbol
    · simp only [asset, and_true, if_true]
      split <;> split <;> omega
    · simp only [asset, Ne.symm asset, and_false, if_false]
      split <;> split <;> omega
  · intro owner symbol
    rw [(debits owner symbol).2, (rest owner symbol).2, course.locked]
  · exact whole

/-- The fee is shared, and nobody taken anything, exactly if it affords the shares. -/
theorem shareLicenseFee_ok_iff {licensee : Name} (distinct : Distinct state.balances)
    (held : accountBalanceExists state.balances licensee fee.symbol = true)
    (funded : fee.amount ≤ free state.balances licensee fee.symbol)
    (listed : (state.assets.any fun asset => asset.symbol == fee.symbol) = true) :
    (∃ next incomes, shareLicenseFee state research licensee fee = .ok (next, incomes) ∧
        Fair incomes) ↔
      Affordable state (beneficiaryTokens state.assets research.externalId) fee := by
  have symbols := symbol_of_held held
  have begun : Paying state.balances fee ⟨state.balances, 0, []⟩ := .begin distinct
  have runs := @payTokens_ok_iff state fee (beneficiaryTokens state.assets research.externalId) _
    state.balances begun symbols listed
  constructor
  · rintro ⟨next, incomes, shared, fair⟩
    simp only [shareLicenseFee, beneficiaryShares_ok_iff, bind_ok_iff, require_ok_iff, pure_ok_iff,
      Prod.mk.injEq] at shared
    obtain ⟨_, _, _, _, _, _, _, _, _, ⟨fits, rfl⟩, paid, ran, _, bounded, _, _, _, _, _, rfl⟩ :=
      shared
    obtain ⟨_, supplied, payable⟩ := runs.mp ⟨paid, ran, fair⟩
    refine ⟨fits, supplied, payable, ?_⟩
    rw [(begun.payTokens symbols ran).totalRevenue_eq] at bounded
    refine le_of_eq_of_le (total_congr fun owner _ => ?_) bounded
    rw [payTokens_earned begun symbols ran]
    exact (zero_add _).symm
  · rintro ⟨fits, supplied, payable, bounded⟩
    obtain ⟨paid, ran, fair⟩ := runs.mpr ⟨fun _ none => absurd none List.not_mem_nil, supplied, payable⟩
    have course := begun.payTokens symbols ran
    have affords : paid.totalRevenue ≤ fee.amount := by
      rw [course.totalRevenue_eq]
      refine le_of_eq_of_le (total_congr fun owner _ => ?_) bounded
      rw [payTokens_earned begun symbols ran]
      exact zero_add _
    have positive : 0 ≤ (Asset.mk (fee.amount - paid.totalRevenue) fee.symbol).amount :=
      Int.sub_nonneg.mpr affords
    obtain ⟨kept, keeps⟩ := @payRest_succeeds state.assets paid.balances research.researchGroup _
      positive listed
    have room : fee.amount ≤ free kept licensee fee.symbol := by
      have share := earned_nonneg fair licensee fee.symbol
      rw [(payRest_free positive keeps licensee fee.symbol).1, course.free, Asset.under, if_pos rfl]
      split <;> omega
    obtain ⟨balances, debited⟩ : ∃ balances,
        adjustAccountBalance state.assets kept licensee fee.neg = .ok balances := by
      refine adjustAccountBalance_succeeds listed fun _ => ?_
      rw [Asset.neg, Int.neg_neg]
      exact room
    obtain ⟨balance, found⟩ := accountBalanceExists_iff.mp held
    have own := (Balance.belongs_iff.mp (List.find?_some found)).2
    have amount : free state.balances licensee fee.symbol = balance.amount := by
      rw [free, found]
      rfl
    refine ⟨{ state with balances }, paid.incomes, ?_, fair⟩
    simp only [shareLicenseFee, getAccountBalance, beneficiaryShares_ok_iff, bind_ok_iff,
      require_ok_iff, expect_ok_iff, pure_ok_iff, Asset.atLeast_ok_iff]
    refine ⟨(), held, balance, found, _, ⟨own, rfl⟩, (), ?_, _, ⟨fits, rfl⟩, paid, ran, (), affords,
      kept, keeps, balances, debited, rfl⟩
    simp only [Bool.not_eq_true', decide_eq_false_iff_not, Int.not_lt]
    omega

instance (fee : Asset) (stake : Stake) : Decidable (stake.Payable fee) :=
  decidable_of_iff (FitsShareType (revenueOf fee stake.token) stake.amount ∧ 0 ≤ stake.due fee)
    ⟨fun both => ⟨both.1, both.2⟩, fun payable => ⟨payable.fits, payable.fair⟩⟩

instance (state : State) (tokens : List AssetObject) (fee : Asset) :
    Decidable (Affordable state tokens fee) :=
  decidable_of_iff ((∀ token ∈ tokens, FitsShareType fee.amount token.sharePercent.amount) ∧
      (∀ token ∈ tokens, token.symbol ∈ state.balances.map Balance.symbol →
        token.currentSupply ≠ 0) ∧
      (∀ owner ∈ state.balances.map Balance.owner,
        ∀ stake ∈ stakes state.balances fee owner 0 tokens, stake.Payable fee) ∧
      total (fun owner => total (Stake.due fee) (stakes state.balances fee owner 0 tokens))
        (state.balances.map Balance.owner).dedup ≤ fee.amount)
    ⟨fun ⟨fits, supplied, payable, bounded⟩ => ⟨fits, supplied, payable, bounded⟩,
      fun affordable => ⟨affordable.fits, affordable.supplied, affordable.payable,
        affordable.bounded⟩⟩

/-- Decides whether an operation is accepted for what its research and its licenser are. -/
def CreateResearchLicenseOperation.accepts (op : CreateResearchLicenseOperation) (state : State)
    (research : Research) (group : ResearchGroup) (fee : Asset) : Bool :=
  op.validate.isOk && state.accountExists op.licenser && state.accountExists op.licensee &&
    decide (group.account = research.researchGroup ∧
      (∀ expiration ∈ op.expirationTime, state.props.time < expiration) ∧ op.fee = some fee ∧
      accountBalanceExists state.balances op.licensee fee.symbol = true ∧
      fee.amount ≤ free state.balances op.licensee fee.symbol ∧
      (state.balances.map fun balance => (balance.owner, balance.symbol)).Nodup ∧
      (state.assets.any fun asset => asset.symbol == fee.symbol) = true)

theorem CreateResearchLicenseOperation.accepted_of_accepts {group : ResearchGroup}
    (found : state.getResearch op.researchExternalId = .ok research)
    (gotGroup : state.getResearchGroupByAccount op.licenser = .ok group)
    (accepts : op.accepts state research group fee = true) : op.Accepted state research fee := by
  simp only [CreateResearchLicenseOperation.accepts, Bool.and_eq_true, decide_eq_true_eq] at accepts
  obtain ⟨⟨⟨validated, licenser⟩, licensee⟩, owns, current, charged, held, funded, distinct, listed⟩ :=
    accepts
  obtain ⟨_, valid⟩ := exists_ok _ validated
  exact ⟨valid, licenser, licensee, found, ⟨group, gotGroup, owns⟩, current, charged, held, funded,
    distinct, listed⟩

end Licenses

namespace Sample

def optics : Name := "0123456789abcdef0123456789abcdef01234567"

/-- The sample with a research that a license can name. -/
def institute : GenesisState :=
  { genesis with researches := [⟨optics, "lab"⟩] }

/-- A token that promises two fifths of all license fees has two holders. -/
def found : List Operation :=
  [.createAsset ⟨"alice", token, "LENS", 100,
      [.researchSecurityToken optics "lab", .researchLicenseRevenue ⟨4000, 2⟩]⟩,
    .issueAsset ⟨"alice", ⟨30, token⟩, "bob"⟩, .issueAsset ⟨"alice", ⟨20, token⟩, "alice"⟩]

/-- The holders give their tokens back. -/
def dissolve : List Operation :=
  [.reserveAsset ⟨"bob", ⟨30, token⟩⟩, .reserveAsset ⟨"alice", ⟨20, token⟩⟩]

/-- One of the holders takes a license. -/
def license : CreateResearchLicenseOperation where
  researchExternalId := optics
  licenser := "lab"
  licensee := "alice"
  fee := some ⟨99, deipSymbol⟩
  expirationTime := none

end Sample

end DeipChain.Ledger
