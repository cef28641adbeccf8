import DeipChain.Ledger.Runs

/-!
# The check of the supply

`validate_invariants` compares the recorded supplies with what the tables hold. It
reads the balances account by account, adds up amounts of any asset, and takes the
announced amount of a funding opportunity for what is left of it. It passes in the
states that are rooted, hold only core tokens outside the balances, and count the
expert tokens.
-/
namespace DeipChain.Ledger

open DeipChain.Result DeipChain.Table

variable {percentOf : Int → Int → Int} {genesis : GenesisState} {steps : List Step}
  {state : State}

/-- Adds the amounts of a table to a sum of core tokens. -/
def addAmounts {A : Type} (amount : A → Asset) (rows : List A) (sum : Asset) :
    Except String Asset :=
  rows.foldlM (fun sum row => sum.add (amount row)) sum

/-- The core tokens of an account, if it has a balance of them. -/
def addBalance (balances : List Balance) (sum : Asset) (account : Account) : Except String Asset :=
  match balances.find? (Balance.belongs account.name deipSymbol) with
  | some balance => sum.add ⟨balance.amount, balance.symbol⟩
  | none => return sum

/-- `database::validate_invariants`. -/
def State.validateInvariants (state : State) : Except String Unit := do
  require (∀ witness ∈ state.witnesses, witness.votes ≤ state.props.totalExpertTokensAmount) ""
  let balances ← state.accounts.foldlM (addBalance state.balances) ⟨0, deipSymbol⟩
  let groups ← addAmounts ResearchGroup.balance state.groups balances
  let pools ← addAmounts id state.rewardPools groups
  let vestings ← addAmounts VestingBalance.balance state.vestings pools
  let contributions ← addAmounts Contribution.amount state.contributions vestings
  let supplies ← addAmounts DisciplineSupply.balance state.supplies contributions
  let opportunities ← addAmounts FundingOpportunity.amount state.opportunities supplies
  let supply ← opportunities.add state.props.commonTokensFund
  require (state.props.currentSupply = supply) ""
  require (state.props.totalCommonTokensAmount = total Account.commonTokensBalance state.accounts) ""
  require (state.props.totalExpertTokensAmount =
    total Account.expertiseTokensBalance state.accounts) ""

/-! ## The sums -/

theorem addAmounts_core {A : Type} {amount : A → Asset} {rows : List A} (start : Int)
    (core : ∀ row ∈ rows, (amount row).symbol = deipSymbol) :
    addAmounts amount rows ⟨start, deipSymbol⟩ =
      .ok ⟨start + total (fun row => (amount row).amount) rows, deipSymbol⟩ := by
  induction rows generalizing start with
  | nil => simp [addAmounts, pure, Except.pure]
  | cons row rest hypothesis =>
    rw [List.forall_mem_cons] at core
    have added : (Asset.mk start deipSymbol).add (amount row) =
        .ok ⟨start + (amount row).amount, deipSymbol⟩ :=
      Asset.add_ok_iff.mpr ⟨core.1.symm, rfl⟩
    have rest := hypothesis (start + (amount row).amount) core.2
    rw [addAmounts] at rest ⊢
    rw [List.foldlM_cons, added, total_cons, ← add_assoc]
    exact rest

/-- What an account holds of the core tokens that are not frozen. -/
def coreBalance (balances : List Balance) (account : Account) : Int :=
  ((balances.find? (Balance.belongs account.name deipSymbol)).map Balance.amount).getD 0

theorem addBalances_core {balances : List Balance} {accounts : List Account} (start : Int) :
    accounts.foldlM (addBalance balances) ⟨start, deipSymbol⟩ =
      .ok ⟨start + total (coreBalance balances) accounts, deipSymbol⟩ := by
  induction accounts generalizing start with
  | nil => simp [pure, Except.pure]
  | cons account rest hypothesis =>
    have added : addBalance balances ⟨start, deipSymbol⟩ account =
        .ok ⟨start + coreBalance balances account, deipSymbol⟩ := by
      unfold addBalance coreBalance
      cases found : balances.find? (Balance.belongs account.name deipSymbol) with
      | none => simp [pure, Except.pure]
      | some balance =>
        have symbol : balance.symbol = deipSymbol := by
          have matched := List.find?_some found
          simp only [Balance.belongs, Bool.and_eq_true, beq_iff_eq] at matched
          exact matched.2
        exact Asset.add_ok_iff.mpr ⟨symbol.symm, rfl⟩
    rw [List.foldlM_cons, added, total_cons, ← add_assoc]
    exact hypothesis (start + coreBalance balances account)

/-- The accounts hold all core tokens that lie in balances. -/
theorem total_coreBalance (sound : Sound state) (rooted : Rooted state) :
    total (coreBalance state.balances) state.accounts =
      total (Balance.held deipSymbol) state.balances := by
  have each (account : Account) : coreBalance state.balances account =
      total (fun balance => if (balance.owner, balance.symbol) = (account.name, deipSymbol) then
        balance.amount else 0) state.balances := by
    rw [← find?_getD_eq_total sound.distinct, coreBalance]
    congr 3
    funext balance
    rw [Bool.eq_iff_iff, Balance.belongs_iff, ← Prod.mk.injEq]
    exact decide_eq_true_iff.symm
  rw [total_congr fun account _ => each account, total_comm]
  refine total_congr fun balance member => ?_
  rw [← total_ite_key (Balance.held deipSymbol balance) sound.named (rooted.balances balance member)]
  refine total_congr fun account _ => ?_
  by_cases own : account.name = balance.owner
  · by_cases core : balance.symbol = deipSymbol
    · rw [if_pos (by rw [own, core]), if_pos own, Balance.held, if_pos core,
        sound.thawed balance member core, add_zero]
    · rw [if_neg fun both => core (congrArg Prod.snd both), if_pos own, Balance.held, if_neg core]
  · rw [if_neg fun both => own (congrArg Prod.fst both).symm, if_neg own]

theorem total_under_core {A : Type} {amount : A → Asset} {rows : List A}
    (core : ∀ row ∈ rows, (amount row).symbol = deipSymbol) :
    total (fun row => (amount row).under deipSymbol) rows =
      total (fun row => (amount row).amount) rows :=
  total_congr fun row member => if_pos (core row member)

/-- The check passes when the books are in order. -/
theorem validateInvariants_ok (sound : Sound state) (rooted : Rooted state)
    (coreOnly : CoreOnly state) (counted : Counted state)
    (balanced : surplus state deipSymbol = 0) : state.validateInvariants = .ok () := by
  have groups : total (fun group => group.balance.amount) state.groups = 0 :=
    total_eq_zero fun group member => congrArg Asset.amount (coreOnly.groups group member)
  have opportunities : total (fun opportunity => opportunity.amount.amount) state.opportunities =
      total (fun opportunity => opportunity.currentSupply.under deipSymbol) state.opportunities := by
    refine total_congr fun opportunity member => ?_
    obtain ⟨core, whole⟩ := coreOnly.opportunities opportunity member
    rw [whole, Asset.under, if_pos core]
  have recorded : state.props.currentSupply.amount =
      total (coreBalance state.balances) state.accounts +
        total (fun vesting => vesting.balance.amount) state.vestings +
        total (fun contribution => contribution.amount.amount) state.contributions +
        total (fun supply => supply.balance.amount) state.supplies +
        total (fun opportunity => opportunity.amount.amount) state.opportunities +
        state.props.commonTokensFund.amount := by
    rw [surplus, held, outstanding, if_pos rfl] at balanced
    rw [total_coreBalance sound rooted, opportunities, ← total_under_core coreOnly.vestings,
      ← total_under_core coreOnly.contributions, ← total_under_core coreOnly.supplies]
    omega
  simp only [State.validateInvariants, bind_ok_iff, require_ok_iff]
  refine ⟨(), counted.elected, _, addBalances_core 0, _,
    addAmounts_core _ fun group member => congrArg Asset.symbol (coreOnly.groups group member), _,
    addAmounts_core _ (by simp [coreOnly.rewardPools]), _, addAmounts_core _ coreOnly.vestings, _,
    addAmounts_core _ coreOnly.contributions, _, addAmounts_core _ coreOnly.supplies, _,
    addAmounts_core _ fun opportunity member => (coreOnly.opportunities opportunity member).1, _,
    Asset.add_ok_iff.mpr ⟨sound.fund.symm, rfl⟩, (), ?_, (), sound.funded, counted.counted⟩
  rw [groups, coreOnly.rewardPools]
  simp only [total_nil, zero_add, add_zero]
  rw [← recorded, ← sound.supply]

/-! ## Runs -/

/-- The aspects that the check depends on. -/
def checked : Aspect → Prop
  | .counted | .rooted | .coreOnly => True
  | _ => False

/-- The steps that the check allows for. Sales and grants take core tokens only, no award is
    approved, the penalties of a block leave the counts of expert tokens exact, nothing is
    emitted for contributions, and discipline supplies lose what they pay. -/
def Step.Reconciles (state : State) : Step → Prop
  | operation (.contributeToTokenSale op) => op.amount.symbol = deipSymbol
  | operation (.createGrant op) => op.amount.symbol = deipSymbol
  | operation (.approveAward _) => False
  | processFunds => RewardsFit AdjustmentBearable state ∧ contributionReward state.props = 0
  | clearExpiredDisciplineSupplies =>
    ∀ supply ∈ state.supplies, supply.endTime < state.props.time → Settles state supply
  | processDisciplineSupplies =>
    ∀ supply ∈ state.supplies, supply.startTime ≤ state.props.time → Spends state supply
  | _ => True

theorem Step.fits_checked {step : Step} (reconciles : step.Reconciles state) :
    step.Fits checked state ∧ step.Balanced state := by
  cases step with
  | operation op =>
    refine ⟨?_, trivial⟩
    cases op with
    | contributeToTokenSale op => exact fun _ => reconciles
    | createGrant op => exact fun _ => reconciles
    | approveAward op => exact reconciles.elim
    | withdrawCommonTokens op => exact False.elim
    | createAward | rejectAward | createAwardWithdrawalRequest | certifyAwardWithdrawalRequest
    | approveAwardWithdrawalRequest | rejectAwardWithdrawalRequest | payAwardWithdrawalRequest =>
      exact fun _ _ => id
    | _ => trivial
  | processFunds => exact ⟨⟨fun _ => reconciles.1, False.elim⟩, reconciles.2⟩
  | clearExpiredDisciplineSupplies => exact ⟨trivial, reconciles⟩
  | processDisciplineSupplies => exact ⟨trivial, reconciles⟩
  | _ => exact ⟨trivial, trivial⟩

/-- The check passes in every state that is reached by such steps from a genesis that names
    the accounts of its balances, gives nobody negative expertise and vests nothing. -/
theorem run_validateInvariants (percentOf : Int → Int → Int) (genesis : GenesisState)
    (steps : List Step) (state : State)
    (owners : ∀ balance ∈ genesis.accountBalances,
      balance.owner = genesis.registrarName ∨ balance.owner ∈ genesis.accounts)
    (positive : ∀ token ∈ genesis.expertTokens, 0 ≤ token.amount)
    (unvested : genesis.vestingBalances = [])
    (reconciles : RunFits percentOf (fun state step => step.Reconciles state) genesis steps)
    (ran : run percentOf genesis steps = .ok state) : state.validateInvariants = .ok () := by
  obtain ⟨start, inited, ran⟩ := run_ok_iff.mp ran
  obtain ⟨begun, books, holds⟩ := GenesisState.init_books inited
  have stated (aspect : Aspect) (keeps : checked aspect) : genesis.States aspect := by
    cases aspect with
    | counted => exact positive
    | rooted => exact owners
    | coreOnly => trivial
    | reserved | rated | awarded => exact keeps.elim
  obtain ⟨sound, kept, balanced⟩ := foldlM_along (fun reached => Sound reached ∧
    (∀ aspect, checked aspect → Holds aspect reached) ∧ surplus reached deipSymbol = 0) (by
      rintro step state next reconciles ⟨sound, before, balanced⟩ applied
      obtain ⟨fits, exact⟩ := Step.fits_checked reconciles
      obtain ⟨change, posted, nothing, _⟩ := Step.apply_posted fits applied
      refine ⟨posted.sound sound, fun aspect keeps => ?_, ?_⟩
      · exact posted.holds sound aspect keeps (before aspect keeps)
      · rw [posted.surplus sound, balanced, nothing sound exact, add_zero])
    (reconciles start inited)
    ⟨begun, fun aspect keeps => holds aspect (stated aspect keeps), by
      rw [books, unvested]
      exact if_pos rfl⟩ ran
  exact validateInvariants_ok sound (kept .rooted trivial) (kept .coreOnly trivial)
    (kept .counted trivial) balanced

/-- Decides whether a step is of those that the check allows for, where there is nothing to
    distribute. -/
def Step.reconciles (state : State) : Step → Bool
  | operation (.contributeToTokenSale op) => op.amount.symbol = deipSymbol
  | operation (.createGrant op) => op.amount.symbol = deipSymbol
  | operation (.approveAward _) => false
  | processFunds => (rewardAdjustments state.registry).toOption.all List.isEmpty &&
    decide (contributionReward state.props = 0)
  | clearExpiredDisciplineSupplies => state.supplies.isEmpty
  | processDisciplineSupplies => state.supplies.isEmpty
  | _ => true

theorem Step.reconciles_of_test (state : State) (step : Step)
    (tested : step.reconciles state = true) : step.Reconciles state := by
  cases step with
  | operation op =>
    cases op with
    | contributeToTokenSale op =>
      exact (of_decide_eq_true tested : op.amount.symbol = deipSymbol)
    | createGrant op => exact (of_decide_eq_true tested : op.amount.symbol = deipSymbol)
    | approveAward op => cases tested
    | _ => trivial
  | processFunds =>
    rw [reconciles, Bool.and_eq_true] at tested
    refine ⟨fun adjustments computed => ?_, of_decide_eq_true tested.2⟩
    have empty : adjustments = [] := by
      simpa [computed, Except.toOption] using tested.1
    rw [empty]
    trivial
  | clearExpiredDisciplineSupplies =>
    intro supply member
    rw [List.isEmpty_iff.mp tested] at member
    cases member
  | processDisciplineSupplies =>
    intro supply member
    rw [List.isEmpty_iff.mp tested] at member
    cases member
  | _ => trivial

/-- A token sale with a contribution. -/
theorem run_validateInvariants_sample : ∃ state,
    run Sample.percentOf Sample.genesis ((Sample.block 1 Sample.tokenize).steps ++
      (Sample.block 2 [.contributeToTokenSale ⟨"bob", "sale", ⟨20, deipSymbol⟩⟩]).steps) =
        .ok state ∧ state.validateInvariants = .ok () := by
  obtain ⟨state, ran⟩ := exists_ok (run Sample.percentOf Sample.genesis
    ((Sample.block 1 Sample.tokenize).steps ++
      (Sample.block 2 [.contributeToTokenSale ⟨"bob", "sale", ⟨20, deipSymbol⟩⟩]).steps))
    (by decide +kernel)
  refine ⟨state, ran, run_validateInvariants _ _ _ _ (by decide) (by decide) rfl ?_ ran⟩
  exact RunFits.of_passes Step.reconciles_of_test (by decide +kernel)

/-- The genesis of the sample with more core tokens. -/
def Sample.rich : GenesisState :=
  { Sample.genesis with
    initSupply := 10 ^ 12
    accountBalances := [⟨"alice", 10 ^ 12, GenesisState.coreName⟩] }

/-- An empty block emits a reward for contributions that nobody gets. -/
theorem run_validateInvariants_fails : ∃ state,
    run Sample.percentOf Sample.rich (Sample.block 1 []).steps = .ok state ∧
      state.validateInvariants ≠ .ok () := by
  obtain ⟨state, ran, fails⟩ := exists_ok_of_any
    (run Sample.percentOf Sample.rich (Sample.block 1 []).steps)
    (fun state => !state.validateInvariants.isOk) (by decide +kernel)
  refine ⟨state, ran, fun passes => ?_⟩
  rw [passes] at fails
  cases fails

end DeipChain.Ledger
