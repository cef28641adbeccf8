import DeipChain.Ledger.Expertise

/-!
# Vesting balances and research licenses

A vesting balance holds core tokens that its owner withdraws period by period. The fee of
a research license is shared among the holders of the security tokens of the research,
and the research group keeps the rest. Both only move what is there.
-/
namespace DeipChain.Ledger

open DeipChain.Result DeipChain.Table

/-! ## Vesting balances -/

structure CreateVestingBalanceOperation where
  creator : Name
  owner : Name
  balance : Asset
  vestingDurationSeconds : Nat
  vestingCliffSeconds : Nat
  periodDurationSeconds : Nat
deriving DecidableEq, Repr

namespace CreateVestingBalanceOperation

def validate (op : CreateVestingBalanceOperation) : Except String Unit := do
  let positive ← op.balance.above ⟨0, deipSymbol⟩
  require (positive = true) "Deposit balance must be DEIP and greater than 0"
  require (0 < op.vestingDurationSeconds ∧ op.vestingCliffSeconds < op.vestingDurationSeconds)
    "Vesting  duration must be longer than 0 & longer than cliff period"
  require (0 < op.periodDurationSeconds)
    "Vesting withdraw periods duration should be greater than 0"
  require (op.vestingDurationSeconds % op.periodDurationSeconds = 0)
    "Vesting duration should contain an integer number of withdraw periods"

def apply (state : State) (op : CreateVestingBalanceOperation) : Except String State := do
  require (state.accountExists op.creator) "Account \"${1}\" must exist."
  require (state.accountExists op.owner) "Account \"${1}\" must exist."
  require (accountBalanceExists state.balances op.creator op.balance.symbol)
    "${1} asset balance does not exist for ${2} account"
  let balance ← getAccountBalance state.balances op.creator op.balance.symbol
  require (op.balance.amount ≤ balance.amount) "Not enough funds to create vesting contract"
  let balances ← adjustAccountBalance state.assets state.balances op.creator op.balance.neg
  require (∀ vesting ∈ state.vestings, vesting.id ≠ state.vestings.length) uniquenessViolated
  return { state with
    balances
    vestings := state.vestings ++ [
      { id := state.vestings.length
        owner := op.owner
        balance := op.balance
        withdrawn := ⟨0, deipSymbol⟩
        vestingCliffSeconds := op.vestingCliffSeconds
        vestingDurationSeconds := op.vestingDurationSeconds
        periodDurationSeconds := op.periodDurationSeconds
        startTimestamp := state.props.time }] }

end CreateVestingBalanceOperation

structure WithdrawVestingBalanceOperation where
  vestingBalanceId : Nat
  owner : Name
  amount : Asset
deriving DecidableEq, Repr

/-- What has vested of a balance after some time. -/
def totalVested (vesting : VestingBalance) (elapsed : Nat) : Int :=
  if elapsed < vesting.vestingDurationSeconds then
    (vesting.balance.amount * (elapsed / vesting.periodDurationSeconds : Nat)).tdiv
      (vesting.vestingDurationSeconds / vesting.periodDurationSeconds : Nat)
  else vesting.balance.amount

/-- `dbs_vesting_balance::withdraw`. -/
def withdrawVesting (vestings : List VestingBalance) (vesting : VestingBalance) (amount : Asset) :
    Except String (List VestingBalance) := do
  let covered ← vesting.balance.atLeast amount
  require (covered = true) "vesting.balance >= amount"
  let balance ← vesting.balance.sub amount
  let withdrawn ← vesting.withdrawn.add amount
  return modifyFirst (fun other => other.id == vesting.id)
    (fun other => { other with balance, withdrawn }) vestings

namespace WithdrawVestingBalanceOperation

def validate (op : WithdrawVestingBalanceOperation) : Except String Unit := do
  let positive ← op.amount.above ⟨0, deipSymbol⟩
  require (positive = true) "Withdraw amount must be DEIP and greater than 0"

/-- Before the cliff nothing is withdrawn, and nothing fails. -/
def apply (state : State) (op : WithdrawVestingBalanceOperation) : Except String State := do
  require (state.accountExists op.owner) "Account \"${1}\" must exist."
  let vesting ← expect (state.vestings.find? fun vesting => vesting.id == op.vestingBalanceId)
    "Vesting contract \"${1}\" doesn't exist."
  require (op.owner = vesting.owner) ""
  let elapsed := state.props.time - vesting.startTimestamp
  if vesting.startTimestamp ≤ state.props.time ∧ vesting.vestingCliffSeconds ≤ elapsed then do
    let vested := totalVested vesting elapsed
    require (0 ≤ vested) "total_vested >= 0"
    let allowed := vested - vesting.withdrawn.amount
    require (0 ≤ allowed) "allowed_withdraw >= 0"
    require (op.amount.amount ≤ allowed)
      "You cannot withdraw requested amount. Allowed withdraw: ${a}, requested amount: ${r}."
    let vestings ← withdrawVesting state.vestings vesting op.amount
    let balances ← adjustAccountBalance state.assets state.balances op.owner op.amount
    return { state with vestings, balances }
  else return state

end WithdrawVestingBalanceOperation

/-! ## Research licenses -/

/-- `create_research_license_operation` with the terms of `licensing_fee_type`, the only
    agreement that the evaluator knows. -/
structure CreateResearchLicenseOperation where
  researchExternalId : Name
  licenser : Name
  licensee : Name
  fee : Option Asset
  expirationTime : Option Time
deriving DecidableEq, Repr

/-- The balances of an asset, by their owners. -/
def holdersOf (balances : List Balance) (symbol : AssetSymbol) : List Name :=
  (balances.filter fun balance => balance.symbol == symbol).map Balance.owner

/-- Pays one holder of a security token the share of its present balance. -/
def payHolder (assets : List AssetObject) (token : AssetObject) (revenue : Asset)
    (progress : List Balance × Int) (holder : Name) : Except String (List Balance × Int) := do
  let balance ← getAccountBalance progress.1 holder token.symbol
  let share ← weightedShare revenue.amount balance.amount token.currentSupply
  let balances ← adjustAccountBalance assets progress.1 holder ⟨share, revenue.symbol⟩
  return (balances, progress.2 + share)

/-- Shares the part of the fee that falls to one security token. -/
def payHolders (assets : List AssetObject) (fee : Asset) (progress : List Balance × Int)
    (token : AssetObject) : Except String (List Balance × Int) :=
  let share := token.licenseRevenueHoldersShare.elim 0 (preciseShare fee.amount)
  (holdersOf progress.1 token.symbol).foldlM (payHolder assets token ⟨share, fee.symbol⟩) progress

/-- The security tokens of a research, in the order of their names. -/
def beneficiaryTokens (assets : List AssetObject) (research : Name) : List AssetObject :=
  (assets.filter fun asset => asset.tokenizedResearch == some research).insertionSort
    fun first second => first.stringSymbol ≤ second.stringSymbol

/-- The research group keeps what the holders do not get. -/
def payRest (assets : List AssetObject) (balances : List Balance) (group : Name) (rest : Asset) :
    Except String (List Balance) :=
  if 0 < rest.amount then adjustAccountBalance assets balances group rest else return balances

/-- The payments for a license. -/
def payLicenseFee (state : State) (research : Research) (licensee : Name) (fee : Asset) :
    Except String State := do
  require (accountBalanceExists state.balances licensee fee.symbol)
    "${1} asset balance does not exist for ${2} account"
  let balance ← getAccountBalance state.balances licensee fee.symbol
  let funded ← (Asset.mk balance.amount balance.symbol).atLeast fee
  require (funded = true) "Account ${1} balance is not enough."
  let (paid, revenue) ← (beneficiaryTokens state.assets research.externalId).foldlM
    (payHolders state.assets fee) (state.balances, 0)
  require (revenue ≤ fee.amount) "Total revenue amount ${1} is more than fee amount ${2}"
  let kept ← payRest state.assets paid research.researchGroup ⟨fee.amount - revenue, fee.symbol⟩
  let balances ← adjustAccountBalance state.assets kept licensee fee.neg
  return { state with balances }

namespace CreateResearchLicenseOperation

/-- `license_conditions_validator` is called with the variant and does not visit it. So its
    overload for `licensing_fee_type`, which asks for a positive fee, is not chosen. -/
def validate (op : CreateResearchLicenseOperation) : Except String Unit := do
  validateAccountName op.licenser
  validateAccountName op.licensee
  validate160BitsHexadecimalString op.researchExternalId

def apply (state : State) (op : CreateResearchLicenseOperation) : Except String State := do
  require (state.accountExists op.licenser) "Account ${1} does not exist"
  require (state.accountExists op.licensee) "Account ${1} does not exist"
  let group ← state.getResearchGroupByAccount op.licenser
  let research ← state.getResearch op.researchExternalId
  require (group.account = research.researchGroup)
    "Research ${1} is not owned by ${2} research group"
  require (∀ expiration ∈ op.expirationTime, state.props.time < expiration)
    "Research license is expired on creation"
  match op.fee with
  | none => return state
  | some fee => payLicenseFee state research op.licensee fee

end CreateResearchLicenseOperation

/-! ## Vesting balances in the books -/

variable {kept : Aspect → Prop} {state next : State}

/-- Rewriting the vesting balances brings in what they change. -/
theorem posted_vestings {vestings : List VestingBalance} {change : AssetSymbol → Int}
    (sum : ∀ symbol, total (fun vesting => vesting.balance.under symbol) vestings =
      total (fun vesting => vesting.balance.under symbol) state.vestings + change symbol)
    (core : (∀ vesting ∈ state.vestings, vesting.balance.symbol = deipSymbol) →
      ∀ vesting ∈ vestings, vesting.balance.symbol = deipSymbol) :
    Posted kept change state { state with vestings } where
  sound before := { before with solvent := before.solvent }
  closed _ _ member _ := member
  surplus _ symbol := by
    have changed := sum symbol
    simp only [surplus, held, outstanding]
    omega
  holds _ aspect _ before := by
    cases aspect with
    | reserved => exact before
    | counted => exact { before with elected := before.elected }
    | rated => exact { before with tokens := before.tokens }
    | rooted => exact { before with balances := before.balances }
    | coreOnly => exact { before with vestings := core before.vestings }
    | awarded _ _ => exact before

theorem CreateVestingBalanceOperation.apply_posted {op : CreateVestingBalanceOperation}
    (valid : op.validate = .ok ()) (applied : op.apply state = .ok next) :
    Posted kept (fun _ => 0) state next := by
  simp only [validate, bind_ok_iff, require_ok_iff] at valid
  obtain ⟨_, compared, _, rfl, _⟩ := valid
  obtain ⟨core, positive⟩ := Asset.above_zero_iff.mp compared
  simp only [apply, bind_ok_iff, pure_ok_iff] at applied
  obtain ⟨_, _, _, _, _, _, _, _, _, _, balances, adjusted, _, _, rfl⟩ := applied
  have debit : op.balance.neg.amount < 0 := by
    simp only [Asset.neg]
    omega
  have paid := adjustAccountBalance_posted kept state (.inr debit) adjusted
  refine (paid.trans (posted_vestings (fun symbol => total_append _ _ _) ?_)).congr
    fun _ symbol => ?_
  · exact fun before => forall_append_singleton before core
  · rw [Asset.under_neg]
    simp

theorem withdrawVesting_posted {vestings : List VestingBalance} {vesting : VestingBalance}
    {amount : Asset} {id : Nat}
    (found : state.vestings.find? (fun vesting => vesting.id == id) = some vesting)
    (withdrawn : withdrawVesting state.vestings vesting amount = .ok vestings) :
    Posted kept amount.neg.under state { state with vestings } := by
  have own : vesting.id = id := by simpa using List.find?_some found
  subst own
  simp only [withdrawVesting, bind_ok_iff, pure_ok_iff, Asset.sub_ok_iff] at withdrawn
  obtain ⟨_, _, _, _, _, ⟨same, rfl⟩, _, _, rfl⟩ := withdrawn
  apply posted_vestings
  · intro symbol
    rw [total_modifyFirst _ found, Asset.under_neg]
    simp only [Asset.under, same]
    split <;> omega
  · intro before
    refine forall_modifyFirst before fun row hit core => ?_
    rw [Option.some.inj (hit.symm.trans found)] at core
    exact core

theorem WithdrawVestingBalanceOperation.apply_posted {op : WithdrawVestingBalanceOperation}
    (applied : op.apply state = .ok next) : Posted kept (fun _ => 0) state next := by
  simp only [apply, bind_ok_iff, require_ok_iff, expect_ok_iff] at applied
  obtain ⟨_, exists_, vesting, found, _, _, applied⟩ := applied
  split at applied
  · simp only [bind_ok_iff, pure_ok_iff] at applied
    obtain ⟨_, _, _, _, _, _, vestings, withdrawn, balances, adjusted, rfl⟩ := applied
    have taken : Posted kept _ state _ := withdrawVesting_posted found withdrawn
    have paid : Posted kept op.amount.under { state with vestings } _ :=
      adjustAccountBalance_posted kept { state with vestings }
        (.inl fun _ => State.known_of_exists exists_) adjusted
    refine (taken.trans paid).congr fun _ symbol => ?_
    rw [Asset.under_neg]
    omega
  · rw [pure_ok_iff] at applied
    exact applied ▸ Posted.refl kept state

/-! ## Licenses in the books -/

/-- What the holders were paid so far. -/
def Revenue (may : Name → AssetSymbol → Prop) (symbol : AssetSymbol) (before : List Balance)
    (progress : List Balance × Int) : Prop :=
  Moved may (Asset.mk progress.2 symbol).under before progress.1

section Licenses

variable {may : Name → AssetSymbol → Prop} {assets : List AssetObject} {balances : List Balance}

theorem payHolder_revenue {token : AssetObject} (revenue : Asset)
    {progress next : List Balance × Int} {holder : Name}
    (across : ∀ owner symbol other, may owner symbol → may owner other)
    (before : Revenue may revenue.symbol balances progress) (owned : OwnedBy may balances)
    (paid : payHolder assets token revenue progress holder = .ok next) :
    Revenue may revenue.symbol balances next := by
  simp only [payHolder, getAccountBalance, bind_ok_iff, expect_ok_iff, pure_ok_iff] at paid
  obtain ⟨balance, found, share, _, after, adjusted, rfl⟩ := paid
  have member := List.mem_of_find?_eq_some found
  have own := (Balance.belongs_iff.mp (List.find?_some found)).1
  have known : may holder (Asset.mk share revenue.symbol).symbol := by
    rw [← own]
    exact across _ _ _ (before.owned owned balance member)
  have moved := adjustAccountBalance_moved may (.inl known) adjusted
  refine (before.trans moved).congr fun symbol => ?_
  simp only [Asset.under]
  split <;> omega

theorem payHolders_revenue {token : AssetObject} {fee : Asset}
    {progress next : List Balance × Int}
    (across : ∀ owner symbol other, may owner symbol → may owner other)
    (before : Revenue may fee.symbol balances progress) (owned : OwnedBy may balances)
    (paid : payHolders assets fee progress token = .ok next) :
    Revenue may fee.symbol balances next := by
  refine foldlM_invariant (fun _ progress => Revenue may fee.symbol balances progress)
    ?_ before paid
  intro holder rest progress next before stepped
  exact payHolder_revenue ⟨token.licenseRevenueHoldersShare.elim 0 (preciseShare fee.amount),
    fee.symbol⟩ across before owned stepped

theorem payRest_moved {after : List Balance} {group : Name} {rest : Asset}
    (positive : 0 ≤ rest.amount) (owned : may group rest.symbol)
    (paid : payRest assets balances group rest = .ok after) :
    Moved may rest.under balances after := by
  unfold payRest at paid
  split at paid
  · exact adjustAccountBalance_moved may (.inl owned) paid
  · rename_i none
    rw [pure_ok_iff] at paid
    subst paid
    refine (Moved.refl may balances).congr fun symbol => ?_
    have zero : rest.amount = 0 := by omega
    simp [Asset.under, zero]

/-- The payments for a license leave all of the fee's asset in the balances. -/
theorem payLicenseFee_moved {research : Research} {licensee : Name} {fee : Asset}
    (across : ∀ owner symbol other, may owner symbol → may owner other)
    (owned : OwnedBy may state.balances) (group : may research.researchGroup fee.symbol)
    (known : may licensee fee.symbol)
    (paid : payLicenseFee state research licensee fee = .ok next) :
    ∃ after, next = { state with balances := after } ∧
      Moved may (fun _ => 0) state.balances after := by
  simp only [payLicenseFee, bind_ok_iff, require_ok_iff, pure_ok_iff] at paid
  obtain ⟨_, _, _, _, _, _, _, _, ⟨after, revenue⟩, ran, _, bounded, rest, keeps, final, debited,
    rfl⟩ := paid
  have shares : Revenue may fee.symbol state.balances (after, revenue) := by
    refine foldlM_invariant (fun _ progress => Revenue may fee.symbol state.balances progress)
      ?_ ?_ ran
    · intro token tokens progress next before stepped
      exact payHolders_revenue across before owned stepped
    · refine (Moved.refl may state.balances).congr fun symbol => ?_
      simp [Asset.under]
  have positive : 0 ≤ (Asset.mk (fee.amount - revenue) fee.symbol).amount := Int.sub_nonneg.mpr bounded
  have left : Moved may _ after rest := payRest_moved positive group keeps
  have debit : may licensee fee.neg.symbol := known
  have taken := adjustAccountBalance_moved may (.inl debit) debited
  refine ⟨final, rfl, ((shares.trans left).trans taken).congr fun symbol => ?_⟩
  rw [Asset.under_neg]
  simp only [Asset.under]
  split <;> omega

end Licenses

theorem payLicenseFee_posted {research : Research} {licensee : Name} {fee : Asset}
    (grounded : ∀ symbol, grounds state research.researchGroup symbol)
    (known : ∀ symbol, grounds state licensee symbol)
    (paid : payLicenseFee state research licensee fee = .ok next) :
    Posted kept (fun _ => 0) state next := by
  obtain ⟨after, rfl, moved⟩ := payLicenseFee_moved (fun _ _ _ grounded => grounded)
    (Rooted.ownedBy state) (grounded _) (known _) paid
  exact moved.posted

theorem CreateResearchLicenseOperation.apply_posted {op : CreateResearchLicenseOperation}
    (applied : op.apply state = .ok next) : Posted kept (fun _ => 0) state next := by
  simp only [apply, bind_ok_iff, require_ok_iff] at applied
  obtain ⟨_, _, _, licensee, _, _, research, got, _, _, _, _, applied⟩ := applied
  have grounded : ∀ symbol, grounds state research.researchGroup symbol := fun _ rooted =>
    rooted.researches research (List.mem_of_find?_eq_some (expect_ok_iff.mp got))
  split at applied
  · rw [pure_ok_iff] at applied
    exact applied ▸ Posted.refl kept state
  · exact payLicenseFee_posted grounded (fun _ _ => State.known_of_exists licensee) applied

end DeipChain.Ledger
