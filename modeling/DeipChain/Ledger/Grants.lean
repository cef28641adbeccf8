import DeipChain.Ledger.Supplies

/-!
# Grants

A grantor puts tokens into a funding opportunity, from which officers of an
organization award them, or into a discipline supply. Grants with an application
window are refused: the operation is only valid when the window closes before it
opens, and it only applies when the window opens before it closes.
-/
namespace DeipChain.Ledger

open DeipChain.Result DeipChain.Table

/-- `announced_application_window_contract_type`. -/
structure ApplicationWindow where
  reviewCommitteeId : Name
  minNumberOfApplications : Nat
  maxNumberOfResearchToGrant : Nat
  openDate : Time
  closeDate : Time
deriving DecidableEq, Repr

/-- `funding_opportunity_announcement_contract_type`. -/
structure FundingAnnouncement where
  organizationId : Name
  reviewCommitteeId : Name
  treasuryId : Name
  awardCeiling : Asset
  awardFloor : Asset
  expectedNumberOfAwards : Nat
  openDate : Time
  closeDate : Time
  officers : List Name
deriving DecidableEq, Repr

/-- `discipline_supply_announcement_contract_type`. -/
structure SupplyAnnouncement where
  startTime : Time
  endTime : Time
  isExtendable : Bool
deriving DecidableEq, Repr

/-- `grant_distribution_models`. -/
inductive DistributionModel where
  | announcedApplicationWindow (contract : ApplicationWindow)
  | fundingOpportunityAnnouncement (contract : FundingAnnouncement)
  | disciplineSupplyAnnouncement (contract : SupplyAnnouncement)
deriving DecidableEq, Repr

/-! ## The funding opportunities -/

namespace State

def researchGroupExists (state : State) (account : Name) : Bool :=
  state.groups.any fun group => group.account == account

def getDiscipline (state : State) (externalId : Name) : Except String Discipline :=
  expect (state.disciplines.find? fun discipline => discipline.externalId == externalId) unknownKey

def getFundingOpportunity (state : State) (number : Name) : Except String FundingOpportunity :=
  expect (state.opportunities.find? fun opportunity =>
    opportunity.fundingOpportunityNumber == number) "FO with ${1} does not exist"

end State

/-- `create_grant_with_officer_evaluation_distribution`, and the part of
    `create_grant_with_eci_evaluation_distribution` that it shares. -/
def createFundingOpportunity (state : State) (opportunity : FundingOpportunity) :
    Except String State := do
  let balances ← adjustAccountBalance state.assets state.balances opportunity.grantor
    opportunity.amount.neg
  require (∀ other ∈ state.opportunities,
    other.fundingOpportunityNumber ≠ opportunity.fundingOpportunityNumber) uniquenessViolated
  return { state with balances, opportunities := state.opportunities ++ [opportunity] }

def adjustFundingOpportunitySupply (opportunities : List FundingOpportunity) (id : Nat)
    (delta : Asset) : Except String (List FundingOpportunity) := do
  let opportunity ← expect (opportunities.find? fun opportunity => opportunity.id == id)
    "FO with ${id} does not exist"
  require (0 < opportunity.currentSupply.amount + delta.amount)
    "Funding opportunity supply can not be negative. Current:${1} , Delta:{2}"
  let currentSupply ← opportunity.currentSupply.add delta
  return modifyFirst (fun opportunity => opportunity.id == id)
    (fun opportunity => { opportunity with currentSupply }) opportunities

/-! ## The evaluator -/

structure CreateGrantOperation where
  externalId : Name
  grantor : Name
  amount : Asset
  targetDisciplines : List Name
  distributionModel : DistributionModel
deriving DecidableEq, Repr

namespace CreateGrantOperation

def validateDistributionModel (op : CreateGrantOperation) : Except String Unit :=
  match op.distributionModel with
  | .announcedApplicationWindow contract => do
    require (0 < contract.minNumberOfApplications)
      "Min number of grant applications must be greater than 0"
    require (contract.maxNumberOfResearchToGrant ≤ contract.minNumberOfApplications)
      "Min number of grant applications must be equal or greater than max number of research"
    require (0 < contract.maxNumberOfResearchToGrant)
      "Max number of research must be greater than 0"
    require (contract.closeDate < contract.openDate) "Grant applications apply period is not valid"
  | .fundingOpportunityAnnouncement contract => do
    require (op.grantor ∈ contract.officers)
      "Funding opportunity officers list should include the grantor ${1}"
    let ceiling ← contract.awardCeiling.atMost op.amount
    require (ceiling = true) "Award ceiling amount must be less than total amount"
    let floor ← contract.awardFloor.atMost contract.awardCeiling
    require (floor = true) "Award floor must be less than total amount"
    require (0 < contract.expectedNumberOfAwards) "Expected number of awards must be specified"
    require (contract.openDate < contract.closeDate) "Close date must be greater than open date"
  | .disciplineSupplyAnnouncement contract => do
    require (op.targetDisciplines.length = 1) "Must be only 1 target discipline in discipline supply."
    require (contract.startTime < contract.endTime) "Invalid discipline supply duration."

def validate (op : CreateGrantOperation) : Except String Unit := do
  let positive ← op.amount.above ⟨0, op.amount.symbol⟩
  require (positive = true) "Amount is required"
  require (op.targetDisciplines.length ≠ 0) "Disciplines list is required"
  op.validateDistributionModel

def openWindow (state : State) (op : CreateGrantOperation) (contract : ApplicationWindow) :
    Except String State := do
  require (state.researchGroupExists contract.reviewCommitteeId)
    "Review committee ${rg} does not exists"
  require (state.props.time ≤ contract.openDate) "Start date must be greater than now"
  require (contract.openDate < contract.closeDate) "Open date must be earlier than close date"
  createFundingOpportunity state
    { id := state.opportunities.length
      organizationId := 0
      treasuryId := 0
      grantor := op.grantor
      fundingOpportunityNumber := op.externalId
      amount := op.amount
      currentSupply := op.amount
      officers := [] }

def announce (state : State) (op : CreateGrantOperation) (contract : FundingAnnouncement) :
    Except String State := do
  require (state.researchGroupExists contract.organizationId) "Organization ${1} does not exists"
  require (state.researchGroupExists contract.reviewCommitteeId)
    "Review committee ${1} does not exists"
  require (state.researchGroupExists contract.treasuryId) "Treasury ${1} does not exists"
  let organization ← state.getResearchGroupByAccount contract.organizationId
  let treasury ← state.getResearchGroupByAccount contract.treasuryId
  require (∀ officer ∈ contract.officers, state.isResearchGroupMember officer organization.id)
    "Account ${1} is not a member of ${2} organization and can not be programm officer"
  require (state.props.time ≤ contract.openDate) "Open date must be greater than now"
  require (contract.openDate < contract.closeDate) "Open date must be earlier than close date"
  createFundingOpportunity state
    { id := state.opportunities.length
      organizationId := organization.id
      treasuryId := treasury.id
      grantor := op.grantor
      fundingOpportunityNumber := op.externalId
      amount := op.amount
      currentSupply := op.amount
      officers := contract.officers }

/-- The target of a discipline supply is the smallest id in the set of disciplines. -/
def supply (state : State) (op : CreateGrantOperation) (contract : SupplyAnnouncement)
    (targets : List Nat) : Except String State := do
  let target ← expect targets.min? unknownKey
  createDisciplineSupply state
    { grantor := op.grantor
      balance := op.amount
      targetDiscipline := target
      endTime := contract.endTime
      isExtendable := contract.isExtendable }

def apply (state : State) (op : CreateGrantOperation) : Except String State := do
  require (state.accountExists op.grantor) "Account ${a} does not exists"
  require (state.assets.any fun asset => asset.symbol == op.amount.symbol) "Asset ${s} does not exists"
  let disciplines ← op.targetDisciplines.mapM state.getDiscipline
  let targets := disciplines.map Discipline.id
  require (targets.length ≠ 0) "Grant target disciplines are not specified"
  require (accountBalanceExists state.balances op.grantor op.amount.symbol)
    "${1} asset balance does not exist for ${2} account"
  let balance ← getAccountBalance state.balances op.grantor op.amount.symbol
  require (op.amount.amount ≤ balance.amount)
    "Grantor ${g} does not have enough funds. Requested: ${ga} Actual: ${ba}"
  match op.distributionModel with
  | .announcedApplicationWindow contract => op.openWindow state contract
  | .fundingOpportunityAnnouncement contract => op.announce state contract
  | .disciplineSupplyAnnouncement contract => op.supply state contract targets

end CreateGrantOperation

/-! ## Grants in the books -/

variable {kept : Aspect → Prop} {state next : State}

/-- Rewriting the funding opportunities brings in what their supplies change. -/
theorem posted_opportunities {opportunities : List FundingOpportunity}
    {change : AssetSymbol → Int}
    (sum : ∀ symbol, total (fun opportunity => opportunity.currentSupply.under symbol) opportunities =
      total (fun opportunity => opportunity.currentSupply.under symbol) state.opportunities +
        change symbol)
    (core : kept .coreOnly → (∀ opportunity ∈ state.opportunities,
        opportunity.amount.symbol = deipSymbol ∧ opportunity.currentSupply = opportunity.amount) →
      ∀ opportunity ∈ opportunities,
        opportunity.amount.symbol = deipSymbol ∧ opportunity.currentSupply = opportunity.amount) :
    Posted kept change state { state with opportunities } where
  sound before := { before with solvent := before.solvent }
  closed _ _ member _ := member
  surplus _ symbol := by
    have changed := sum symbol
    simp only [surplus, held, outstanding]
    omega
  holds _ aspect keeps before := by
    cases aspect with
    | reserved => exact before
    | counted => exact { before with elected := before.elected }
    | rated => exact { before with tokens := before.tokens }
    | rooted => exact { before with balances := before.balances }
    | coreOnly => exact { before with opportunities := core keeps before.opportunities }
    | awarded _ _ => exact before

/-- A new funding opportunity takes its supply from the grantor. -/
theorem createFundingOpportunity_posted {opportunity : FundingOpportunity}
    (positive : 0 < opportunity.amount.amount)
    (full : opportunity.currentSupply = opportunity.amount)
    (core : kept .coreOnly → opportunity.amount.symbol = deipSymbol)
    (created : createFundingOpportunity state opportunity = .ok next) :
    Posted kept (fun _ => 0) state next := by
  simp only [createFundingOpportunity, bind_ok_iff, require_ok_iff, pure_ok_iff] at created
  obtain ⟨balances, adjusted, _, _, rfl⟩ := created
  have debit : opportunity.amount.neg.amount < 0 := by
    simp only [Asset.neg]
    omega
  have paid := adjustAccountBalance_posted kept state (.inr debit) adjusted
  have added : Posted kept opportunity.amount.under { state with balances } { state with
      balances, opportunities := state.opportunities ++ [opportunity] } := by
    apply posted_opportunities
    · intro symbol
      simp [full]
    · exact fun keeps before => forall_append_singleton before ⟨core keeps, full⟩
  refine (paid.trans added).congr fun _ symbol => ?_
  rw [Asset.under_neg]
  omega

theorem adjustFundingOpportunitySupply_posted {opportunities : List FundingOpportunity} {id : Nat}
    {delta : Asset} (spends : ¬ kept .coreOnly)
    (adjusted : adjustFundingOpportunitySupply state.opportunities id delta = .ok opportunities) :
    Posted kept delta.under state { state with opportunities } := by
  simp only [adjustFundingOpportunitySupply, bind_ok_iff, require_ok_iff, expect_ok_iff, pure_ok_iff,
    Asset.add_ok_iff] at adjusted
  obtain ⟨opportunity, found, _, _, _, ⟨same, rfl⟩, rfl⟩ := adjusted
  apply posted_opportunities
  · intro symbol
    rw [total_modifyFirst _ found]
    simp only [Asset.under, ← same]
    split <;> omega
  · exact fun keeps => absurd keeps spends

/-- A grant moves tokens of the grantor. -/
theorem CreateGrantOperation.apply_posted {op : CreateGrantOperation} (valid : op.validate = .ok ())
    (core : kept .coreOnly → op.amount.symbol = deipSymbol)
    (applied : op.apply state = .ok next) : Posted kept (fun _ => 0) state next := by
  simp only [validate, bind_ok_iff, require_ok_iff] at valid
  obtain ⟨positive, compared, _, rfl, _, _, model⟩ := valid
  have positive := (Asset.above_zero_iff.mp compared).2
  simp only [apply, bind_ok_iff, require_ok_iff] at applied
  obtain ⟨_, _, _, _, disciplines, _, _, _, _, _, balance, _, _, _, applied⟩ := applied
  rw [validateDistributionModel] at model
  split at applied
  · rename_i contract kind
    rw [kind] at model
    simp only [openWindow, bind_ok_iff, require_ok_iff] at model applied
    obtain ⟨_, _, _, _, _, _, closes⟩ := model
    obtain ⟨_, _, _, _, _, opens, _⟩ := applied
    exact absurd opens (Nat.lt_asymm closes)
  · simp only [announce, bind_ok_iff] at applied
    obtain ⟨_, _, _, _, _, _, _, _, _, _, _, _, _, _, _, _, created⟩ := applied
    exact createFundingOpportunity_posted positive rfl core created
  · simp only [supply, bind_ok_iff] at applied
    obtain ⟨_, _, created⟩ := applied
    exact createDisciplineSupply_posted core created

end DeipChain.Ledger
