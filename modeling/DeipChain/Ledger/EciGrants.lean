import DeipChain.Ledger.CheckedShares
import DeipChain.Lib.Outcome
import Mathlib.Data.List.Sort

/-!
# Grants that are distributed by assessments

A grant of this kind waits for applications of researches until it is closed. Then it goes back to the
grantor if there are too few, and else to the researches that are assessed best in its main
discipline. The researches are sorted into a multimap and copied into a vector of a fixed length: a
shorter copy leaves entries for the research of id zero, a longer one writes beyond the end, and what
the program does from there on is not defined.

What the distribution does not share out is paid on top, but the supply of the grant is adjusted by the
shares alone, and has to stay above zero. The grant remains in the index.
-/
namespace DeipChain.EciGrants

open Ledger Result Table

/-! ## The objects -/

/-- `funding_opportunity_object`, of the type that is distributed by assessments. -/
structure FundingOpportunity where
  id : Nat
  fundingOpportunityNumber : Name
  grantor : Name
  targetDisciplines : List Nat
  amount : Asset
  currentSupply : Asset
  minNumberOfPositiveReviews : Nat
  minNumberOfApplications : Nat
  maxNumberOfResearchToGrant : Nat
  closeDate : Time
deriving DecidableEq, Repr

/-- `grant_application_object` -/
structure GrantApplication where
  id : Nat
  fundingOpportunityNumber : Name
  researchId : Nat
deriving DecidableEq, Repr

/-- `research_object` -/
structure Research where
  id : Nat
  externalId : Name
  researchGroup : Name
  researchGroupId : Nat
  numberOfPositiveReviews : Nat
deriving DecidableEq, Repr

/-- `research_discipline_relation_object` -/
structure ResearchDisciplineRelation where
  researchId : Nat
  disciplineId : Nat
  researchEci : Int
deriving DecidableEq, Repr

/-- `award_object`, with the fields that the distribution fills besides. -/
structure Award extends Ledger.Award where
  universityExternalId : Name
  creator : Name
deriving DecidableEq, Repr

/-- `award_recipient_object`, with the fields that the distribution fills besides. -/
structure AwardRecipient extends Ledger.AwardRecipient where
  researchId : Nat
  researchExternalId : Name
deriving DecidableEq, Repr

/-- The objects that other operations change. Awards and their recipients are never removed, so that
their ids are their places. -/
structure World where
  assets : List AssetObject
  balances : List Balance
  applications : List GrantApplication
  researches : List Research
  relations : List ResearchDisciplineRelation
  groups : List ResearchGroup
  awards : List Award
  recipients : List AwardRecipient
  /-- The numbers of the funding opportunities of the other types. -/
  otherNumbers : List Name
deriving DecidableEq, Repr

/-- A credit, with the id of the grant that it comes from. -/
structure Payment where
  opportunity : Nat
  account : Name
  amount : Asset
deriving DecidableEq, Repr

/-- The object store. Two fields are not in the code: the payments so far, and the grants that were
come to after they were closed. -/
structure State extends World where
  opportunities : List FundingOpportunity
  nextOpportunity : Nat
  headBlockTime : Time
  headBlockNumber : Nat
  paid : List Payment
  processed : List Nat
deriving DecidableEq, Repr

namespace State

/-! ## The services -/

/-- `get_grant_applications_by_funding_opportunity_number` -/
def applicationsOf (number : Name) (state : State) : List GrantApplication :=
  state.applications.filter fun application => application.fundingOpportunityNumber == number

/-- `delete_grant_appication_by_id` -/
def deleteGrantApplication (state : State) (id : Nat) : Except String State := do
  let _ ← expect (state.applications.find? fun application => application.id == id) unknownKey
  return { state with applications := state.applications.eraseP fun application => application.id == id }

def getResearch (id : Nat) (state : State) : Except String Research :=
  expect (state.researches.find? fun research => research.id == id) unknownKey

def getResearchGroup (id : Nat) (state : State) : Except String ResearchGroup :=
  expect (state.groups.find? fun group => group.id == id) unknownKey

/-- `get_research_discipline_relation_by_research_and_discipline` -/
def getRelation (researchId disciplineId : Nat) (state : State) :
    Except String ResearchDisciplineRelation :=
  expect (state.relations.find? fun relation =>
    relation.researchId == researchId && relation.disciplineId == disciplineId) unknownKey

/-- `adjust_account_balance`, for a payment of a grant. -/
def pay (opportunity : Nat) (account : Name) (amount : Asset) (state : State) : Except String State := do
  let balances ← adjustAccountBalance state.assets state.balances account amount
  return { state with balances, paid := state.paid ++ [⟨opportunity, account, amount⟩] }

def createAward (award : Award) (state : State) : Except String State := do
  require (∀ other ∈ state.awards, other.awardNumber ≠ award.awardNumber) uniquenessViolated
  return { state with awards := state.awards ++ [award] }

def createAwardRecipient (recipient : AwardRecipient) (state : State) : Except String State := do
  require (∀ other ∈ state.recipients, other.toAwardRecipient.key ≠ recipient.toAwardRecipient.key)
    uniquenessViolated
  return { state with recipients := state.recipients ++ [recipient] }

def getAward (id : Nat) (state : State) : Except String Award :=
  expect state.awards[id]? "Award id:${1} does not exist"

def getAwardRecipient (id : Nat) (state : State) : Except String AwardRecipient :=
  expect state.recipients[id]? "Award recipient id:${1} does not exists"

def adjustExpenses (id : Nat) (delta : Asset) (state : State) : Except String State := do
  let recipient ← state.getAwardRecipient id
  let totalExpenses ← recipient.totalExpenses.add delta
  return { state with recipients := state.recipients.set id { recipient with totalExpenses } }

/-- `remove_funding_opportunity` -/
def removeFundingOpportunity (opportunity : FundingOpportunity) (state : State) : Except String State := do
  let paid ← state.pay opportunity.id opportunity.grantor opportunity.amount
  return { paid with opportunities := paid.opportunities.eraseP fun other => other.id == opportunity.id }

/-- `adjust_funding_opportunity_supply`. The message is about negative supplies; the check is for those
that are not positive. -/
def adjustFundingOpportunitySupply (id : Nat) (delta : Asset) (state : State) : Except String State := do
  let opportunity ← expect (state.opportunities.find? fun opportunity => opportunity.id == id)
    "FO with ${id} does not exist"
  require (0 < opportunity.currentSupply.amount + delta.amount)
    "Funding opportunity supply can not be negative. Current:${1} , Delta:{2}"
  let currentSupply ← opportunity.currentSupply.add delta
  return { state with
    opportunities := modifyFirst (fun opportunity => opportunity.id == id)
      (fun opportunity => { opportunity with currentSupply }) state.opportunities }

end State

/-! ## The distribution -/

/-- The variables of the loop over the researches. -/
structure Granting where
  state : State
  used : Asset
  maxAward : Nat
  maxAwardRecipient : Nat
  researchGroupWithMaxAward : Nat
  maxEci : Int

/-- A round of the loop over the researches. -/
def Granting.award (hash : Name → Name) (opportunity : FundingOpportunity) (totalEci : Int)
    (granting : Granting) (researchEci : Int × Nat) : Except String Granting := do
  let state := granting.state
  let reward ← Checked.weightedShareOf opportunity.amount researchEci.1 totalEci
  let research ← state.getResearch researchEci.2
  let group ← state.getResearchGroup research.researchGroupId
  let block := toString state.headBlockNumber
  let awardNumber := hash (opportunity.fundingOpportunityNumber ++ research.externalId ++ block)
  let awarded ← state.createAward
    { fundingOpportunityNumber := opportunity.fundingOpportunityNumber
      awardNumber
      awardee := group.account
      amount := reward
      universityId := research.researchGroupId
      universityExternalId := research.researchGroup
      universityOverhead := ⟨0, 2⟩
      creator := ""
      status := .approved }
  let received ← awarded.createAwardRecipient
    { awardNumber
      subawardNumber := hash (opportunity.fundingOpportunityNumber ++ research.externalId ++
        group.account ++ block)
      fundingOpportunityNumber := opportunity.fundingOpportunityNumber
      awardee := group.account
      source := ""
      totalAmount := reward
      totalExpenses := ⟨0, reward.symbol⟩
      researchId := research.id
      researchExternalId := research.externalId
      status := .confirmed }
  let paid ← received.pay opportunity.id group.account reward
  let expensed ← paid.adjustExpenses state.recipients.length reward
  let used ← granting.used.add reward
  return if granting.maxEci < researchEci.1 then
    { state := expensed
      used
      maxAward := state.awards.length
      maxAwardRecipient := state.recipients.length
      researchGroupWithMaxAward := research.researchGroupId
      maxEci := researchEci.1 }
  else { granting with state := expensed, used }

/-- What is left after the shares goes to the research with the largest one. -/
def Granting.payRemainder (opportunity : FundingOpportunity) (granting : Granting) :
    Except String State := do
  let state := granting.state
  let remainder ← opportunity.currentSupply.sub granting.used
  let award ← state.getAward granting.maxAward
  let recipient ← state.getAwardRecipient granting.maxAwardRecipient
  let group ← state.getResearchGroup granting.researchGroupWithMaxAward
  let paid ← state.pay opportunity.id group.account remainder
  let amount ← award.amount.add remainder
  let totalAmount ← recipient.totalAmount.add remainder
  let totalExpenses ← recipient.totalExpenses.add remainder
  return { paid with
    awards := paid.awards.set granting.maxAward { award with amount }
    recipients := paid.recipients.set granting.maxAwardRecipient
      { recipient with totalAmount, totalExpenses } }

namespace State

/-- The applications sorted by the assessments of their researches in the main discipline, which is the
smallest of the target disciplines. Those of one assessment stay in their order. -/
def researchesEci (opportunity : FundingOpportunity) (state : State) :
    Except String (List (Int × Nat)) :=
  match opportunity.targetDisciplines.min? with
  | none => return []
  | some parent => do
    let relations ← (state.applicationsOf opportunity.fundingOpportunityNumber).mapM fun application =>
      state.getRelation application.researchId parent
    return (relations.map fun relation => (relation.researchEci, relation.researchId)).insertionSort
      fun one other => other.1 ≤ one.1

/-- The distribution to the researches of the vector. -/
def grant (hash : Name → Name) (opportunity : FundingOpportunity) (researches : List (Int × Nat))
    (state : State) : Except String State := do
  let totalEci := (researches.map Prod.fst).sum
  let granting ← researches.foldlM (Granting.award hash opportunity totalEci)
    { state
      used := ⟨0, opportunity.amount.symbol⟩
      maxAward := 0
      maxAwardRecipient := 0
      researchGroupWithMaxAward := 0
      maxEci := 0 }
  -- this comparison is that of a warning
  let _ ← granting.used.above opportunity.currentSupply
  let below ← granting.used.below opportunity.currentSupply
  let granted ← if below then granting.payRemainder opportunity else pure granting.state
  granted.adjustFundingOpportunitySupply opportunity.id granting.used.neg

/-- A function that changes the objects. -/
def attempt (state : State) (result : Except String State) : Outcome String State :=
  match result with
  | .ok next => .returned next
  | .error error => .thrown error state

/-- `distribute_funding_opportunity` -/
def distributeFundingOpportunity (hash : Name → Name) (opportunity : FundingOpportunity)
    (state : State) : Outcome String State :=
  match state.researchesEci opportunity with
  | .error error => .thrown error state
  | .ok researches =>
    let length := opportunity.maxNumberOfResearchToGrant
    if length < researches.length then .undefined state
    else state.attempt (state.grant hash opportunity
      (researches ++ List.replicate (length - researches.length) (0, 0)))

/-- The applications of researches without enough positive reviews. -/
def applicationsToDelete (opportunity : FundingOpportunity) (state : State) :
    Except String (List Nat) := do
  let reviewed ← (state.applicationsOf opportunity.fundingOpportunityNumber).mapM fun application => do
    let research ← state.getResearch application.researchId
    return (application.id, research.numberOfPositiveReviews)
  return (reviewed.filter fun entry => entry.2 < opportunity.minNumberOfPositiveReviews).map Prod.fst

/-- A round of the loop in `process_funding_opportunities`. -/
def processFundingOpportunity (hash : Name → Name) (opportunity : FundingOpportunity) (begun : State) :
    Outcome String State :=
  let state := { begun with processed := opportunity.id :: begun.processed }
  let number := opportunity.fundingOpportunityNumber
  if (state.applicationsOf number).length < opportunity.minNumberOfApplications then
    state.attempt (state.removeFundingOpportunity opportunity)
  else
    match do (← state.applicationsToDelete opportunity).foldlM deleteGrantApplication state with
    | .error error => .thrown error state
    | .ok left =>
      if (left.applicationsOf number).length = 0 then
        left.attempt (left.removeFundingOpportunity opportunity)
      else left.distributeFundingOpportunity hash opportunity

/-- The grants that are closed, in the order of their index. -/
def due (state : State) : List FundingOpportunity :=
  (state.opportunities.insertionSort fun one other => one.closeDate ≤ other.closeDate).takeWhile
    fun opportunity => opportunity.closeDate ≤ state.headBlockTime

/-- `process_funding_opportunities`. The rounds change no grant but their own, so that the objects are
those of the start. -/
def processFundingOpportunities (hash : Name → Name) (state : State) : Outcome String State :=
  Outcome.each (fun _ state opportunity => state.processFundingOpportunity hash opportunity) state
    state.due

end State

/-! ## Blocks -/

/-- The arguments of `create_grant_with_eci_evaluation_distribution`, as the operation validates them. -/
structure Terms where
  grantor : Name
  amount : Asset
  targetDisciplines : List Nat
  fundingOpportunityNumber : Name
  minNumberOfPositiveReviews : Nat
  minNumberOfApplications : Nat
  maxNumberOfResearchToGrant : Nat
  closeDate : Time
  amountPositive : 0 < amount.amount
  maxPositive : 0 < maxNumberOfResearchToGrant
  maxAtMost : maxNumberOfResearchToGrant ≤ minNumberOfApplications

/-- The object of a new grant. -/
def Terms.opportunity (terms : Terms) (id : Nat) : FundingOpportunity where
  id := id
  fundingOpportunityNumber := terms.fundingOpportunityNumber
  grantor := terms.grantor
  targetDisciplines := terms.targetDisciplines
  amount := terms.amount
  currentSupply := terms.amount
  minNumberOfPositiveReviews := terms.minNumberOfPositiveReviews
  minNumberOfApplications := terms.minNumberOfApplications
  maxNumberOfResearchToGrant := terms.maxNumberOfResearchToGrant
  closeDate := terms.closeDate

/-- `create_grant_with_eci_evaluation_distribution` -/
def State.createGrant (terms : Terms) (state : State) : Except String State := do
  let balances ← adjustAccountBalance state.assets state.balances terms.grantor terms.amount.neg
  require (terms.fundingOpportunityNumber ∉ state.otherNumbers ∧ ∀ other ∈ state.opportunities,
    other.fundingOpportunityNumber ≠ terms.fundingOpportunityNumber) uniquenessViolated
  return { state with
    balances
    opportunities := state.opportunities ++ [terms.opportunity state.nextOpportunity]
    nextOpportunity := state.nextOpportunity + 1 }

/-- A block: what its operations make of the other objects, and the grants that they create. -/
structure Block where
  time : Time
  number : Nat
  world : World
  grants : List Terms

/-- The state before the grants are processed. An operation that throws is not in the block. -/
def State.begin (state : State) (block : Block) : State :=
  block.grants.foldl
    (fun state terms =>
      match state.createGrant terms with
      | .ok next => next
      | .error _ => state)
    { state with
      toWorld := block.world
      headBlockTime := block.time
      headBlockNumber := block.number }

end DeipChain.EciGrants
