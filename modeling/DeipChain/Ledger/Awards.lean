import DeipChain.Ledger.Grants

/-!
# Awards and their withdrawal requests

An award goes from a funding opportunity to an awardee, who passes parts of it on to
subawardees, and they to others. Once an officer approves the award its recipients are
paid. A recipient then asks for the expenses of an award by withdrawal requests, which
are certified, approved and paid, or rejected.

Every operation on a request names the subaward itself. The evaluators compare the
recipient of that subaward with the account that made the request.
-/
namespace DeipChain.Ledger

open DeipChain.Result DeipChain.Table

namespace State

def getAward (state : State) (number : Name) : Except String Award :=
  expect (state.awards.find? fun award => award.awardNumber == number) "Award NUM:${1} does not exist"

def awardExists (state : State) (number : Name) : Bool :=
  state.awards.any fun award => award.awardNumber == number

def researchExists (state : State) (externalId : Name) : Bool :=
  state.registry.researches.any fun research => research.externalId == externalId

end State

/-- The key of `by_award_and_subaward_number`. -/
def AwardRecipient.key (recipient : AwardRecipient) : Name × Name :=
  (recipient.awardNumber, recipient.subawardNumber)

/-- The key of `by_award_and_payment_number`. -/
def WithdrawalRequest.key (request : WithdrawalRequest) : Name × Name :=
  (request.awardNumber, request.paymentNumber)

def getAwardRecipient (recipients : List AwardRecipient) (awardNumber subawardNumber : Name) :
    Except String AwardRecipient :=
  expect (recipients.find? fun recipient => recipient.key == (awardNumber, subawardNumber))
    "Subward ${1}:${2} does not exists"

def getAwardWithdrawalRequest (requests : List WithdrawalRequest)
    (awardNumber paymentNumber : Name) : Except String WithdrawalRequest :=
  expect (requests.find? fun request => request.key == (awardNumber, paymentNumber))
    "Award withdrawal ${1}:${2} does not exist"

def createAward (awards : List Award) (award : Award) : Except String (List Award) := do
  require (∀ other ∈ awards, other.awardNumber ≠ award.awardNumber) uniquenessViolated
  return awards ++ [award]

def createAwardRecipient (recipients : List AwardRecipient) (recipient : AwardRecipient) :
    Except String (List AwardRecipient) := do
  require (∀ other ∈ recipients, other.key ≠ recipient.key) uniquenessViolated
  return recipients ++ [recipient]

def createAwardWithdrawalRequest (requests : List WithdrawalRequest) (request : WithdrawalRequest) :
    Except String (List WithdrawalRequest) := do
  require (∀ other ∈ requests, other.key ≠ request.key) uniquenessViolated
  return requests ++ [request]

def updateAwardStatus (awards : List Award) (number : Name) (status : AwardStatus) : List Award :=
  modifyFirst (fun award => award.awardNumber == number) (fun award => { award with status }) awards

/-- The recipients of an award, all with a new status. -/
def updateRecipientsStatus (recipients : List AwardRecipient) (number : Name)
    (status : RecipientStatus) : List AwardRecipient :=
  recipients.map fun recipient =>
    if recipient.awardNumber == number then { recipient with status } else recipient

def adjustExpenses (recipients : List AwardRecipient) (recipient : AwardRecipient) (delta : Asset) :
    Except String (List AwardRecipient) := do
  let totalExpenses ← recipient.totalExpenses.add delta
  return modifyFirst (fun other => other.key == recipient.key)
    (fun other => { other with totalExpenses }) recipients

def updateAwardWithdrawalRequest (requests : List WithdrawalRequest) (request : WithdrawalRequest)
    (status : RequestStatus) : List WithdrawalRequest :=
  modifyFirst (fun other => other.key == request.key) (fun other => { other with status }) requests

/-! ## The creation of an award -/

/-- `subawardee_type`. -/
structure Subawardee where
  subawardNumber : Name
  subaward : Asset
  subawardee : Name
  source : Name
  researchExternalId : Name
deriving DecidableEq, Repr

/-- The sum of the subawards that a source passes on. -/
def subawardsFrom (subawardees : List Subawardee) (source : Name) (symbol : AssetSymbol) :
    Except String Asset :=
  subawardees.foldlM
    (fun sum next => if next.source = source then sum.add next.subaward else return sum) ⟨0, symbol⟩

structure CreateAwardOperation where
  awardNumber : Name
  fundingOpportunityNumber : Name
  award : Asset
  awardee : Name
  researchExternalId : Name
  universityExternalId : Name
  universityOverhead : Percent
  subawardees : List Subawardee
  creator : Name
deriving DecidableEq, Repr

namespace CreateAwardOperation

/-- A subaward from the main awardee is not compared with the subawards that it funds. -/
def validateChain (op : CreateAwardOperation) (subaward : Subawardee) : Except String Unit :=
  if subaward.source ≠ op.awardee then do
    require (∃ other ∈ op.subawardees, subaward.source = other.subawardee)
      "Subaward source ${1} for ${2} is not presented in the list"
    let subsequent ← subawardsFrom op.subawardees subaward.subawardee op.award.symbol
    let covered ← subaward.subaward.above subsequent
    require (covered = true) "Subaward ${1} amount ${2} is less than its subawards total amount ${3}"
  else return ()

def validateSubaward (op : CreateAwardOperation) (subaward : Subawardee) : Except String Unit := do
  require (0 < subaward.subaward.amount) "Award amount must be specified"
  require (subaward.subaward.symbol = op.award.symbol)
    "Subaward asset does not match the award asset"
  require ((op.subawardees.countP fun other => subaward.subawardee == other.subawardee) = 1)
    "Duplicated subawardee ${1} found in the list"
  require (∀ other ∈ op.subawardees,
      ¬ (subaward.source = other.subawardee ∧ other.source = subaward.subawardee))
    "Circular subaward reference detected for ${1}"
  op.validateChain subaward

def validateAwardees (op : CreateAwardOperation) : Except String Unit := do
  let top ← subawardsFrom op.subawardees op.awardee op.award.symbol
  let spent ← top.add (universityFee op.award op.universityOverhead)
  let covered ← op.award.above spent
  require (covered = true)
    "Total subawards amount with overhead fee should be less than total award amount"
  require (∀ subaward ∈ op.subawardees, subaward.subawardee ≠ op.awardee)
    "Main awardee ${1} should not be specified in subawardees list"
  require (op.subawardees.length ≠ 0 → ∃ subaward ∈ op.subawardees, subaward.source = op.awardee)
    "At least 1 subawardee should refer to the main awardee ${1}"
  op.subawardees.forM op.validateSubaward

def validate (op : CreateAwardOperation) : Except String Unit := do
  require (0 < op.award.amount) "Award amount must be > 0."
  require (op.universityOverhead.decimals = 2) "a.decimals == b.decimals"
  require (0 ≤ op.universityOverhead.amount ∧ op.universityOverhead.amount ≤ 5000)
    "Percent for dropout compensation should be in ${1} to ${2} range. Provided value: ${3}."
  op.validateAwardees

/-- What a subawardee keeps of the subaward. -/
def ownPart (op : CreateAwardOperation) (subaward : Subawardee) : Except String (Name × Asset) := do
  let subsequent ← subawardsFrom op.subawardees subaward.subawardee op.award.symbol
  let own ← subaward.subaward.sub subsequent
  return (subaward.subawardee, own)

/-- The assignments to `awards_map`, in order. -/
def assignments (op : CreateAwardOperation) : Except String (List (Name × Asset)) := do
  let top ← subawardsFrom op.subawardees op.awardee op.award.symbol
  let afterFee ← op.award.sub (universityFee op.award op.universityOverhead)
  let own ← afterFee.sub top
  let others ← op.subawardees.mapM op.ownPart
  return (op.awardee, own) :: others

/-- `awards_map[name]`: the last assignment to the name. -/
def assigned (assignments : List (Name × Asset)) (name : Name) : Asset :=
  ((assignments.reverse.find? fun entry => entry.1 == name).map Prod.snd).getD ⟨0, deipSymbol⟩

def mainRecipient (op : CreateAwardOperation) (parts : List (Name × Asset)) : AwardRecipient where
  awardNumber := op.awardNumber
  subawardNumber := op.awardNumber
  fundingOpportunityNumber := op.fundingOpportunityNumber
  awardee := op.awardee
  source := ""
  totalAmount := assigned parts op.awardee
  totalExpenses := ⟨0, (assigned parts op.awardee).symbol⟩
  status := .unconfirmed

def subRecipient (op : CreateAwardOperation) (parts : List (Name × Asset)) (subaward : Subawardee) :
    AwardRecipient where
  awardNumber := op.awardNumber
  subawardNumber := subaward.subawardNumber
  fundingOpportunityNumber := op.fundingOpportunityNumber
  awardee := subaward.subawardee
  source := subaward.source
  totalAmount := assigned parts subaward.subawardee
  totalExpenses := ⟨0, (assigned parts subaward.subawardee).symbol⟩
  status := .unconfirmed

def createSubaward (state : State) (op : CreateAwardOperation) (parts : List (Name × Asset))
    (recipients : List AwardRecipient) (subaward : Subawardee) :
    Except String (List AwardRecipient) := do
  require (state.accountExists subaward.subawardee) "Account ${1} does not exist"
  require (state.researchExists subaward.researchExternalId) "Research ${1} does not exist"
  let research ← state.getResearch subaward.researchExternalId
  require (state.isResearchGroupMember subaward.subawardee research.researchGroupId)
    "Awardee ${1} is not a member of research group {2}"
  createAwardRecipient recipients (op.subRecipient parts subaward)

def apply (state : State) (op : CreateAwardOperation) : Except String State := do
  require (state.accountExists op.creator) "Account ${1} does not exist"
  require (state.accountExists op.awardee) "Account ${1} does not exist"
  require (state.researchExists op.researchExternalId) "Research ID:${1} does not exist"
  require (state.researchGroupExists op.universityExternalId)
    "University with ID:${1} does not exist"
  require (state.opportunities.any fun opportunity =>
      opportunity.fundingOpportunityNumber == op.fundingOpportunityNumber)
    "Funding opportunity with ID ${1} does not exist"
  let opportunity ← state.getFundingOpportunity op.fundingOpportunityNumber
  require (op.award.symbol = opportunity.amount.symbol)
    "Award asset ${1} should be the same as funding opportunity asset ${2}"
  let available ← opportunity.currentSupply.atLeast op.award
  require (available = true)
    "Funding opportunity does not have enough funds to award. Availabale amount:${1}, Required amount:${2}."
  let organization ← state.getResearchGroup opportunity.organizationId
  require (state.isResearchGroupMember op.creator organization.id)
    "${1} is not a member of FOA organization ${2}"
  require (op.universityExternalId ≠ organization.account)
    "Funding opportunity agency ${1} is not allowed as intermediary"
  require (accountBalanceExists state.balances op.creator op.award.symbol)
    "Account balance for ${1} for asset ${2} does not exist"
  let university ← state.getResearchGroupByAccount op.universityExternalId
  let parts ← op.assignments
  let awards ← createAward state.awards
    { fundingOpportunityNumber := op.fundingOpportunityNumber
      awardNumber := op.awardNumber
      awardee := op.awardee
      amount := op.award
      universityId := university.id
      universityOverhead := op.universityOverhead
      status := .pending }
  let main ← createAwardRecipient state.recipients (op.mainRecipient parts)
  let recipients ← op.subawardees.foldlM (op.createSubaward state parts) main
  return { state with awards, recipients }

end CreateAwardOperation

/-! ## The decision on an award -/

/-- `approve_award_operation` and `reject_award_operation`. -/
structure AwardDecision where
  awardNumber : Name
  officer : Name
deriving DecidableEq, Repr

/-- The award, and the funding opportunity that the account is an officer of. -/
def awardToDecide (state : State) (op : AwardDecision) (decided : String) :
    Except String (Award × FundingOpportunity) := do
  require (state.accountExists op.officer) "Account ${1} does not exist"
  require (state.awardExists op.awardNumber) "Award ${1} does not exist"
  let award ← state.getAward op.awardNumber
  let opportunity ← state.getFundingOpportunity award.fundingOpportunityNumber
  require (op.officer ∈ opportunity.officers) "Account ${1} is not program officer"
  require (award.status = .pending) decided
  return (award, opportunity)

def payRecipients (assets : List AssetObject) (balances : List Balance)
    (recipients : List AwardRecipient) : Except String (List Balance) :=
  recipients.foldlM (fun balances recipient =>
    adjustAccountBalance assets balances recipient.awardee recipient.totalAmount) balances

/-- `approve_award_evaluator`. -/
def approveAward (state : State) (op : AwardDecision) : Except String State := do
  let (award, opportunity) ← awardToDecide state op
    "Only pending award can be approved. The current status is: ${1}"
  let university ← state.getResearchGroup award.universityId
  let afterFee ← adjustAccountBalance state.assets state.balances university.creator
    (universityFee award.amount award.universityOverhead)
  let balances ← payRecipients state.assets afterFee
    (state.recipients.filter fun recipient => recipient.awardNumber == op.awardNumber)
  let opportunities ← adjustFundingOpportunitySupply state.opportunities opportunity.id
    award.amount.neg
  return { state with
    balances
    opportunities
    recipients := updateRecipientsStatus state.recipients op.awardNumber .confirmed
    awards := updateAwardStatus state.awards op.awardNumber .approved }

/-- `reject_award_evaluator`. -/
def rejectAward (state : State) (op : AwardDecision) : Except String State := do
  let _ ← awardToDecide state op
    "Only pending award can be rejected. The current status is: ${1}"
  return { state with
    recipients := updateRecipientsStatus state.recipients op.awardNumber .canceled
    awards := updateAwardStatus state.awards op.awardNumber .rejected }

/-! ## Withdrawal requests -/

structure CreateAwardWithdrawalRequestOperation where
  paymentNumber : Name
  awardNumber : Name
  subawardNumber : Option Name
  requester : Name
  amount : Asset
deriving DecidableEq, Repr

namespace CreateAwardWithdrawalRequestOperation

def validate (op : CreateAwardWithdrawalRequestOperation) : Except String Unit :=
  require (0 < op.amount.amount) "Amount must be greater than 0"

def apply (state : State) (op : CreateAwardWithdrawalRequestOperation) : Except String State := do
  let subawardNumber := op.subawardNumber.getD op.awardNumber
  require (state.accountExists op.requester) "Account ${1} does not exist"
  require (state.awardExists op.awardNumber) "Award ${1} does not exist"
  let award ← state.getAward op.awardNumber
  require (op.amount.symbol = award.amount.symbol)
    "Award withdrawal request asset ${1} should be the same as award asset ${2}"
  require (award.status = .approved) "Award ${1} is not approved"
  require (state.recipients.any fun recipient => recipient.key == (op.awardNumber, subawardNumber))
    "Award recipient ${1}:${2} does not exist"
  let recipient ← getAwardRecipient state.recipients op.awardNumber subawardNumber
  require (recipient.awardee = op.requester)
    "Requester ${1} is not the award recipient ${2}. Make sure you specified the correct Subaward number"
  require (op.amount.symbol = recipient.totalAmount.symbol)
    "Withdrawal asset ${1} does not match the award asset ${2}."
  let remaining ← recipient.totalAmount.sub recipient.totalExpenses
  let funded ← remaining.atLeast op.amount
  require (funded = true) "Not enough funds. Requested amount: ${1} Available amount: ${2}"
  let requests ← createAwardWithdrawalRequest state.requests
    { paymentNumber := op.paymentNumber
      awardNumber := op.awardNumber
      subawardNumber
      requester := op.requester
      amount := op.amount
      status := .pending }
  return { state with requests }

end CreateAwardWithdrawalRequestOperation

/-- The operations that certify, approve, reject and pay a withdrawal request. -/
structure RequestAction where
  paymentNumber : Name
  awardNumber : Name
  subawardNumber : Option Name
  actor : Name
deriving DecidableEq, Repr

/-- The request, and the recipient of the subaward that the operation names. -/
def requestToUpdate (state : State) (op : RequestAction) :
    Except String (WithdrawalRequest × AwardRecipient) := do
  require (state.accountExists op.actor) "Account ${1} does not exist"
  require (state.requests.any fun request => request.key == (op.awardNumber, op.paymentNumber))
    "Award withdrawal request ${1}:${2} does not exist"
  let request ← getAwardWithdrawalRequest state.requests op.awardNumber op.paymentNumber
  let recipient ← getAwardRecipient state.recipients op.awardNumber
    (op.subawardNumber.getD op.awardNumber)
  require (recipient.awardee = request.requester)
    "Requester ${1} is not the award recipient ${2}. Make sure you specified the correct Subaward number"
  return (request, recipient)

/-- `certify_award_withdrawal_request_evaluator`. -/
def certifyAwardWithdrawalRequest (state : State) (op : RequestAction) : Except String State := do
  let (request, _) ← requestToUpdate state op
  require (request.status = .pending)
    "Only pending award withdrawal request can be certified. The current status is: ${1}"
  let _ ← state.getAward op.awardNumber
  return { state with requests := updateAwardWithdrawalRequest state.requests request .certified }

/-- `approve_award_withdrawal_request_evaluator`. -/
def approveAwardWithdrawalRequest (state : State) (op : RequestAction) : Except String State := do
  let (request, recipient) ← requestToUpdate state op
  require (request.status = .certified)
    "Not certified withdrawal request can not be approved. The current status is: ${1}"
  let _ ← state.getFundingOpportunity recipient.fundingOpportunityNumber
  return { state with requests := updateAwardWithdrawalRequest state.requests request .approved }

/-- `reject_award_withdrawal_request_evaluator`. -/
def rejectAwardWithdrawalRequest (state : State) (op : RequestAction) : Except String State := do
  let (request, recipient) ← requestToUpdate state op
  require (request.status = .pending ∨ request.status = .certified)
    "Only pending or certified award withdrawal request can be rejected. The current status is: ${1}"
  let _ ← state.getAward op.awardNumber
  let _ ← state.getFundingOpportunity recipient.fundingOpportunityNumber
  return { state with requests := updateAwardWithdrawalRequest state.requests request .rejected }

/-- The product of an amount and the price of one `DEIP_USD_SYMBOL` for one unit of its
    asset. Names of assets are compared without their decimals. -/
def payout (amount : Asset) : Asset :=
  if amount.symbolName = (Asset.mk 1 usdSymbol).symbolName then amount
  else ⟨amount.amount, usdSymbol⟩

/-- `pay_award_withdrawal_request_evaluator`. The tokens of the request are burned, and the
    requester is paid by the creator of the treasury. -/
def payAwardWithdrawalRequest (state : State) (op : RequestAction) : Except String State := do
  let (request, recipient) ← requestToUpdate state op
  require (request.status = .approved)
    "Only approved award withdrawal request can be paid. The current status is: ${1}"
  let opportunity ← state.getFundingOpportunity recipient.fundingOpportunityNumber
  let treasury ← state.getResearchGroup opportunity.treasuryId
  let remaining ← recipient.totalAmount.sub recipient.totalExpenses
  let funded ← remaining.atLeast request.amount
  require (funded = true) "Not enough funds to process the payment. Requested ${1}, Available: ${2} "
  let recipients ← adjustExpenses state.recipients recipient request.amount
  let assets ← adjustAssetCurrentSupply state.assets request.amount.symbol (-request.amount.amount)
  let credited ← adjustAccountBalance assets state.balances request.requester
    (payout request.amount)
  let balances ← adjustAccountBalance assets credited treasury.creator (payout request.amount).neg
  return { state with
    assets
    balances
    recipients
    requests := updateAwardWithdrawalRequest state.requests request .paid }

end DeipChain.Ledger
