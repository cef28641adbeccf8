import DeipChain.Lib.Result
import DeipChain.Lib.Table

/-!
# Objects of the token ledger

The tables of the object store that hold tokens or decide where tokens go: account
balances and assets, common tokens and their withdrawal routes, vesting balances,
research token sales, funding opportunities with their awards, discipline supplies,
expert tokens and witnesses. A table lists its objects in the order of their creation.

`share_type` is a checked 64-bit integer: an operation whose arithmetic overflows
throws and has no effect. The model computes with unbounded integers, so every
successful step of the node is a successful step of the model.

An error is the text of the assertion that failed.
-/
namespace DeipChain.Ledger

/-- `account_name_type` and `external_id_type` are both `fc::fixed_string_40`. -/
abbrev Name := String

/-- `asset_symbol_type`: the number of decimals in the low byte, the name above it. -/
abbrev AssetSymbol := Nat

/-- Seconds since the epoch. -/
abbrev Time := Nat

/-- `DEIP_SYMBOL`: the core token, with three decimals. -/
def deipSymbol : AssetSymbol :=
  3 + 'D'.toNat * 2 ^ 8 + 'E'.toNat * 2 ^ 16 + 'I'.toNat * 2 ^ 24 + 'P'.toNat * 2 ^ 32

/-- `DEIP_USD_SYMBOL`. -/
def usdSymbol : AssetSymbol :=
  2 + 'U'.toNat * 2 ^ 8 + 'S'.toNat * 2 ^ 16 + 'D'.toNat * 2 ^ 24

/-- `DEIP_100_PERCENT`. -/
def fullPercent : Int := 10000

/-- `DEIP_MAX_SHARE_SUPPLY`. -/
def maxShareSupply : Int := 1000000000000000

/-- `DEIP_BLOCK_INTERVAL`, in seconds. -/
def blockInterval : Nat := 3

/-- `time_point_sec::maximum()`. -/
def maximumTime : Time := 2 ^ 32 - 1

/-- An amount of one asset. -/
structure Asset where
  amount : Int
  symbol : AssetSymbol
deriving DecidableEq, Repr

namespace Asset

/-- The characters of a symbol, without its decimals. -/
def symbolName (asset : Asset) : Nat :=
  asset.symbol / 2 ^ 8

/-- What the asset counts for under one symbol. -/
def under (asset : Asset) (symbol : AssetSymbol) : Int :=
  if asset.symbol = symbol then asset.amount else 0

def neg (asset : Asset) : Asset :=
  { asset with amount := -asset.amount }

theorem under_neg (asset : Asset) (symbol : AssetSymbol) :
    asset.neg.under symbol = -asset.under symbol := by
  by_cases same : asset.symbol = symbol
  · simp [under, neg, same]
  · simp [under, neg, same]

/-- Sums, differences and comparisons of assets assert that the symbols agree. -/
def sameSymbol (first second : Asset) : Except String Unit :=
  Result.require (first.symbol = second.symbol) "a.symbol == b.symbol"

def add (first second : Asset) : Except String Asset := do
  sameSymbol first second
  return { first with amount := first.amount + second.amount }

def sub (first second : Asset) : Except String Asset := do
  sameSymbol first second
  return { first with amount := first.amount - second.amount }

/-- `operator<`. -/
def below (first second : Asset) : Except String Bool := do
  sameSymbol first second
  return first.amount < second.amount

/-- `operator<=`: equality is tried first and asserts nothing. -/
def atMost (first second : Asset) : Except String Bool :=
  if first = second then return true else below first second

/-- `operator>` and `operator>=` negate `operator<=` and `operator<`. -/
def above (first second : Asset) : Except String Bool := do
  return !(← atMost first second)

def atLeast (first second : Asset) : Except String Bool := do
  return !(← below first second)

theorem add_ok_iff {first second sum : Asset} :
    first.add second = .ok sum ↔
      first.symbol = second.symbol ∧ sum = ⟨first.amount + second.amount, first.symbol⟩ := by
  simp only [add, sameSymbol, Result.bind_ok_iff, Result.require_ok_iff, Result.pure_ok_iff]
  exact ⟨fun ⟨_, same, equal⟩ => ⟨same, equal.symm⟩, fun ⟨same, equal⟩ => ⟨(), same, equal.symm⟩⟩

theorem sub_ok_iff {first second difference : Asset} :
    first.sub second = .ok difference ↔
      first.symbol = second.symbol ∧ difference = ⟨first.amount - second.amount, first.symbol⟩ := by
  simp only [sub, sameSymbol, Result.bind_ok_iff, Result.require_ok_iff, Result.pure_ok_iff]
  exact ⟨fun ⟨_, same, equal⟩ => ⟨same, equal.symm⟩, fun ⟨same, equal⟩ => ⟨(), same, equal.symm⟩⟩

theorem atLeast_ok_iff {first second : Asset} {result : Bool} :
    first.atLeast second = .ok result ↔
      first.symbol = second.symbol ∧ result = !decide (first.amount < second.amount) := by
  simp only [atLeast, below, sameSymbol, Result.bind_ok_iff, Result.require_ok_iff, Result.pure_ok_iff]
  constructor
  · rintro ⟨_, ⟨_, same, rfl⟩, rfl⟩
    exact ⟨same, rfl⟩
  · rintro ⟨same, rfl⟩
    exact ⟨_, ⟨(), same, rfl⟩, rfl⟩

theorem above_iff {first second : Asset} :
    first.above second = .ok true ↔ first.symbol = second.symbol ∧ second.amount < first.amount := by
  obtain ⟨amount, symbol⟩ := first
  obtain ⟨other, own⟩ := second
  simp only [above, atMost, below, sameSymbol, mk.injEq]
  by_cases same : symbol = own
  · by_cases equal : amount = other
    · simp [same, equal, pure, Except.pure, bind, Except.bind]
    · simp [same, equal, Result.require, pure, Except.pure, bind, Except.bind]
      omega
  · simp [same, Result.require, bind, Except.bind]

/-- An amount that compares above nothing of an asset is a positive amount of it. -/
theorem above_zero_iff {asset : Asset} {symbol : AssetSymbol} :
    asset.above ⟨0, symbol⟩ = .ok true ↔ asset.symbol = symbol ∧ 0 < asset.amount :=
  above_iff

end Asset

/-- A percentage with its own number of decimals. -/
structure Percent where
  amount : Int
  decimals : Nat
deriving DecidableEq, Repr

/-- `calculate_share(amount, share_percent)`. Division of shares truncates toward
    zero. -/
def percentShare (amount sharePercent : Int) : Int :=
  (amount * sharePercent).tdiv fullPercent

/-- `calculate_share(amount, weight, total_weight)`. -/
def weightedShare (amount weight totalWeight : Int) : Except String Int := do
  Result.require (totalWeight ≠ 0) "Dividing by zero is restricted"
  return (amount * weight).tdiv totalWeight

/-- `calculate_share(from_amount, share)` for a `percent` of any precision. -/
def preciseShare (amount : Int) (share : Percent) : Int :=
  (amount * share.amount).tdiv (100 * 10 ^ share.decimals)

/-- The part of `account_object` that holds tokens and votes. -/
structure Account where
  id : Nat
  name : Name
  proxy : Name
  mined : Bool
  canVote : Bool
  expertiseTokensBalance : Int
  commonTokensBalance : Int
  commonTokensWithdrawRate : Int
  nextCommonTokensWithdrawal : Time
  withdrawn : Int
  toWithdraw : Int
  withdrawRoutes : Nat
  proxiedVsfVotes : List Int
  witnessesVotedFor : Nat
deriving DecidableEq, Repr

/-- `account_balance_object`. -/
structure Balance where
  owner : Name
  symbol : AssetSymbol
  amount : Int
  frozenAmount : Int
deriving DecidableEq, Repr

inductive AssetType where
  | basic
  | researchSecurityToken
deriving DecidableEq, Repr

/-- `asset_object`. -/
structure AssetObject where
  symbol : AssetSymbol
  stringSymbol : Name
  issuer : Name
  type : AssetType
  tokenizedResearch : Option Name
  licenseRevenueHoldersShare : Option Percent
  maxSupply : Int
  currentSupply : Int
  isDefault : Bool
deriving DecidableEq, Repr

/-- `vesting_balance_object`. -/
structure VestingBalance where
  id : Nat
  owner : Name
  balance : Asset
  withdrawn : Asset
  vestingCliffSeconds : Nat
  vestingDurationSeconds : Nat
  periodDurationSeconds : Nat
  startTimestamp : Time
deriving DecidableEq, Repr

inductive SaleStatus where
  | active
  | finished
  | expired
  | inactive
deriving DecidableEq, Repr

/-- `research_token_sale_object`. -/
structure TokenSale where
  id : Nat
  externalId : Name
  researchId : Nat
  researchExternalId : Name
  securityTokensOnSale : List Asset
  startTime : Time
  endTime : Time
  totalAmount : Asset
  softCap : Asset
  hardCap : Asset
  status : SaleStatus
deriving DecidableEq, Repr

/-- `research_token_sale_contribution_object`. -/
structure Contribution where
  researchTokenSaleId : Nat
  owner : Name
  amount : Asset
deriving DecidableEq, Repr

/-- `discipline_supply_object`. -/
structure DisciplineSupply where
  id : Nat
  grantor : Name
  targetDiscipline : Nat
  balance : Asset
  perBlock : Int
  startTime : Time
  endTime : Time
  isExtendable : Bool
deriving DecidableEq, Repr

/-- `funding_opportunity_object`. -/
structure FundingOpportunity where
  id : Nat
  organizationId : Nat
  treasuryId : Nat
  grantor : Name
  fundingOpportunityNumber : Name
  amount : Asset
  currentSupply : Asset
  officers : List Name
deriving DecidableEq, Repr

inductive AwardStatus where
  | pending
  | approved
  | rejected
deriving DecidableEq, Repr

/-- `award_object`. -/
structure Award where
  fundingOpportunityNumber : Name
  awardNumber : Name
  awardee : Name
  amount : Asset
  universityId : Nat
  universityOverhead : Percent
  status : AwardStatus
deriving DecidableEq, Repr

inductive RecipientStatus where
  | unconfirmed
  | confirmed
  | canceled
deriving DecidableEq, Repr

/-- `award_recipient_object`. -/
structure AwardRecipient where
  awardNumber : Name
  subawardNumber : Name
  fundingOpportunityNumber : Name
  awardee : Name
  source : Name
  totalAmount : Asset
  totalExpenses : Asset
  status : RecipientStatus
deriving DecidableEq, Repr

inductive RequestStatus where
  | pending
  | certified
  | approved
  | paid
  | rejected
deriving DecidableEq, Repr

/-- `award_withdrawal_request_object`. -/
structure WithdrawalRequest where
  paymentNumber : Name
  awardNumber : Name
  subawardNumber : Name
  requester : Name
  amount : Asset
  status : RequestStatus
deriving DecidableEq, Repr

/-- `withdraw_common_tokens_route_object`, between account ids. -/
structure WithdrawRoute where
  fromAccount : Nat
  toAccount : Nat
  percent : Nat
  autoCommonToken : Bool
deriving DecidableEq, Repr

/-- `witness_schedule_type`. -/
inductive ScheduleKind where
  | top20
  | timeshare
  | none
deriving DecidableEq, Repr

/-- The part of `witness_object` that counts votes and decides the pay. -/
structure Witness where
  id : Nat
  owner : Name
  votes : Int
  schedule : ScheduleKind
deriving DecidableEq, Repr

/-- `witness_vote_object`, between a witness id and an account id. -/
structure WitnessVote where
  witness : Nat
  account : Nat
deriving DecidableEq, Repr

/-- The part of `witness_schedule_object` that the ledger reads. -/
structure WitnessSchedule where
  top20Weight : Int
  timeshareWeight : Int
  witnessPayNormalizationFactor : Int
  accountCreationFee : Int
deriving DecidableEq, Repr

/-- `expert_token_object`. -/
structure ExpertToken where
  accountName : Name
  disciplineId : Nat
  amount : Int
deriving DecidableEq, Repr

/-- `discipline_object`. -/
structure Discipline where
  id : Nat
  externalId : Name
  parentId : Nat
deriving DecidableEq, Repr

/-- `research_group_object`. No code writes `balance` after the object is created. -/
structure ResearchGroup where
  id : Nat
  account : Name
  creator : Name
  balance : Asset
deriving DecidableEq, Repr

/-- `research_object`. -/
structure Research where
  id : Nat
  externalId : Name
  researchGroup : Name
  researchGroupId : Nat
  securityTokens : List Asset
deriving DecidableEq, Repr

/-- `research_content_object`. -/
structure ResearchContent where
  id : Nat
  isFinalResult : Bool
  isActive : Bool
  authors : List Name
deriving DecidableEq, Repr

/-- `expertise_contribution_type`. -/
inductive ContributionKind where
  | unknown
  | publication
  | review
  | reviewSupport
deriving DecidableEq, Repr

/-- `eci_diff`: one change of a contribution within the block. -/
structure EciDiff where
  delta : Int
  contributionKind : ContributionKind
  contributionId : Nat
deriving DecidableEq, Repr

/-- `expertise_contribution_object`. -/
structure ExpertiseContribution where
  disciplineId : Nat
  researchId : Nat
  researchContentId : Nat
  eci : Int
  eciCurrentBlockDiffs : List EciDiff
deriving DecidableEq, Repr

/-- `review_object`, with the expertise used in each discipline. -/
structure Review where
  id : Nat
  researchContentId : Nat
  author : Name
  isPositive : Bool
  expertiseTokensAmountByDiscipline : List (Nat × Int)
deriving DecidableEq, Repr

/-- `review_vote_object`. -/
structure ReviewVote where
  id : Nat
  reviewId : Nat
  disciplineId : Nat
  voter : Name
deriving DecidableEq, Repr

/-- The tables that the ledger only reads: researches and their assessments, and
    who is a member of which research group. -/
structure Registry where
  researches : List Research
  contents : List ResearchContent
  expertiseContributions : List ExpertiseContribution
  reviews : List Review
  reviewVotes : List ReviewVote
  members : List (Name × Nat)
deriving DecidableEq, Repr

/-- The part of `dynamic_global_property_object` that the ledger uses. -/
structure GlobalProperties where
  headBlockNumber : Nat
  time : Time
  currentWitness : Name
  currentSupply : Asset
  commonTokensFund : Asset
  totalExpertTokensAmount : Int
  totalCommonTokensAmount : Int
deriving DecidableEq, Repr

/-- The object store, as far as the ledger reads or writes it. No code creates a
    reward pool. -/
structure State where
  props : GlobalProperties
  schedule : WitnessSchedule
  accounts : List Account
  balances : List Balance
  assets : List AssetObject
  vestings : List VestingBalance
  sales : List TokenSale
  contributions : List Contribution
  supplies : List DisciplineSupply
  opportunities : List FundingOpportunity
  awards : List Award
  recipients : List AwardRecipient
  requests : List WithdrawalRequest
  routes : List WithdrawRoute
  witnesses : List Witness
  witnessVotes : List WitnessVote
  expertTokens : List ExpertToken
  disciplines : List Discipline
  groups : List ResearchGroup
  rewardPools : List Asset
  registry : Registry
deriving DecidableEq, Repr

end DeipChain.Ledger
