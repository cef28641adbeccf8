import DeipChain.Ledger.Payments

/-!
# Research token sales

A research group offers security tokens of a research. The tokens are frozen while the
sale is pending. Contributions are collected until the hard cap is reached or the sale
ends; then the tokens are paid to the contributors and the funds to the group, or, below
the soft cap, the contributions are paid back.
-/
namespace DeipChain.Ledger

open DeipChain.Result DeipChain.Table

/-! ## The token sale service -/

def getResearchTokenSaleById (sales : List TokenSale) (id : Nat) : Except String TokenSale :=
  expect (sales.find? fun sale => sale.id == id) unknownKey

def updateStatus (sales : List TokenSale) (id : Nat) (status : SaleStatus) : List TokenSale :=
  modifyFirst (fun sale => sale.id == id) (fun sale => { sale with status }) sales

def collectFunds (sales : List TokenSale) (id : Nat) (amount : Asset) :
    Except String (List TokenSale) := do
  let sale ← getResearchTokenSaleById sales id
  let totalAmount ← sale.totalAmount.add amount
  return modifyFirst (fun sale => sale.id == id) (fun sale => { sale with totalAmount }) sales

/-- The key of `by_owner_and_research_token_sale_id`. -/
def Contribution.belongs (sale : Nat) (owner : Name) (contribution : Contribution) : Bool :=
  contribution.owner == owner && contribution.researchTokenSaleId == sale

def contribute (contributions : List Contribution) (sale : Nat) (owner : Name) (amount : Asset) :
    Except String (List Contribution) :=
  match contributions.find? (Contribution.belongs sale owner) with
  | some existing => do
    let sum ← existing.amount.add amount
    return modifyFirst (Contribution.belongs sale owner)
      (fun contribution => { contribution with amount := sum }) contributions
  | none => return contributions ++ [{ researchTokenSaleId := sale, owner, amount }]

/-- The contributions to a sale, in the order of `by_research_token_sale_id`. -/
def contributionsTo (contributions : List Contribution) (sale : Nat) : List Contribution :=
  contributions.filter fun contribution => contribution.researchTokenSaleId == sale

def removeContributions (contributions : List Contribution) (sale : Nat) : List Contribution :=
  contributions.filter fun contribution => !(contribution.researchTokenSaleId == sale)

/-- The share of one contributor in one of the tokens on sale. `percentOf` is the rounded
    percentage, in hundredths, that the contribution is of the total; the source computes
    it with doubles. -/
def payContributor (percentOf : Int → Int → Int) (assets : List AssetObject) (group : Name)
    (totalAmount token : Asset) (progress : List Balance × Int) (contribution : Contribution) :
    Except String (List Balance × Int) := do
  let _ ← getAssetBySymbol assets token.symbol
  let share : Percent := ⟨percentOf contribution.amount.amount totalAmount.amount, 2⟩
  let amount : Asset := ⟨preciseShare token.amount share, token.symbol⟩
  let debited ← adjustAccountBalance assets progress.1 group amount.neg
  let credited ← adjustAccountBalance assets debited contribution.owner amount
  return (credited, progress.2 + amount.amount)

/-- One of the tokens on sale is paid to the contributors. The last one gets the rest. -/
def distributeToken (percentOf : Int → Int → Int) (assets : List AssetObject) (group : Name)
    (totalAmount : Asset) (contributions : List Contribution) (balances : List Balance)
    (token : Asset) : Except String (List Balance) := do
  let (paid, distributed) ←
    contributions.foldlM (payContributor percentOf assets group totalAmount token) (balances, 0)
  match contributions.getLast? with
  | none => return paid
  | some last =>
    let rest : Asset := ⟨token.amount - distributed, token.symbol⟩
    if rest.amount ≠ 0 then do
      let credited ← adjustAccountBalance assets paid last.owner rest
      adjustAccountBalance assets credited group rest.neg
    else return paid

def unfreezeTokens (balances : List Balance) (group : Name) (tokens : List Asset) :
    Except String (List Balance) :=
  tokens.foldlM (fun balances token => unfreezeAccountBalance balances group token) balances

def finishResearchTokenSale (percentOf : Int → Int → Int) (state : State) (id : Nat) :
    Except String State := do
  let sale ← getResearchTokenSaleById state.sales id
  let research ← state.getResearchById sale.researchId
  let group ← state.getResearchGroup research.researchGroupId
  let unfrozen ← unfreezeTokens state.balances research.researchGroup sale.securityTokensOnSale
  let distributed ← sale.securityTokensOnSale.foldlM
    (distributeToken percentOf state.assets research.researchGroup sale.totalAmount
      (contributionsTo state.contributions id)) unfrozen
  let balances ← adjustAccountBalance state.assets distributed group.account sale.totalAmount
  return { state with
    balances
    contributions := removeContributions state.contributions id }

def refundResearchTokenSale (state : State) (id : Nat) : Except String State := do
  let sale ← getResearchTokenSaleById state.sales id
  let research ← state.getResearchById sale.researchId
  let unfrozen ← unfreezeTokens state.balances research.researchGroup sale.securityTokensOnSale
  let balances ← (contributionsTo state.contributions id).foldlM
    (fun balances contribution =>
      adjustAccountBalance state.assets balances contribution.owner contribution.amount) unfrozen
  return { state with
    balances
    contributions := removeContributions state.contributions id }

/-- One round of `process_research_token_sales`. -/
def processResearchTokenSale (percentOf : Int → Int → Int) (state : State) (id : Nat) :
    Except String State := do
  let sale ← getResearchTokenSaleById state.sales id
  if sale.endTime ≤ state.props.time ∧ sale.status = .active then do
    let missed ← sale.totalAmount.below sale.softCap
    if missed then
      refundResearchTokenSale { state with sales := updateStatus state.sales id .expired } id
    else
      finishResearchTokenSale percentOf
        { state with sales := updateStatus state.sales id .finished } id
  else if state.props.time < sale.endTime ∧ sale.startTime ≤ state.props.time ∧
      sale.status = .inactive then
    return { state with sales := updateStatus state.sales id .active }
  else return state

/-- `process_research_token_sales`, in the order of `by_end_time`. -/
def processResearchTokenSales (percentOf : Int → Int → Int) (state : State) :
    Except String State :=
  ((state.sales.insertionSort fun one other => one.endTime ≤ other.endTime).map
    TokenSale.id).foldlM (processResearchTokenSale percentOf) state

/-! ## The evaluators -/

/-- `create_research_token_sale_operation`. The tokens are a `flat_set` of assets. -/
structure CreateResearchTokenSaleOperation where
  externalId : Name
  researchGroup : Name
  researchExternalId : Name
  startTime : Time
  endTime : Time
  securityTokensOnSale : List Asset
  softCap : Asset
  hardCap : Asset
deriving DecidableEq, Repr

namespace CreateResearchTokenSaleOperation

def validate (op : CreateResearchTokenSaleOperation) : Except String Unit := do
  require (op.securityTokensOnSale ≠ []) "Security tokens on sale are not specified"
  op.securityTokensOnSale.forM fun token =>
    require (0 < token.amount) "Security token amount is not specified ${1}"
  require (0 < op.softCap.amount) "Soft cap should be > 0. Provided amount: ${1}."
  require (0 < op.hardCap.amount) "Hard cap should be > 0. Provided amount: ${1}."
  require (op.softCap.symbol = op.hardCap.symbol)
    "Assets does not match. Soft cap: ${1}. Hard cap: ${2}."
  let greater ← op.hardCap.above op.softCap
  require (greater = true)
    "Hard cap should be greater than soft cap. Hard cap: ${1}. Soft cap: ${2}."
  require (op.startTime < op.endTime)
    "End time should be greater than start time. Provided end time: ${1}, Provided start time: ${2}."

/-- What a token must be to be put on sale. -/
def checkToken (state : State) (research : Research) (token : Asset) : Except String Unit := do
  let asset ← getAssetBySymbol state.assets token.symbol
  require (asset.type = .researchSecurityToken) "Asset ${1} is not a research security token"
  require (research.securityTokens.any fun other => other.symbol == token.symbol)
    "Research ${1} is not tokenized with ${2} security token"
  let balance ← expect (state.balances.find? (Balance.belongs research.researchGroup token.symbol))
    "Research group ${1} does not have balance for security token ${2} "
  let enough ← (Asset.mk balance.amount balance.symbol).atLeast token
  require (enough = true) "Research group ${1} security token balance (${2}) is not enough"

/-- `create_research_token_sale` of the service. -/
def createResearchTokenSale (state : State) (op : CreateResearchTokenSaleOperation)
    (research : Research) : Except String (List TokenSale) := do
  require (state.props.time ≤ op.startTime) "Start time must be >= current time"
  require (op.startTime < op.endTime) "End time must be >= start time"
  require (∀ sale ∈ state.sales, sale.externalId ≠ op.externalId) uniquenessViolated
  return state.sales ++ [
    { id := state.sales.length
      externalId := op.externalId
      researchId := research.id
      researchExternalId := research.externalId
      securityTokensOnSale := op.securityTokensOnSale
      startTime := op.startTime
      endTime := op.endTime
      totalAmount := ⟨0, op.softCap.symbol⟩
      softCap := op.softCap
      hardCap := op.hardCap
      status := .inactive }]

def apply (state : State) (op : CreateResearchTokenSaleOperation) : Except String State := do
  require (state.props.time ≤ op.startTime) ""
  require (state.accountExists op.researchGroup) "Account ${1} does not exist"
  let group ← state.getResearchGroupByAccount op.researchGroup
  let research ← state.getResearch op.researchExternalId
  op.securityTokensOnSale.forM (checkToken state research)
  require (research.researchGroupId = group.id) "Research ${1} does not belong to research group ${2}"
  require (∀ sale ∈ state.sales, sale.researchId = research.id → ¬ sale.Pending)
    "Research ${1} has a scheduled token sale already"
  let balances ← op.securityTokensOnSale.foldlM
    (fun balances token => freezeAccountBalance balances research.researchGroup token)
    state.balances
  let sales ← createResearchTokenSale state op research
  return { state with balances, sales }

end CreateResearchTokenSaleOperation

structure ContributeToTokenSaleOperation where
  contributor : Name
  tokenSaleExternalId : Name
  amount : Asset
deriving DecidableEq, Repr

namespace ContributeToTokenSaleOperation

def validate (op : ContributeToTokenSaleOperation) : Except String Unit :=
  require (0 < op.amount.amount) "Contribution must and greater than 0"

/-- What is left up to the hard cap when the contribution reaches it. -/
def amountToContribute (op : ContributeToTokenSaleOperation) (sale : TokenSale)
    (isHardCapReached : Bool) : Except String Asset :=
  if isHardCapReached then sale.hardCap.sub sale.totalAmount else return op.amount

def apply (percentOf : Int → Int → Int) (state : State) (op : ContributeToTokenSaleOperation) :
    Except String State := do
  require (state.accountExists op.contributor) "Account ${1} does not exist"
  let sale ← expect (state.sales.find? fun sale => sale.externalId == op.tokenSaleExternalId)
    "Research token sale ${1} does not exist"
  let _ ← state.getResearch sale.researchExternalId
  require (sale.status = .active) "Research token sale ${1} is in ${2} status"
  require (accountBalanceExists state.balances op.contributor op.amount.symbol)
    "${1} asset balance does not exist for ${2} account"
  let balance ← getAccountBalance state.balances op.contributor op.amount.symbol
  require (op.amount.amount ≤ balance.amount)
    "Not enough funds to contribute. Available: ${1} Requested: ${2}"
  let sum ← sale.totalAmount.add op.amount
  let isHardCapReached ← sum.atLeast sale.hardCap
  let amount ← amountToContribute op sale isHardCapReached
  let contributions ← contribute state.contributions sale.id op.contributor amount
  let balances ← adjustAccountBalance state.assets state.balances op.contributor amount.neg
  let sales ← collectFunds state.sales sale.id amount
  if isHardCapReached then
    finishResearchTokenSale percentOf
      { state with balances, contributions, sales := updateStatus sales sale.id .finished } sale.id
  else return { state with balances, contributions, sales }

end ContributeToTokenSaleOperation

/-! ## What a sale moves -/

section Loops

variable {may : Name → AssetSymbol → Prop} {balances after : List Balance} {group : Name}
variable {tokens : List Asset}

/-- Tokens that can be put on sale. -/
def Offerable (tokens : List Asset) : Prop :=
  ∀ token ∈ tokens, 0 < token.amount ∧ token.symbol ≠ deipSymbol

theorem freezeTokens_shifted (may : Name → AssetSymbol → Prop) (offerable : Offerable tokens)
    (froze : tokens.foldlM (fun balances token => freezeAccountBalance balances group token)
      balances = .ok after) :
    Shifted may (fun _ => 0) balances after ∧ ∀ owner symbol, frozen after owner symbol =
      frozen balances owner symbol +
        (if group = owner then total (fun token => token.under symbol) tokens else 0) := by
  induction tokens generalizing balances with
  | nil =>
    rw [List.foldlM_nil, pure_ok_iff] at froze
    subst froze
    exact ⟨Shifted.refl may balances, fun _ _ => by simp⟩
  | cons token rest hypothesis =>
    rw [List.foldlM_cons, bind_ok_iff] at froze
    obtain ⟨middle, first, others⟩ := froze
    obtain ⟨positive, foreign⟩ := offerable token List.mem_cons_self
    obtain ⟨shifted, more⟩ := freezeAccountBalance_shifted may positive.le foreign first
    obtain ⟨shifted', more'⟩ :=
      hypothesis (fun other member => offerable other (List.mem_cons_of_mem _ member)) others
    refine ⟨(shifted.trans shifted').congr fun _ => add_zero 0, fun owner symbol => ?_⟩
    rw [more', more, total_cons]
    split <;> omega

theorem unfreezeTokens_shifted (may : Name → AssetSymbol → Prop) (offerable : Offerable tokens)
    (unfroze : unfreezeTokens balances group tokens = .ok after) :
    Shifted may (fun _ => 0) balances after ∧ ∀ owner symbol, frozen after owner symbol =
      frozen balances owner symbol -
        (if group = owner then total (fun token => token.under symbol) tokens else 0) := by
  unfold unfreezeTokens at unfroze
  induction tokens generalizing balances with
  | nil =>
    rw [List.foldlM_nil, pure_ok_iff] at unfroze
    subst unfroze
    exact ⟨Shifted.refl may balances, fun _ _ => by simp⟩
  | cons token rest hypothesis =>
    rw [List.foldlM_cons, bind_ok_iff] at unfroze
    obtain ⟨middle, first, others⟩ := unfroze
    obtain ⟨positive, foreign⟩ := offerable token List.mem_cons_self
    obtain ⟨shifted, less⟩ := unfreezeAccountBalance_shifted may positive.le foreign first
    obtain ⟨shifted', less'⟩ :=
      hypothesis (fun other member => offerable other (List.mem_cons_of_mem _ member)) others
    refine ⟨(shifted.trans shifted').congr fun _ => add_zero 0, fun owner symbol => ?_⟩
    rw [less', less, total_cons]
    split <;> omega

/-- A payment from one owner to another moves nothing in or out. -/
theorem transfer_moved {assets : List AssetObject} {middle : List Balance} {payer payee : Name}
    {amount : Asset} (payerMay : may payer amount.symbol) (payeeMay : may payee amount.symbol)
    (debited : adjustAccountBalance assets balances payer amount.neg = .ok middle)
    (credited : adjustAccountBalance assets middle payee amount = .ok after) :
    Moved may (fun _ => 0) balances after := by
  have mayPay : may payer amount.neg.symbol := payerMay
  have moved := (adjustAccountBalance_moved may (.inl mayPay) debited).trans
    (adjustAccountBalance_moved may (.inl payeeMay) credited)
  refine moved.congr fun symbol => ?_
  rw [Asset.under_neg]
  omega

variable {percentOf : Int → Int → Int} {assets : List AssetObject} {totalAmount token : Asset}
variable {contributions : List Contribution}

theorem distributeToken_moved (groupMay : ∀ symbol, may group symbol)
    (ownersMay : ∀ contribution ∈ contributions, ∀ symbol, may contribution.owner symbol)
    (distributed : distributeToken percentOf assets group totalAmount contributions balances token =
      .ok after) : Moved may (fun _ => 0) balances after := by
  simp only [distributeToken, bind_ok_iff] at distributed
  obtain ⟨⟨paid, amount⟩, ran, distributed⟩ := distributed
  have shares : Moved may (fun _ => 0) balances paid := by
    refine foldlM_invariant (fun remaining (progress : List Balance × Int) =>
      (∀ contribution ∈ remaining, ∀ symbol, may contribution.owner symbol) ∧
        Moved may (fun _ => 0) balances progress.1) ?_ ⟨ownersMay, Moved.refl may balances⟩ ran |>.2
    rintro contribution rest progress next ⟨owners, moved⟩ stepped
    simp only [payContributor, bind_ok_iff, pure_ok_iff] at stepped
    obtain ⟨_, _, debited, first, credited, second, rfl⟩ := stepped
    refine ⟨fun other member => owners other (List.mem_cons_of_mem _ member), ?_⟩
    exact (moved.trans (transfer_moved (groupMay _)
      (owners contribution List.mem_cons_self _) first second)).congr fun _ => add_zero 0
  split at distributed
  · rw [pure_ok_iff] at distributed
    exact distributed ▸ shares
  · rename_i last isLast
    split at distributed
    · simp only [bind_ok_iff] at distributed
      obtain ⟨credited, first, second⟩ := distributed
      have owner := ownersMay last (List.mem_of_getLast? isLast)
      have rest := (adjustAccountBalance_moved may (.inl (owner _)) first).trans
        (adjustAccountBalance_moved may (.inl (groupMay _)) second)
      refine (shares.trans rest).congr fun symbol => ?_
      rw [Asset.under_neg]
      omega
    · rw [pure_ok_iff] at distributed
      exact distributed ▸ shares

theorem distributeTokens_moved (groupMay : ∀ symbol, may group symbol)
    (ownersMay : ∀ contribution ∈ contributions, ∀ symbol, may contribution.owner symbol)
    (distributed : tokens.foldlM
      (distributeToken percentOf assets group totalAmount contributions) balances = .ok after) :
    Moved may (fun _ => 0) balances after := by
  refine foldlM_invariant (fun _ (reached : List Balance) => Moved may (fun _ => 0) balances reached)
    ?_ (Moved.refl may balances) distributed
  intro token rest reached next moved stepped
  exact (moved.trans (distributeToken_moved groupMay ownersMay stepped)).congr fun _ => add_zero 0

theorem refund_moved
    (ownersMay : ∀ contribution ∈ contributions, ∀ symbol, may contribution.owner symbol)
    (refunded : contributions.foldlM (fun balances contribution =>
      adjustAccountBalance assets balances contribution.owner contribution.amount) balances =
        .ok after) :
    Moved may (fun symbol => total (fun contribution => contribution.amount.under symbol)
      contributions) balances after := by
  induction contributions generalizing balances with
  | nil =>
    rw [List.foldlM_nil, pure_ok_iff] at refunded
    exact refunded ▸ Moved.refl may balances
  | cons contribution rest hypothesis =>
    rw [List.foldlM_cons, bind_ok_iff] at refunded
    obtain ⟨middle, paid, others⟩ := refunded
    have first := adjustAccountBalance_moved may
      (.inl (ownersMay contribution List.mem_cons_self _)) paid
    have later := hypothesis
      (fun other member => ownersMay other (List.mem_cons_of_mem _ member)) others
    refine (first.trans later).congr fun symbol => ?_
    rw [total_cons]

end Loops

end DeipChain.Ledger
