import DeipChain.Ledger.Withdrawals

/-!
# The books of the ledger

Tokens lie in balances, vesting balances, contributions to token sales, discipline
supplies and funding opportunities. `held` adds up what lies there of an asset,
`outstanding` is what the ledger records as supplied, and `surplus` is the difference.
`Sound` collects the properties of the tables that every successful step keeps.
Further properties, one for each `Aspect`, are kept by the steps that do not give
them up.

`Posted` says what a step does to all of these. The steps of an evaluator are
composed by `Posted.trans`.
-/
namespace DeipChain.Ledger

open DeipChain.Result DeipChain.Table

/-! ## The balance sheet -/

/-- What lies in the tables of the ledger of one asset. -/
def held (state : State) (symbol : AssetSymbol) : Int :=
  total (Balance.held symbol) state.balances +
  total (fun vesting => vesting.balance.under symbol) state.vestings +
  total (fun contribution => contribution.amount.under symbol) state.contributions +
  total (fun supply => supply.balance.under symbol) state.supplies +
  total (fun opportunity => opportunity.currentSupply.under symbol) state.opportunities

/-- What the ledger records as supplied and not locked in the fund of common tokens. -/
def outstanding (state : State) (symbol : AssetSymbol) : Int :=
  if symbol = deipSymbol then
    state.props.currentSupply.amount - state.props.commonTokensFund.amount
  else total (AssetObject.supplied symbol) state.assets

def surplus (state : State) (symbol : AssetSymbol) : Int :=
  held state symbol - outstanding state symbol

/-! ## Sound tables -/

/-- What a contribution adds to the funds of a sale. -/
def Contribution.toward (sale : Nat) (symbol : AssetSymbol) (contribution : Contribution) : Int :=
  if contribution.researchTokenSaleId = sale then contribution.amount.under symbol else 0

/-- A sale that has not ended. -/
def TokenSale.Pending (sale : TokenSale) : Prop :=
  sale.status = .active ∨ sale.status = .inactive

instance (sale : TokenSale) : Decidable sale.Pending :=
  inferInstanceAs (Decidable (_ ∨ _))

/-- What a sale offers of an asset. -/
def TokenSale.offered (symbol : AssetSymbol) (sale : TokenSale) : Int :=
  total (fun token => token.under symbol) sale.securityTokensOnSale

/-- The account of the research group that a research belongs to. -/
def Registry.groupOf (registry : Registry) (research : Nat) : Option Name :=
  (registry.researches.find? fun other => other.id == research).map Research.researchGroup

/-- Researches have the numbers of their creation as ids. -/
def Registry.Numbered (registry : Registry) : Prop :=
  registry.researches.map Research.id = List.range registry.researches.length

theorem Registry.Numbered.nodup {registry : Registry} (numbered : registry.Numbered) :
    (registry.researches.map Research.id).Nodup := by
  rw [numbered]
  exact List.nodup_range

/-- What a sale keeps frozen of an asset for an owner. -/
def TokenSale.freezes (registry : Registry) (owner : Name) (symbol : AssetSymbol)
    (sale : TokenSale) : Int :=
  if sale.Pending ∧ registry.groupOf sale.researchId = some owner then sale.offered symbol else 0

/-- Each sale that has not ended has collected the contributions to it, short of its hard
    cap, and has its tokens frozen. A sale that has ended has no contributions. -/
structure SalesKept (registry : Registry) (balances : List Balance) (sales : List TokenSale)
    (contributions : List Contribution) : Prop where
  ids : sales.map TokenSale.id = List.range sales.length
  tokens : ∀ sale ∈ sales, ∀ token ∈ sale.securityTokensOnSale,
    0 < token.amount ∧ token.symbol ≠ deipSymbol
  collected : ∀ sale ∈ sales, sale.Pending → ∀ symbol,
    total (Contribution.toward sale.id symbol) contributions = sale.totalAmount.under symbol
  capped : ∀ sale ∈ sales, sale.Pending → sale.totalAmount.symbol = sale.hardCap.symbol ∧
    sale.totalAmount.amount < sale.hardCap.amount
  known : ∀ contribution ∈ contributions, ∃ sale ∈ sales,
    sale.id = contribution.researchTokenSaleId ∧ sale.Pending
  symbols : ∀ contribution ∈ contributions, ∀ sale ∈ sales,
    sale.id = contribution.researchTokenSaleId → contribution.amount.symbol = sale.hardCap.symbol
  researched : ∀ sale ∈ sales, ∃ group, registry.groupOf sale.researchId = some group
  frozen : ∀ owner symbol, frozen balances owner symbol =
    total (TokenSale.freezes registry owner symbol) sales

/-- Payments and new researches leave the sales as they are. -/
theorem SalesKept.congr {registry registry' : Registry} {balances balances' : List Balance}
    {sales : List TokenSale} {contributions : List Contribution}
    (kept : SalesKept registry balances sales contributions)
    (stable : ∀ research group, registry.groupOf research = some group →
      registry'.groupOf research = some group)
    (frozen' : ∀ owner symbol, Ledger.frozen balances' owner symbol =
      Ledger.frozen balances owner symbol) :
    SalesKept registry' balances' sales contributions := by
  refine { kept with researched := ?_, frozen := ?_ }
  · intro sale member
    obtain ⟨group, owned⟩ := kept.researched sale member
    exact ⟨group, stable _ _ owned⟩
  · intro owner symbol
    rw [frozen', kept.frozen]
    apply total_congr
    intro sale member
    obtain ⟨group, owned⟩ := kept.researched sale member
    rw [TokenSale.freezes, TokenSale.freezes, owned, stable _ _ owned]

/-- What a recipient gets of an award. -/
def AwardRecipient.toward (award : Name) (symbol : AssetSymbol) (recipient : AwardRecipient) :
    Int :=
  if recipient.awardNumber = award then recipient.totalAmount.under symbol else 0

/-- The part of an award that the university keeps. -/
def universityFee (award : Asset) (overhead : Percent) : Asset :=
  ⟨percentShare award.amount overhead.amount, award.symbol⟩

/-- The recipients of an award and the university share all of it. -/
structure AwardsKept (awards : List Award) (recipients : List AwardRecipient) : Prop where
  numbers : (awards.map Award.awardNumber).Nodup
  shared : ∀ award ∈ awards, ∀ symbol,
    total (AwardRecipient.toward award.awardNumber symbol) recipients =
      award.amount.under symbol - (universityFee award.amount award.universityOverhead).under symbol
  known : ∀ recipient ∈ recipients, recipient.awardNumber ∈ awards.map Award.awardNumber

/-- Symbols are unique, and the core asset is there and not a security token. -/
structure AssetsKept (assets : List AssetObject) : Prop where
  symbols : (assets.map AssetObject.symbol).Nodup
  listed : deipSymbol ∈ assets.map AssetObject.symbol
  core : ∀ asset ∈ assets, asset.symbol = deipSymbol → asset.type = .basic

/-- Supplies have different ids, and none is overdrawn. -/
structure SuppliesKept (supplies : List DisciplineSupply) : Prop where
  ids : (supplies.map DisciplineSupply.id).Nodup
  funded : ∀ supply ∈ supplies, 0 ≤ supply.balance.amount

/-- What every successful step keeps. -/
structure Sound (state : State) : Prop where
  solvent : Solvent state.balances
  thawed : Thawed state.balances
  distinct : Distinct state.balances
  named : Named state.accounts
  funded : state.props.totalCommonTokensAmount =
    total Account.commonTokensBalance state.accounts
  supply : state.props.currentSupply.symbol = deipSymbol
  fund : state.props.commonTokensFund.symbol = deipSymbol
  assets : AssetsKept state.assets
  researches : state.registry.Numbered
  sales : SalesKept state.registry state.balances state.sales state.contributions
  awards : AwardsKept state.awards state.recipients
  supplies : SuppliesKept state.supplies

/-! ## Aspects of the books -/

/-- The name belongs to an account. -/
def State.Known (state : State) (name : Name) : Prop :=
  name ∈ state.accounts.map Account.name

/-- Whoever owns tokens, or is named to receive some, has an account. -/
structure Rooted (state : State) : Prop where
  balances : ∀ balance ∈ state.balances, state.Known balance.owner
  groups : ∀ group ∈ state.groups, state.Known group.account ∧ state.Known group.creator
  contributions : ∀ contribution ∈ state.contributions, state.Known contribution.owner
  recipients : ∀ recipient ∈ state.recipients, state.Known recipient.awardee
  requests : ∀ request ∈ state.requests, state.Known request.requester
  researches : ∀ research ∈ state.registry.researches, state.Known research.researchGroup

/-- Expert tokens are counted, none is negative, and they bound every witness's votes. -/
structure Counted (state : State) : Prop where
  experts : ∀ account ∈ state.accounts, 0 ≤ account.expertiseTokensBalance
  counted : state.props.totalExpertTokensAmount =
    total Account.expertiseTokensBalance state.accounts
  elected : Elected state

/-- What a token adds to the expertise of an account. -/
def ExpertToken.heldBy (name : Name) (token : ExpertToken) : Int :=
  if token.accountName = name then token.amount else 0

/-- No expert token is negative, and each account counts its own ones. -/
structure Rated (state : State) : Prop where
  tokens : ∀ token ∈ state.expertTokens, 0 ≤ token.amount
  known : ∀ token ∈ state.expertTokens, state.Known token.accountName
  owned : ∀ account ∈ state.accounts, account.expertiseTokensBalance =
    total (ExpertToken.heldBy account.name) state.expertTokens
  counted : state.props.totalExpertTokensAmount =
    total Account.expertiseTokensBalance state.accounts

/-- Only core tokens lie outside the balances, and no funding opportunity has spent any. -/
structure CoreOnly (state : State) : Prop where
  vestings : ∀ vesting ∈ state.vestings, vesting.balance.symbol = deipSymbol
  contributions : ∀ contribution ∈ state.contributions, contribution.amount.symbol = deipSymbol
  supplies : ∀ supply ∈ state.supplies, supply.balance.symbol = deipSymbol
  opportunities : ∀ opportunity ∈ state.opportunities,
    opportunity.amount.symbol = deipSymbol ∧ opportunity.currentSupply = opportunity.amount
  groups : ∀ group ∈ state.groups, group.balance = ⟨0, deipSymbol⟩
  rewardPools : state.rewardPools = []

/-- The properties of the books that some steps give up. -/
inductive Aspect where
  | reserved
  | counted
  | rated
  | rooted
  | coreOnly
  | awarded (recipients : List AwardRecipient) (requests : List WithdrawalRequest)

/-- What an aspect says. The last one says what the tables of award recipients and of
    withdrawal requests are. -/
def Holds : Aspect → State → Prop
  | .reserved, state => ∀ account ∈ state.accounts, account.Reserved
  | .counted, state => Counted state
  | .rated, state => Rated state
  | .rooted, state => Rooted state
  | .coreOnly, state => CoreOnly state
  | .awarded recipients requests, state =>
    state.recipients = recipients ∧ state.requests = requests

/-- A step that brings `change symbol` of each asset into the ledger. It keeps the
    tables sound, the aspects in `kept`, and every sale that has ended. -/
structure Posted (kept : Aspect → Prop) (change : AssetSymbol → Int) (state next : State) :
    Prop where
  sound : Sound state → Sound next
  closed : Sound state → ∀ sale ∈ state.sales, ¬ sale.Pending → sale ∈ next.sales
  surplus : Sound state → ∀ symbol, surplus next symbol = surplus state symbol + change symbol
  holds : Sound state → ∀ aspect, kept aspect → Holds aspect state → Holds aspect next

namespace Posted

variable {kept : Aspect → Prop} {change other : AssetSymbol → Int} {state middle next : State}

theorem refl (kept : Aspect → Prop) (state : State) : Posted kept (fun _ => 0) state state :=
  ⟨id, fun _ _ member _ => member, fun _ _ => (add_zero _).symm, fun _ _ _ => id⟩

theorem trans (first : Posted kept change state middle) (second : Posted kept other middle next) :
    Posted kept (fun symbol => change symbol + other symbol) state next where
  sound := second.sound ∘ first.sound
  closed sound sale member ended :=
    second.closed (first.sound sound) sale (first.closed sound sale member ended) ended
  surplus sound symbol := by
    rw [second.surplus (first.sound sound), first.surplus sound, add_assoc]
  holds sound aspect keeps before :=
    second.holds (first.sound sound) aspect keeps (first.holds sound aspect keeps before)

theorem congr (posted : Posted kept change state next)
    (same : Sound state → ∀ symbol, change symbol = other symbol) :
    Posted kept other state next :=
  ⟨posted.sound, posted.closed, fun sound symbol => same sound symbol ▸ posted.surplus sound symbol,
    posted.holds⟩

/-- What a step does may be shown from the soundness of the state before it. -/
theorem of_sound (posted : Sound state → Posted kept change state next) :
    Posted kept change state next :=
  ⟨fun sound => (posted sound).sound sound, fun sound => (posted sound).closed sound,
    fun sound => (posted sound).surplus sound, fun sound => (posted sound).holds sound⟩

end Posted

/-- The owners that the books of a state know, as far as it is rooted. -/
def grounds (state : State) (name : Name) (_ : AssetSymbol) : Prop :=
  Rooted state → state.Known name

theorem Rooted.ownedBy (state : State) : OwnedBy (grounds state) state.balances :=
  fun balance member rooted => rooted.balances balance member

/-! ## Steps on balances and accounts -/

section Steps

variable {kept : Aspect → Prop} {change : AssetSymbol → Int} {state next : State}

/-- Payments to owners whom the books know, as far as they are kept rooted. -/
theorem Moved.posted_of {may : Name → AssetSymbol → Prop} {balances : List Balance}
    (moved : Moved may change state.balances balances)
    (owned : kept .rooted → Rooted state → ∀ balance ∈ balances, state.Known balance.owner) :
    Posted kept change state { state with balances } where
  sound sound := { sound with
    solvent := moved.solvent sound.solvent
    thawed := moved.thawed sound.thawed
    distinct := moved.distinct sound.distinct
    sales := sound.sales.congr (fun _ _ => id) moved.frozen }
  closed _ _ member _ := member
  surplus _ symbol := by
    have sum := moved.held symbol
    simp only [surplus, Ledger.held, outstanding]
    omega
  holds _ aspect keeps before := by
    cases aspect with
    | reserved => exact before
    | counted => exact { before with elected := before.elected }
    | rated => exact { before with tokens := before.tokens }
    | rooted => exact { before with balances := owned keeps before }
    | coreOnly => exact { before with vestings := before.vestings }
    | awarded _ _ => exact before

/-- Payments between balances. -/
theorem Moved.posted {balances : List Balance}
    (moved : Moved (grounds state) change state.balances balances) :
    Posted kept change state { state with balances } :=
  moved.posted_of fun _ rooted balance member =>
    moved.owned (Rooted.ownedBy state) balance member rooted

/-- The tables that no property of the books mentions. -/
theorem posted_unrecorded (kept : Aspect → Prop) (state : State) (routes : List WithdrawRoute) (schedule : WitnessSchedule)
    (headBlockNumber : Nat) (time : Time) (currentWitness : Name) :
    Posted kept (fun _ => 0) state { state with
      routes
      schedule
      props := { state.props with headBlockNumber, time, currentWitness } } where
  sound sound := { sound with solvent := sound.solvent }
  closed _ _ member _ := member
  surplus _ symbol := (add_zero _).symm
  holds _ aspect _ before := by
    cases aspect with
    | reserved => exact before
    | counted => exact { before with elected := before.elected }
    | rated => exact { before with tokens := before.tokens }
    | rooted => exact { before with balances := before.balances }
    | coreOnly => exact { before with vestings := before.vestings }
    | awarded _ _ => exact before

/-- A name keeps its account when accounts are rewritten. -/
theorem Rooted.of_names {accounts : List Account} (rooted : Rooted state)
    (names : accounts.map Account.name = state.accounts.map Account.name) :
    Rooted { state with accounts } := by
  have same (name : Name) (known : state.Known name) :
      State.Known { state with accounts } name := by
    rw [State.Known, names]
    exact known
  exact ⟨fun balance member => same _ (rooted.balances balance member),
    fun group member => (rooted.groups group member).imp (same _) (same _),
    fun contribution member => same _ (rooted.contributions contribution member),
    fun recipient member => same _ (rooted.recipients recipient member),
    fun request member => same _ (rooted.requests request member),
    fun research member => same _ (rooted.researches research member)⟩

/-- An account keeps its count when accounts are rewritten. -/
theorem Rated.of_ratings {accounts : List Account} (rated : Rated state)
    (ratings : accounts.map Account.rating = state.accounts.map Account.rating) :
    Rated { state with accounts } := by
  have names : accounts.map Account.name = state.accounts.map Account.name := by
    have same := congrArg (List.map Prod.fst) ratings
    simp only [List.map_map] at same
    exact same
  refine ⟨rated.tokens, fun token member => ?_, fun account member => ?_, rated.counted.trans ?_⟩
  · rw [State.Known, names]
    exact rated.known token member
  · have listed : account.rating ∈ state.accounts.map Account.rating :=
      ratings ▸ List.mem_map_of_mem member
    obtain ⟨earlier, known, same⟩ := List.mem_map.mp listed
    have name : earlier.name = account.name := congrArg Prod.fst same
    have count : earlier.expertiseTokensBalance = account.expertiseTokensBalance :=
      congrArg Prod.snd same
    rw [← count, rated.owned earlier known, name]
  · have counts := congrArg (List.map Prod.snd) ratings
    simp only [List.map_map] at counts
    exact (congrArg List.sum counts).symm

theorem Funded.named {common : Int} {accounts : List Account}
    (funded : Funded common state.accounts accounts) (sound : Sound state) : Named accounts := by
  unfold Named
  rw [funded.names]
  exact sound.named

/-- Core tokens leave the fund for the balances, and as many common tokens leave the
    accounts. -/
theorem Released.posted {paid : Int} (released : Released (grounds state) paid (-paid) state next) :
    Posted kept (fun _ => 0) state next := by
  obtain ⟨⟨accounts, witnesses, witnessVotes, balances, rfl, funded, moved⟩, elected⟩ := released
  constructor
  · intro sound
    exact { sound with
      solvent := moved.solvent sound.solvent
      thawed := moved.thawed sound.thawed
      distinct := moved.distinct sound.distinct
      named := funded.named sound
      funded := by
        rw [funded.common, ← sound.funded]
        exact Int.sub_eq_add_neg
      sales := sound.sales.congr (fun _ _ => id) moved.frozen }
  · exact fun _ _ member _ => member
  · intro _ symbol
    have sum := moved.held symbol
    simp only [surplus, held, outstanding, releasedProps, Asset.under] at sum ⊢
    by_cases core : symbol = deipSymbol
    · simp only [core, if_true] at sum ⊢
      omega
    · simp only [core, Ne.symm core, if_false] at sum ⊢
      omega
  · intro _ aspect _ before
    cases aspect with
    | reserved => exact funded.reserved before
    | counted =>
      exact ⟨funded.experts before.experts, before.counted.trans funded.expertise.symm,
        elected before.elected⟩
    | rated =>
      have kept := before.of_ratings funded.ratings
      exact { kept with tokens := kept.tokens }
    | rooted =>
      have owned := moved.owned (Rooted.ownedBy state)
      have renamed := before.of_names funded.names
      refine { renamed with balances := fun balance member => ?_ }
      unfold State.Known
      rw [funded.names]
      exact owned balance member before
    | coreOnly => exact { before with vestings := before.vestings }
    | awarded _ _ => exact before

theorem Revoted.posted (revoted : Revoted state next) : Posted kept (fun _ => 0) state next :=
  Released.posted (Released.of_revoted revoted)

/-- Rewritten accounts that hold the same tokens. -/
theorem Funded.posted {accounts : List Account} (funded : Funded 0 state.accounts accounts) :
    Posted kept (fun _ => 0) state { state with accounts } :=
  Released.posted (Released.of_accounts (grounds state) funded)

/-- Core tokens that become common tokens of an account leave the supply outside the fund. -/
theorem increaseCommonTokens_posted {name : Name} {amount : Int}
    (increased : increaseCommonTokens state name amount = .ok next) :
    Posted kept (Asset.mk amount deipSymbol).under state next := by
  obtain ⟨_, _, accounts, funded, rfl⟩ := increaseCommonTokens_effect increased
  constructor
  · intro sound
    exact { sound with
      named := funded.named sound
      funded := by rw [funded.common, ← sound.funded] }
  · exact fun _ _ member _ => member
  · intro _ symbol
    simp only [surplus, held, outstanding, Asset.under]
    by_cases core : symbol = deipSymbol
    · simp only [core, if_true]
      omega
    · simp only [core, Ne.symm core, if_false]
      omega
  · intro _ aspect _ before
    cases aspect with
    | reserved => exact funded.reserved before
    | counted =>
      exact ⟨funded.experts before.experts, before.counted.trans funded.expertise.symm,
        before.elected⟩
    | rated =>
      have kept := before.of_ratings funded.ratings
      exact { kept with tokens := kept.tokens }
    | rooted =>
      have renamed := before.of_names funded.names
      exact { renamed with balances := renamed.balances }
    | coreOnly => exact { before with vestings := before.vestings }
    | awarded _ _ => exact before

end Steps

end DeipChain.Ledger
