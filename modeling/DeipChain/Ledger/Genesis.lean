import DeipChain.Ledger.Accounts

/-!
# Genesis

The state that a chain starts from. The genesis file gives the supply of core tokens,
the tokens of the registrar and of the accounts, the assets, and what there is of
research. The supplies that it states are compared with the balances that it lists, and
the vesting balances that it lists are not part of them.
-/
namespace DeipChain.Ledger

open DeipChain.Result DeipChain.Table

/-- `DEIP_REGISTRAR_ACCOUNT_NAME`. -/
def registrarAccountName : Name := "regacc"

/-- `DEIP_INITIAL_DELEGATE_ACCOUNT_NAME`. -/
def initialDelegateAccountName : Name := "initdelegate"

structure GenesisBalance where
  owner : Name
  amount : Int
  symbol : Name
deriving DecidableEq, Repr

/-- An asset of the genesis file, with the symbol that `asset::from_string` makes of its
    name and precision. -/
structure GenesisAsset where
  symbol : AssetSymbol
  stringSymbol : Name
  currentSupply : Int
deriving DecidableEq, Repr

structure GenesisGroup where
  account : Name
  creator : Name
  members : List Name
deriving DecidableEq, Repr

structure GenesisDiscipline where
  externalId : Name
  parentExternalId : Name
deriving DecidableEq, Repr

structure GenesisExpertToken where
  account : Name
  disciplineExternalId : Name
  amount : Int
deriving DecidableEq, Repr

structure GenesisVesting where
  id : Nat
  owner : Name
  balance : Int
  vestingDurationSeconds : Nat
  vestingCliffSeconds : Nat
  periodDurationSeconds : Nat
deriving DecidableEq, Repr

/-- The part of `genesis_state_type` that the ledger reads. -/
structure GenesisState where
  initialTimestamp : Time
  initSupply : Int
  registrarName : Name
  registrarCommonTokens : Int
  accounts : List Name
  accountBalances : List GenesisBalance
  assets : List GenesisAsset
  researchGroups : List GenesisGroup
  witnessCandidates : List Name
  disciplines : List GenesisDiscipline
  expertTokens : List GenesisExpertToken
  researches : List CreateResearchOperation
  assessment : Assessment
  vestingBalances : List GenesisVesting
deriving DecidableEq, Repr

namespace GenesisState

/-! ## The tables -/

/-- What the listed balances hold of an asset. -/
def listed (genesis : GenesisState) (symbol : Name) : Int :=
  total (fun balance => if balance.symbol = symbol then balance.amount else 0)
    genesis.accountBalances

/-- The name of the core asset. -/
def coreName : Name := "DEIP"

def coreAsset (genesis : GenesisState) : AssetObject where
  symbol := deipSymbol
  stringSymbol := coreName
  issuer := registrarAccountName
  type := .basic
  tokenizedResearch := none
  licenseRevenueHoldersShare := none
  maxSupply := maxShareSupply
  currentSupply := genesis.initSupply
  isDefault := false

def issuedAsset (asset : GenesisAsset) : AssetObject where
  symbol := asset.symbol
  stringSymbol := asset.stringSymbol
  issuer := registrarAccountName
  type := .basic
  tokenizedResearch := none
  licenseRevenueHoldersShare := none
  maxSupply := maxShareSupply
  currentSupply := asset.currentSupply
  isDefault := true

def initAsset (genesis : GenesisState) (assets : List AssetObject) (asset : GenesisAsset) :
    Except String (List AssetObject) := do
  require (genesis.listed asset.stringSymbol = asset.currentSupply)
    "Total supply (${total}) is not equal to inited supply (${inited}) for ${s} asset"
  createAsset assets (issuedAsset asset)

/-- `init_genesis_assets`. -/
def initAssets (genesis : GenesisState) : Except String (List AssetObject) := do
  require (genesis.listed coreName = genesis.initSupply - genesis.registrarCommonTokens)
    "Total supply (${total}) is not equal to inited supply (${inited}) for ${s} asset"
  let core ← createAsset [] genesis.coreAsset
  genesis.assets.foldlM genesis.initAsset core

/-- The global properties, the schedule and the assets. -/
def blank (genesis : GenesisState) (assets : List AssetObject) : State where
  props :=
    { headBlockNumber := 0
      time := genesis.initialTimestamp
      currentWitness := ""
      currentSupply := ⟨genesis.initSupply, deipSymbol⟩
      commonTokensFund := ⟨0, deipSymbol⟩
      totalExpertTokensAmount := 0
      totalCommonTokensAmount := 0 }
  schedule :=
    { top20Weight := 1
      timeshareWeight := 5
      witnessPayNormalizationFactor := 25
      accountCreationFee := minAccountCreationFee.amount }
  accounts := []
  balances := []
  assets := assets
  vestings := []
  sales := []
  contributions := []
  supplies := []
  opportunities := []
  awards := []
  recipients := []
  requests := []
  routes := []
  witnesses := []
  witnessVotes := []
  expertTokens := []
  disciplines := []
  groups := []
  rewardPools := []
  registry := ⟨[], [], [], [], [], []⟩

/-- The registrar has the common tokens that the genesis file gives it, of whatever sign. -/
def initRegistrar (genesis : GenesisState) (state : State) : State :=
  { state with
    accounts := state.accounts ++ [
      { freshAccount state.accounts.length genesis.registrarName with
        mined := true
        commonTokensBalance := genesis.registrarCommonTokens }]
    props := { state.props with
      totalCommonTokensAmount := state.props.totalCommonTokensAmount + genesis.registrarCommonTokens
      commonTokensFund := { state.props.commonTokensFund with
        amount := state.props.commonTokensFund.amount + genesis.registrarCommonTokens } } }

/-- `init_genesis_accounts`. -/
def initAccounts (genesis : GenesisState) (state : State) : Except String State :=
  genesis.accounts.foldlM (fun state name =>
    createAccountByFaucets state name genesis.registrarName minAccountCreationFee true)
    (genesis.initRegistrar state)

def initAccountBalance (state : State) (balance : GenesisBalance) : Except String State := do
  let asset ← expect (state.assets.find? fun asset => asset.stringSymbol == balance.symbol)
    "Asset ${1} is not found"
  let balances ← adjustAccountBalance state.assets state.balances balance.owner
    ⟨balance.amount, asset.symbol⟩
  return { state with balances }

/-- `init_genesis_research_group`. -/
def initResearchGroup (state : State) (group : GenesisGroup) : Except String State := do
  require (0 < group.members.length) "Research group must contain at least 1 member"
  let creator ← state.getAccount group.creator
  require (∀ member ∈ group.members, state.accountExists member) unknownKey
  let created ← createAccountByFaucets state group.account creator.name minAccountCreationFee false
  let row ← created.getResearchGroupByAccount group.account
  let members := (group.members.filter fun member => member != creator.name).map
    fun member => (member, row.id)
  return { created with
    registry := { created.registry with members := created.registry.members ++ members } }

def initWitness (state : State) (owner : Name) : Except String State := do
  require (owner ≠ "") "Witness 'owner_name' should not be empty."
  require (∀ witness ∈ state.witnesses, witness.owner ≠ owner) uniquenessViolated
  return { state with
    witnesses := state.witnesses ++
      [{ id := state.witnesses.length, owner, votes := 0, schedule := .top20 }] }

/-- A discipline without a parent has the parent id zero. -/
def parentOf (state : State) (discipline : GenesisDiscipline) : Except String Nat :=
  if discipline.parentExternalId ≠ "" then do
    let parent ← state.getDiscipline discipline.parentExternalId
    return parent.id
  else return 0

def initDiscipline (state : State) (discipline : GenesisDiscipline) : Except String State := do
  let parentId ← parentOf state discipline
  require (∀ other ∈ state.disciplines, other.externalId ≠ discipline.externalId) uniquenessViolated
  return { state with
    disciplines := state.disciplines ++
      [{ id := state.disciplines.length, externalId := discipline.externalId, parentId }] }

/-- The accounts of users that `lookup_user_accounts` finds, by name. -/
def userAccounts (genesis : GenesisState) (state : State) : List Name :=
  (((state.accounts.map Account.name).insertionSort (· ≤ ·)).take bulkFetchLimit).filter fun name =>
    name ∉ genesis.researchGroups.map GenesisGroup.account ∧ name ≠ initialDelegateAccountName ∧
      name ≠ registrarAccountName

/-- The expertise of an account in a discipline. -/
def expertiseOf (genesis : GenesisState) (name : Name) (discipline : Discipline) : Int :=
  ((genesis.expertTokens.find? fun token =>
    token.account == name && token.disciplineExternalId == discipline.externalId).map
      GenesisExpertToken.amount).getD defaultExpertiseAmount

def initAccountExpertise (genesis : GenesisState) (state : State) (name : Name) :
    Except String State :=
  state.userDisciplines.foldlM (fun state discipline =>
    createExpertToken state name discipline.id (genesis.expertiseOf name discipline)) state

def initVestingBalance (state : State) (vesting : GenesisVesting) : Except String State := do
  require (0 < vesting.balance) "Deposit balance must be greater than 0"
  require (0 < vesting.vestingDurationSeconds) "Vesting duration must be longer than 0"
  require (vesting.vestingCliffSeconds < vesting.vestingDurationSeconds)
    "Vesting duration should be longer than vesting cliff"
  require (0 < vesting.vestingCliffSeconds) "Vesting cliff must be longer than 0"
  require (0 < vesting.periodDurationSeconds) "Withdraw period duration must be longer than 0"
  require (vesting.vestingDurationSeconds % vesting.periodDurationSeconds = 0)
    "Vesting duration should contain integer number of withdraw period"
  require (∀ other ∈ state.vestings, other.id ≠ vesting.id) uniquenessViolated
  return { state with
    vestings := state.vestings ++ [
      { id := vesting.id
        owner := vesting.owner
        balance := ⟨vesting.balance, deipSymbol⟩
        withdrawn := ⟨0, deipSymbol⟩
        -- the cliff is set to the whole duration
        vestingCliffSeconds := vesting.vestingDurationSeconds
        vestingDurationSeconds := vesting.vestingDurationSeconds
        periodDurationSeconds := vesting.periodDurationSeconds
        startTimestamp := state.props.time }] }

/-- `init_genesis`. -/
def init (genesis : GenesisState) : Except String State := do
  require (genesis.initialTimestamp ≠ 0) "Must initialize genesis timestamp."
  require (0 < genesis.witnessCandidates.length) "Cannot start a chain with zero witnesses."
  let assets ← genesis.initAssets
  require (genesis.registrarName ≠ "") "Registrar account 'name' should not be empty."
  let accounts ← genesis.initAccounts (genesis.blank assets)
  let balances ← genesis.accountBalances.foldlM initAccountBalance accounts
  let groups ← genesis.researchGroups.foldlM initResearchGroup balances
  let witnesses ← genesis.witnessCandidates.foldlM initWitness groups
  let disciplines ← genesis.disciplines.foldlM initDiscipline witnesses
  let experts ← (genesis.userAccounts disciplines).foldlM genesis.initAccountExpertise disciplines
  let researches ← genesis.researches.foldlM CreateResearchOperation.apply experts
  genesis.vestingBalances.foldlM initVestingBalance (genesis.assessment.apply researches)

end GenesisState

end DeipChain.Ledger
