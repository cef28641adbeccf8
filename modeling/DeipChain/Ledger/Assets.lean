import DeipChain.Ledger.Balances

/-!
# Assets and transfers

The asset service and the evaluators that create, issue, reserve and transfer assets.
Issuing and reserving change the supply recorded with the asset and a balance by the
same amount; a transfer changes two balances by opposite amounts.
-/
namespace DeipChain.Ledger

open DeipChain.Result DeipChain.Table

namespace State

def accountExists (state : State) (name : Name) : Bool :=
  state.accounts.any fun account => account.name == name

def getAccount (state : State) (name : Name) : Except String Account :=
  expect (state.accounts.find? fun account => account.name == name) unknownKey

def getResearchGroupByAccount (state : State) (account : Name) : Except String ResearchGroup :=
  expect (state.groups.find? fun group => group.account == account) unknownKey

def getResearchGroup (state : State) (id : Nat) : Except String ResearchGroup :=
  expect (state.groups.find? fun group => group.id == id) unknownKey

def isResearchGroupMember (state : State) (member : Name) (group : Nat) : Bool :=
  state.registry.members.any fun token => token == (member, group)

def getResearch (state : State) (externalId : Name) : Except String Research :=
  expect (state.registry.researches.find? fun research => research.externalId == externalId)
    unknownKey

def getResearchById (state : State) (id : Nat) : Except String Research :=
  expect (state.registry.researches.find? fun research => research.id == id) unknownKey

end State

/-! ## The asset service -/

/-- What an asset object contributes to the recorded supply of a symbol. -/
def AssetObject.supplied (symbol : AssetSymbol) (asset : AssetObject) : Int :=
  if asset.symbol = symbol then asset.currentSupply else 0

def getAssetBySymbol (assets : List AssetObject) (symbol : AssetSymbol) :
    Except String AssetObject :=
  expect (assets.find? fun asset => asset.symbol == symbol) "Asset ${1} is not found"

/-- `create_asset`: symbols and names of assets are unique. -/
def createAsset (assets : List AssetObject) (asset : AssetObject) :
    Except String (List AssetObject) := do
  require (asset.currentSupply ≤ asset.maxSupply)
    "Current supply can not be greater than Max supply"
  require (∀ other ∈ assets, other.symbol ≠ asset.symbol ∧ other.stringSymbol ≠ asset.stringSymbol)
    uniquenessViolated
  return assets ++ [asset]

def adjustAssetCurrentSupply (assets : List AssetObject) (symbol : AssetSymbol) (delta : Int) :
    Except String (List AssetObject) := do
  let asset ← getAssetBySymbol assets symbol
  require (0 ≤ asset.currentSupply + delta) "You cannot adjust supply on this value."
  require (asset.currentSupply + delta ≤ asset.maxSupply) "Max supply limit is reached"
  return modifyFirst (fun asset => asset.symbol == symbol)
    (fun asset => { asset with currentSupply := asset.currentSupply + delta }) assets

/-- The security tokens of a research are a `flat_set` of assets, whose order asserts
    equal symbols: a token of another asset can only enter an empty set. -/
def addSecurityTokens (amount : Asset) (research : Research) : Except String Research :=
  if research.securityTokens.any fun token => token.symbol == amount.symbol then
    return { research with
      securityTokens := modifyFirst (fun token => token.symbol == amount.symbol)
        (fun token => { token with amount := token.amount + amount.amount })
        research.securityTokens }
  else do
    require (research.securityTokens = []) "a.symbol == b.symbol"
    return { research with securityTokens := [amount] }

def removeSecurityTokens (amount : Asset) (research : Research) : Except String Research :=
  return { research with
    securityTokens := modifyFirst (fun token => token.symbol == amount.symbol)
      (fun token => { token with amount := token.amount - amount.amount })
      research.securityTokens }

/-- Rewrites the research that a security token stands for. -/
def updateTokenizedResearch (registry : Registry) (asset : AssetObject)
    (change : Research → Except String Research) : Except String Registry :=
  match asset.type with
  | .basic => return registry
  | .researchSecurityToken => do
    let externalId ← expect asset.tokenizedResearch unknownKey
    let research ← expect
      (registry.researches.find? fun research => research.externalId == externalId) unknownKey
    let changed ← change research
    return { registry with
      researches := modifyFirst (fun research => research.externalId == externalId)
        (fun research => { research with securityTokens := changed.securityTokens })
        registry.researches }

def issueAsset (state : State) (asset : AssetObject) (recipient : Name) (amount : Asset) :
    Except String State := do
  let balances ← adjustAccountBalance state.assets state.balances recipient amount
  let assets ← adjustAssetCurrentSupply state.assets asset.symbol amount.amount
  let registry ← updateTokenizedResearch state.registry asset (addSecurityTokens amount)
  return { state with balances, assets, registry }

def reserveAsset (state : State) (asset : AssetObject) (owner : Name) (amount : Asset) :
    Except String State := do
  let balances ← adjustAccountBalance state.assets state.balances owner amount.neg
  let assets ← adjustAssetCurrentSupply state.assets asset.symbol (-amount.amount)
  let registry ← updateTokenizedResearch state.registry asset (removeSecurityTokens amount)
  return { state with balances, assets, registry }

/-! ## The evaluators -/

structure TransferOperation where
  fromAccount : Name
  toAccount : Name
  amount : Asset
deriving DecidableEq, Repr

namespace TransferOperation

def validate (op : TransferOperation) : Except String Unit :=
  require (0 < op.amount.amount) "Amount is not specified"

def apply (state : State) (op : TransferOperation) : Except String State := do
  require (state.accountExists op.fromAccount) "Account ${1} does not exist"
  require (state.accountExists op.toAccount) "Account ${1} does not exist"
  require (accountBalanceExists state.balances op.fromAccount op.amount.symbol)
    "${1} asset balance does not exist for ${2} account"
  let balance ← getAccountBalance state.balances op.fromAccount op.amount.symbol
  let funded ← (Asset.mk balance.amount balance.symbol).atLeast op.amount
  require (funded = true) "Account does not have sufficient funds for transfer."
  let debited ← adjustAccountBalance state.assets state.balances op.fromAccount op.amount.neg
  let balances ← adjustAccountBalance state.assets debited op.toAccount op.amount
  return { state with balances }

end TransferOperation

/-! ## The creation of assets -/

/-- Lowercase letters and digits of ASCII. -/
def isNameCharacter (character : Char) : Bool :=
  character.isLower || character.isDigit

/-- A part of an account name between dots. -/
def isNameSegment (segment : List Char) : Bool :=
  3 ≤ segment.length && segment.head?.any isNameCharacter && segment.getLast?.any isNameCharacter &&
    segment.all fun character => isNameCharacter character || character == '-'

/-- `is_valid_account_name`. -/
def isValidAccountName (name : Name) : Bool :=
  3 ≤ name.length && name.length ≤ 40 && (name.toList.splitOn '.').all isNameSegment

def validateAccountName (name : Name) : Except String Unit :=
  require (isValidAccountName name = true) "Account name ${n} is invalid"

def isLowercaseHexadecimal (character : Char) : Bool :=
  character.isDigit || ('a' ≤ character && character ≤ 'f')

/-- An `external_id_type` has at most 40 characters, of which this asks for 40. -/
def validate160BitsHexadecimalString (text : Name) : Except String Unit :=
  require (text.length / 2 = 20 ∧ text.toList.all isLowercaseHexadecimal = true)
    "Provided value must be a lowercase hexadecimal string 160 bits in length"

/-- The traits of a new asset. -/
inductive AssetTrait where
  | researchSecurityToken (researchExternalId researchGroup : Name)
  | researchLicenseRevenue (holdersShare : Percent)
deriving DecidableEq, Repr

/-- The overloads of `asset_trait_validator` for the two kinds of traits. -/
def AssetTrait.check : AssetTrait → Except String Unit
  | .researchSecurityToken researchExternalId researchGroup => do
    validateAccountName researchGroup
    validate160BitsHexadecimalString researchExternalId
  | .researchLicenseRevenue holdersShare =>
    require (holdersShare.amount = 100 * 10 ^ holdersShare.decimals)
      "Total revenue share ${1} is not equal to full share ${2}"

/-- The validator is called with the variant, which it does not visit. Neither overload takes
    a variant, so the call goes to the template for other types, which is empty. -/
def validateTrait (_ : AssetTrait) : Except String Unit :=
  return ()

/-- `create_asset_operation`. `symbol` is what `asset::from_string` reads from the name
    and the precision of the operation. -/
structure CreateAssetOperation where
  issuer : Name
  symbol : AssetSymbol
  stringSymbol : Name
  maxSupply : Int
  traits : List AssetTrait
deriving DecidableEq, Repr

namespace CreateAssetOperation

def validate (op : CreateAssetOperation) : Except String Unit := do
  validateAccountName op.issuer
  require (0 < op.stringSymbol.utf8ByteSize ∧ op.stringSymbol.utf8ByteSize < 7)
    "Asset symbol must be specified"
  require (op.symbol % 2 ^ 8 < 15) "Precision must be less than 15."
  require (op.maxSupply ≤ maxShareSupply) "Max supply is too large"
  op.traits.forM validateTrait

/-- Reads the traits in order; a later trait of a kind replaces an earlier one. -/
def readTrait (state : State) (read : Option Name × Option Percent) :
    AssetTrait → Except String (Option Name × Option Percent)
  | .researchSecurityToken externalId researchGroup => do
    let research ← state.getResearch externalId
    let group ← state.getResearchGroupByAccount researchGroup
    require (group.account = research.researchGroup)
      "Research ${1} is not owned by ${2} research group"
    return (some research.externalId, read.2)
  | .researchLicenseRevenue share => return (read.1, some share)

def apply (state : State) (op : CreateAssetOperation) : Except String State := do
  require (state.accountExists op.issuer) "Account ${1} does not exist"
  require (state.assets.any (fun asset => asset.symbol == op.symbol) = false)
    "Asset ${1} exist already"
  let (tokenizedResearch, licenseRevenueHoldersShare) ←
    op.traits.foldlM (readTrait state) (none, none)
  let type := if tokenizedResearch.isSome then AssetType.researchSecurityToken else .basic
  let assets ← createAsset state.assets
    { symbol := op.symbol, stringSymbol := op.stringSymbol, issuer := op.issuer, type,
      tokenizedResearch, licenseRevenueHoldersShare, maxSupply := op.maxSupply,
      currentSupply := 0, isDefault := false }
  return { state with assets }

end CreateAssetOperation

structure IssueAssetOperation where
  issuer : Name
  amount : Asset
  recipient : Name
deriving DecidableEq, Repr

namespace IssueAssetOperation

def validate (op : IssueAssetOperation) : Except String Unit := do
  require (op.amount.symbol ≠ deipSymbol) "You cannot issue core asset."
  require (0 < op.amount.amount) "Amount to issue must be greater than 0"

def apply (state : State) (op : IssueAssetOperation) : Except String State := do
  require (state.accountExists op.issuer) "Account ${1} does not exist"
  require (state.accountExists op.recipient) "Account ${1} does not exist"
  let asset ← getAssetBySymbol state.assets op.amount.symbol
  require (op.issuer = asset.issuer) "Account ${1} is not ${2} asset issuer"
  issueAsset state asset op.recipient op.amount

end IssueAssetOperation

structure ReserveAssetOperation where
  owner : Name
  amount : Asset
deriving DecidableEq, Repr

namespace ReserveAssetOperation

def validate (op : ReserveAssetOperation) : Except String Unit := do
  require (op.amount.symbol ≠ deipSymbol) "You cannot reserve core asset."
  require (0 < op.amount.amount) "Amount to reserve must be greater than 0"

def apply (state : State) (op : ReserveAssetOperation) : Except String State := do
  require (state.accountExists op.owner) "Account ${1} does not exist"
  require (accountBalanceExists state.balances op.owner op.amount.symbol)
    "Asset ${1} balance does not exist for ${2} account"
  let asset ← getAssetBySymbol state.assets op.amount.symbol
  reserveAsset state asset op.owner op.amount

end ReserveAssetOperation

end DeipChain.Ledger
