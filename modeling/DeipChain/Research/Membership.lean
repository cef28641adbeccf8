import DeipChain.Accounts.Recovery
import DeipChain.Research.GroupShares
import Mathlib.Data.Finset.Insert
import Mathlib.Data.Finset.Erase
import Mathlib.Data.Finset.Dedup

/-!
# Members of groups and of researches

A member of a research group holds a token of it, has a weight in the active authority of the
group's account, and takes part in some or all of its researches. The three are stored apart
and joining and leaving edit all of them. Accounts are created with a group of their own or as a shared
group, and researches for a group.

The evaluators are here as far as they concern the accounts' authorities, the groups' tokens
and the researches' members. In every state that they reach the members of a research hold
tokens of its group.
-/
namespace DeipChain.Groups

open Result Table Protocol Research

/-- `DEIP_MIN_AUTH_THRESHOLD` -/
def minAuthThreshold : Nat := 1

/-- `account_object` with its `account_authority_object`. -/
structure Account (Key : Type) where
  name : Name
  authority : AuthorityPack Name Key
deriving DecidableEq

/-- `research_group_object` with the tokens of the group. -/
structure Group where
  id : Nat
  account : Name
  isPersonal : Bool
  tokens : List GroupToken
deriving DecidableEq

/-- The fields that `update_research` writes besides the members. -/
structure Details where
  description : String
  isPrivate : Bool
  reviewShare : Option Nat
  compensationShare : Option Nat
deriving DecidableEq

/-- `research_object` -/
structure ResearchObject where
  externalId : String
  researchGroupId : Nat
  disciplines : List String
  details : Details
  members : Finset Name
deriving DecidableEq

structure State (Key : Type) where
  accounts : List (Account Key)
  groups : List Group
  researches : List ResearchObject
  disciplines : List String

/-- The operations. Where an update leaves a field out, it stays. -/
inductive Operation (Key : Type) where
  | createAccount (newAccountName creator : Name) (authority : AuthorityPack Name Key)
    (isUserAccount : Bool)
  | updateAccount (account : Name) (owner active : Option (Authority Name Key))
    (activeOverrides : List (Nat × Option (Authority Name Key)))
  | recoverAccount (accountToRecover : Name) (newOwnerAuthority : Authority Name Key)
  | join (member researchGroup : Name) (researches : Option (List String))
  | leave (member researchGroup : Name)
  | createResearch (externalId : String) (researchGroup : Name) (disciplines : List String)
    (details : Details) (members : Option (Finset Name))
  | updateResearch (externalId : String) (researchGroup : Name) (description : Option String)
    (isPrivate : Option Bool) (reviewShare compensationShare : Option Nat)
    (members : Option (Finset Name))

variable {Key : Type}

/-! ## The services -/

/-- `account_auths[name] = weight` -/
def writeAuth (name : Name) (weight : Nat) (auths : List (Name × Nat)) : List (Name × Nat) :=
  if name ∈ auths.map Prod.fst then
    modifyFirst (fun entry => entry.1 == name) (fun entry => (entry.1, weight)) auths
  else auths.orderedInsert (fun one other => one.1 ≤ other.1) (name, weight)

def State.accountExists (state : State Key) (name : Name) : Bool :=
  state.accounts.any fun account => account.name == name

/-- `check_account_existence` -/
def State.checkAccountExistence (state : State Key) (auths : List (Name × Nat)) :
    Except String Unit :=
  auths.forM fun entry => require (state.accountExists entry.1 = true) "Account \"${1}\" must exist."

/-- `modify` of the authorities of an account. -/
def State.modifyAuthority (state : State Key) (name : Name)
    (change : AuthorityPack Name Key → AuthorityPack Name Key) : State Key :=
  { state with
    accounts := modifyFirst (fun account => account.name == name)
      (fun account => { account with authority := change account.authority }) state.accounts }

/-- `update_owner_authority`, without its history. -/
def updateOwnerAuthority (owner : Authority Name Key) (pack : AuthorityPack Name Key) :
    AuthorityPack Name Key :=
  { pack with owner := owner }

/-- `update_active_authority` -/
def updateActiveAuthority (active : Authority Name Key) (pack : AuthorityPack Name Key) :
    AuthorityPack Name Key :=
  { pack with active := active }

/-- `add_to_active_authority`: an account that is there already keeps its weight. -/
def addToActiveAuthority (member : Name) (weight : Nat) (pack : AuthorityPack Name Key) :
    AuthorityPack Name Key :=
  if member ∈ pack.active.accountAuths.map Prod.fst then pack
  else { pack with active := { pack.active with
    accountAuths := writeAuth member weight pack.active.accountAuths } }

/-- `remove_from_active_authority` -/
def removeFromActiveAuthority (member : Name) (pack : AuthorityPack Name Key) :
    AuthorityPack Name Key :=
  { pack with active := { pack.active with
    accountAuths := pack.active.accountAuths.eraseP fun entry => entry.1 == member } }

/-- `update_active_overrides_authorities` -/
def updateActiveOverrides (overrides : List (Nat × Option (Authority Name Key)))
    (pack : AuthorityPack Name Key) : AuthorityPack Name Key :=
  { pack with
    activeOverrides := overrides.foldl
      (fun kept override =>
        (kept.filter fun entry => entry.1 != override.1) ++
          (override.2.map fun authority => (override.1, authority)).toList)
      pack.activeOverrides }

/-- `get_research_group_by_account` -/
def State.getResearchGroupByAccount (state : State Key) (account : Name) : Except String Group :=
  expect (state.groups.find? fun group => group.account == account)
    "Research group account \"${1}\" does not exist."

/-- Creates a group with its first member. The accounts of the groups are a unique key. -/
def State.createGroup (state : State Key) (account member : Name) (isPersonal : Bool) :
    Except String (State Key) := do
  require (∀ group ∈ state.groups, group.account ≠ account)
    "could not insert object, most likely a uniqueness constraint was violated"
  let tokens ← addMember [] member fullShare ""
  return { state with groups := state.groups ++
    [{ id := state.groups.length, account := account, isPersonal := isPersonal, tokens := tokens }] }

def State.setTokens (state : State Key) (id : Nat) (tokens : List GroupToken) : State Key :=
  { state with
    groups := modifyFirst (fun group => group.id == id)
      (fun group => { group with tokens := tokens }) state.groups }

/-- `create_account_by_faucets`. A user's account has a personal group, of which the user is the member. -/
def State.createAccountByFaucets (state : State Key) (name creator : Name)
    (authority : AuthorityPack Name Key) (isUserAccount : Bool) : Except String (State Key) := do
  require (state.accountExists name = false)
    "could not insert object, most likely a uniqueness constraint was violated"
  State.createGroup { state with accounts := state.accounts ++ [⟨name, authority⟩] } name
    (if isUserAccount then name else creator) isUserAccount

def State.getResearch (state : State Key) (externalId : String) : Except String ResearchObject :=
  expect (state.researches.find? fun research => research.externalId == externalId)
    "Research with external_id ${1} does not exist"

/-- `create_research`. The external ids are a unique key. -/
def State.createResearch (state : State Key) (research : ResearchObject) : Except String (State Key) := do
  require (∀ other ∈ state.researches, other.externalId ≠ research.externalId)
    "could not insert object, most likely a uniqueness constraint was violated"
  return { state with researches := state.researches ++ [research] }

/-- The loop that changes the members of some researches. -/
def State.updateMembers (state : State Key) (chosen : ResearchObject → Bool)
    (change : Finset Name → Finset Name) : State Key :=
  { state with researches := state.researches.map fun research =>
      if chosen research then { research with members := change research.members } else research }

/-! ## The evaluators -/

/-- `create_account_evaluator` -/
def State.createAccount (state : State Key) (name creator : Name)
    (authority : AuthorityPack Name Key) (isUserAccount : Bool) : Except String (State Key) := do
  state.checkAccountExistence authority.owner.accountAuths
  state.checkAccountExistence authority.active.accountAuths
  authority.activeOverrides.forM fun override => state.checkAccountExistence override.2.accountAuths
  state.createAccountByFaucets name creator authority isUserAccount

/-- An authority that an update may leave out. -/
def State.checkGiven (state : State Key) (given : Option (Authority Name Key)) : Except String Unit :=
  given.toList.forM fun authority => state.checkAccountExistence authority.accountAuths

/-- `update_account_evaluator` -/
def State.updateAccount (state : State Key) (account : Name) (owner active : Option (Authority Name Key))
    (activeOverrides : List (Nat × Option (Authority Name Key))) : Except String (State Key) := do
  require (state.accountExists account = true) "unknown key"
  state.checkGiven owner
  state.checkGiven active
  activeOverrides.forM fun override => state.checkGiven override.2
  return state.modifyAuthority account fun pack =>
    updateActiveOverrides activeOverrides
      (active.elim id updateActiveAuthority (owner.elim id updateOwnerAuthority pack))

/-- `recover_account_evaluator`, once the request has been found. -/
def State.recoverAccount (state : State Key) (account : Name) (owner : Authority Name Key) :
    Except String (State Key) := do
  require (state.accountExists account = true) "unknown key"
  return state.modifyAuthority account (updateOwnerAuthority owner)

/-- The group of a membership operation. -/
def State.sharedGroup (state : State Key) (member researchGroup : Name) (personal : String) :
    Except String Group := do
  require (state.accountExists member = true) "Account ${1} does not exist"
  require (state.accountExists researchGroup = true) "Research group ${1} does not exist"
  let group ← state.getResearchGroupByAccount researchGroup
  require (group.isPersonal = false) personal
  return group

/-- `join_research_group_membership_evaluator` -/
def State.join (state : State Key) (member researchGroup : Name) (researches : Option (List String)) :
    Except String (State Key) := do
  let group ← state.sharedGroup member researchGroup "Can not join to personal ${1} research group"
  require (isMember group.tokens member = false)
    "Account ${1} is already a member of ${2} research group"
  researches.toList.flatten.forM fun externalId => do
    let research ← state.getResearch externalId
    require (research.researchGroupId = group.id)
      "Research ${1} is not a research of ${2} research group"
  let chosen := fun research : ResearchObject => match researches with
    | some list => list.contains research.externalId
    | none => research.researchGroupId == group.id
  let tokens ← addMember group.tokens member (fullShare / (group.tokens.length + 1)) ""
  return ((state.updateMembers chosen (insert member)).setTokens group.id tokens).modifyAuthority
    group.account (addToActiveAuthority member minAuthThreshold)

/-- `leave_research_group_membership_evaluator`. An exclusion pays no compensation so far. -/
def State.leave (state : State Key) (member researchGroup : Name) : Except String (State Key) := do
  let group ← state.sharedGroup member researchGroup "Can not left personal ${1} research group"
  require (isMember group.tokens member = true)
    "Account ${1} is not a member of ${2} research group."
  let chosen := fun research : ResearchObject => research.researchGroupId == group.id
  let tokens ← removeMember group.tokens member
  return ((state.updateMembers chosen fun members => members.erase member).setTokens group.id
    tokens).modifyAuthority group.account (removeFromActiveAuthority member)

/-- What a personal group can not have. -/
def checkPersonal (group : Group) (members : Option (Finset Name)) (compensationShare : Option Nat) :
    Except String Unit := do
  require (group.isPersonal = true → members.isNone) "Can not add members to personal research"
  require (group.isPersonal = true → compensationShare.isNone)
    "Exclusion compensation is not allowed for personal research"

/-- Whoever is listed for a research has to be a member of the group. -/
def checkMembers (group : Group) (members : Option (Finset Name)) : Except String Unit :=
  require (∀ list ∈ members, ∀ member ∈ list, isMember group.tokens member = true)
    "Account ${1} is not a member of ${2} research group. Add the account to group membership at first"

/-- `create_research_evaluator` -/
def State.createResearchFor (state : State Key) (externalId : String) (researchGroup : Name)
    (disciplines : List String) (details : Details) (members : Option (Finset Name)) :
    Except String (State Key) := do
  require (state.accountExists researchGroup = true) "Account(creator) ${1} does not exist"
  let group ← state.getResearchGroupByAccount researchGroup
  require (∀ discipline ∈ disciplines, discipline ∈ state.disciplines) "Discipline ${1} does not exist"
  checkPersonal group members details.compensationShare
  checkMembers group members
  state.createResearch
    { externalId := externalId
      researchGroupId := group.id
      disciplines := disciplines
      details := details
      members := members.getD (group.tokens.map GroupToken.owner).toFinset }

/-- `update_research_evaluator` -/
def State.updateResearch (state : State Key) (externalId : String) (researchGroup : Name)
    (description : Option String) (isPrivate : Option Bool)
    (reviewShare compensationShare : Option Nat) (members : Option (Finset Name)) :
    Except String (State Key) := do
  require (state.accountExists researchGroup = true) "Account(creator) ${1} does not exist"
  let group ← state.getResearchGroupByAccount researchGroup
  checkPersonal group members compensationShare
  let research ← state.getResearch externalId
  require (research.researchGroupId = group.id) "Research ${1} does not belong to research group ${2}"
  checkMembers group members
  let updated :=
    { research with
      details :=
        { description := description.getD research.details.description
          isPrivate := isPrivate.getD research.details.isPrivate
          reviewShare := reviewShare <|> research.details.reviewShare
          compensationShare := compensationShare <|> research.details.compensationShare }
      members := members.getD research.members }
  return { state with
    researches := modifyFirst (fun other => other.externalId == externalId) (fun _ => updated)
      state.researches }

def State.apply (state : State Key) : Operation Key → Except String (State Key)
  | .createAccount name creator authority isUserAccount =>
    state.createAccount name creator authority isUserAccount
  | .updateAccount account owner active activeOverrides =>
    state.updateAccount account owner active activeOverrides
  | .recoverAccount account owner => state.recoverAccount account owner
  | .join member researchGroup researches => state.join member researchGroup researches
  | .leave member researchGroup => state.leave member researchGroup
  | .createResearch externalId researchGroup disciplines details members =>
    state.createResearchFor externalId researchGroup disciplines details members
  | .updateResearch externalId researchGroup description isPrivate reviewShare compensationShare members =>
    state.updateResearch externalId researchGroup description isPrivate reviewShare compensationShare
      members

/-! ## The genesis -/

/-- `genesis_state_type::research_group_type` -/
structure GenesisGroup (Key : Type) where
  account : Name
  creator : Name
  tenant : Name
  publicKey : Option Key
  members : List Name

/-- `genesis_state_type::research_type` -/
structure GenesisResearch where
  externalId : String
  account : Name
  description : String
  disciplines : List String
  members : List Name

/-- The parts of the genesis state that this is about. -/
structure GenesisState (Key : Type) where
  registrar : Name × Key
  accounts : List (Name × Key)
  researchGroups : List (GenesisGroup Key)
  disciplines : List String
  researches : List GenesisResearch

/-- The authorities of an account with one key. -/
def keyAuthority (key : Key) : AuthorityPack Name Key :=
  let authority := { weightThreshold := 1, accountAuths := [], keyAuths := [(key, 1)] }
  { owner := authority, active := authority, activeOverrides := [] }

/-- The authorities of a group: its members, the tenant unless that is the group itself, and
the key. -/
def groupAuthority (group : GenesisGroup Key) : AuthorityPack Name Key :=
  let members := group.members.foldl (fun auths member => writeAuth member 1 auths) []
  let authority :=
    { weightThreshold := 1
      accountAuths := if group.account ≠ group.tenant then writeAuth group.tenant 1 members else members
      keyAuths := (group.publicKey.map fun key => (key, 1)).toList }
  { owner := authority, active := authority, activeOverrides := [] }

/-- `init_genesis_research_group`. The creator invites the other members. -/
def initGenesisResearchGroup (state : State Key) (group : GenesisGroup Key) :
    Except String (State Key) := do
  require (0 < group.members.length) "Research group must contain at least 1 member"
  require (state.accountExists group.creator = true) "unknown key"
  require (∀ member ∈ group.members, state.accountExists member = true) "unknown key"
  let created ← state.createAccountByFaucets group.account group.creator (groupAuthority group) false
  let found ← created.getResearchGroupByAccount group.account
  let tokens ← (group.members.filter fun member => member != group.creator).foldlM
    (fun tokens member => addMember tokens member (fullShare / group.members.length) group.creator)
    found.tokens
  return created.setTokens found.id tokens

/-- `init_genesis_research`, for one of them. -/
def initGenesisResearch (state : State Key) (research : GenesisResearch) :
    Except String (State Key) := do
  require (research.description ≠ "") "Research 'description' is required"
  require (∀ discipline ∈ research.disciplines, discipline ∈ state.disciplines)
    "Discipline ${1} does not exist"
  let group ← state.getResearchGroupByAccount research.account
  require (∀ member ∈ research.members, isMember group.tokens member = true)
    "User ${1} is not research group ${2} member"
  state.createResearch
    { externalId := research.externalId
      researchGroupId := group.id
      disciplines := research.disciplines
      details :=
        { description := research.description
          isPrivate := false
          reviewShare := some 0
          compensationShare := some 0 }
      members := research.members.toFinset }

/-- `init_genesis`. The account of the registrar has no group. -/
def genesis (initial : GenesisState Key) : Except String (State Key) := do
  let accounts ← initial.accounts.foldlM
    (fun state account =>
      state.createAccountByFaucets account.1 initial.registrar.1 (keyAuthority account.2) true)
    { accounts := [⟨initial.registrar.1, keyAuthority initial.registrar.2⟩]
      groups := []
      researches := []
      disciplines := initial.disciplines }
  let groups ← initial.researchGroups.foldlM initGenesisResearchGroup accounts
  initial.researches.foldlM initGenesisResearch groups

end DeipChain.Groups
