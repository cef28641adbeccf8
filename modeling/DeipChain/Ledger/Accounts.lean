import DeipChain.Ledger.Contracts

/-!
# Accounts and the registry

A new account starts without tokens. Its creator may pay a fee in core tokens, which
becomes common tokens of the new account. Every account has a research group, and the
account of a user gets expert tokens in all disciplines.

The ledger reads the registry of researches and their assessments, but does not depend
on how most operations write it. `Assessment` is what such an operation may write.
-/
namespace DeipChain.Ledger

open DeipChain.Result DeipChain.Table

/-- `DEIP_COMMON_DISCIPLINE_ID`. -/
def commonDisciplineId : Name := "6c4bb3bcf1a88e3b51de88576d592f1f980c5bbb"

/-- `DEIP_DEFAULT_EXPERTISE_AMOUNT`. -/
def defaultExpertiseAmount : Int := 2500

/-- `DEIP_EXPERTISE_CLAIM_AMOUNT`. -/
def expertiseClaimAmount : Int := 5000

/-- `DEIP_API_BULK_FETCH_LIMIT`. -/
def bulkFetchLimit : Nat := 10000

/-- `DEIP_MIN_ACCOUNT_CREATION_FEE`. -/
def minAccountCreationFee : Asset := ⟨0, deipSymbol⟩

/-! ## The creation of accounts -/

/-- A new account object. -/
def freshAccount (id : Nat) (name : Name) : Account where
  id := id
  name := name
  proxy := proxyToSelf
  mined := false
  canVote := true
  expertiseTokensBalance := 0
  commonTokensBalance := 0
  commonTokensWithdrawRate := 0
  nextCommonTokensWithdrawal := maximumTime
  withdrawn := 0
  toWithdraw := 0
  withdrawRoutes := 0
  proxiedVsfVotes := List.replicate maxProxyRecursionDepth 0
  witnessesVotedFor := 0

def addAccount (state : State) (account : Account) : Except String State := do
  require (∀ other ∈ state.accounts, other.name ≠ account.name) uniquenessViolated
  return { state with accounts := state.accounts ++ [account] }

/-- The research group of an account, with its creator as the first member. -/
def addResearchGroup (state : State) (account creator : Name) : Except String State := do
  require (∀ group ∈ state.groups, group.account ≠ account) uniquenessViolated
  let id := state.groups.length
  return { state with
    groups := state.groups ++ [{ id, account, creator, balance := ⟨0, deipSymbol⟩ }]
    registry := { state.registry with members := state.registry.members ++ [(creator, id)] } }

/-- The fee is taken from the creator. -/
def payCreationFee (state : State) (creator : Name) (fee : Asset) : Except String State :=
  if fee ≠ ⟨0, fee.symbol⟩ then do
    let balances ← adjustAccountBalance state.assets state.balances creator fee.neg
    return { state with balances }
  else return state

/-- An empty balance of each default asset. -/
def addDefaultBalances (state : State) (name : Name) : Except String State := do
  let balances ← (state.assets.filter AssetObject.isDefault).foldlM
    (fun balances asset => ensureAccountBalance state.assets balances name asset.symbol)
    state.balances
  return { state with balances }

def createAccountByFaucets (state : State) (name creator : Name) (fee : Asset)
    (isUserAccount : Bool) : Except String State := do
  let enough ← fee.atLeast minAccountCreationFee
  require (enough = true) "Insufficient fee ${1} for account creation. Min fee is ${1}"
  let paid ← payCreationFee state creator fee
  let created ← addAccount paid (freshAccount paid.accounts.length name)
  let funded ← increaseCommonTokens created name fee.amount
  let grouped ← addResearchGroup funded name (if isUserAccount then name else creator)
  addDefaultBalances grouped name

/-- The disciplines that every user account starts with. -/
def State.userDisciplines (state : State) : List Discipline :=
  (state.disciplines.take bulkFetchLimit).filter fun discipline =>
    discipline.externalId != commonDisciplineId

structure CreateAccountOperation where
  fee : Asset
  creator : Name
  newAccountName : Name
  isUserAccount : Bool
deriving DecidableEq, Repr

namespace CreateAccountOperation

def validate (op : CreateAccountOperation) : Except String Unit := do
  let enough ← op.fee.atLeast minAccountCreationFee
  require (enough = true) "Insufficient Fee: ${f} required, ${p} provided."

def checkFunds (state : State) (op : CreateAccountOperation) : Except String Unit :=
  if op.fee ≠ ⟨0, op.fee.symbol⟩ then do
    require (accountBalanceExists state.balances op.creator op.fee.symbol)
      "${1} asset balance does not exist for ${2} account"
    let balance ← getAccountBalance state.balances op.creator op.fee.symbol
    require (op.fee.amount ≤ balance.amount) "Insufficient balance to create account."
  else return ()

def giveExpertise (state : State) (op : CreateAccountOperation) : Except String State :=
  if op.isUserAccount then
    state.userDisciplines.foldlM (fun state discipline =>
      createExpertToken state op.newAccountName discipline.id defaultExpertiseAmount) state
  else return state

def apply (state : State) (op : CreateAccountOperation) : Except String State := do
  let enough ← op.fee.atLeast minAccountCreationFee
  require (enough = true) "Insufficient Fee: ${1} required, ${2} provided."
  op.checkFunds state
  let created ← createAccountByFaucets state op.newAccountName op.creator op.fee op.isUserAccount
  op.giveExpertise created

end CreateAccountOperation

/-! ## The registry -/

structure CreateResearchOperation where
  externalId : Name
  researchGroup : Name
deriving DecidableEq, Repr

def CreateResearchOperation.apply (state : State) (op : CreateResearchOperation) :
    Except String State := do
  require (state.accountExists op.researchGroup) "Account ${1} does not exist"
  let group ← state.getResearchGroupByAccount op.researchGroup
  require (∀ research ∈ state.registry.researches, research.externalId ≠ op.externalId)
    uniquenessViolated
  return { state with
    registry := { state.registry with
      researches := state.registry.researches ++ [
        { id := state.registry.researches.length
          externalId := op.externalId
          researchGroup := group.account
          researchGroupId := group.id
          securityTokens := [] }] } }

/-- What the operations on research contents, reviews, review votes and memberships leave in
    the registry. They do not write researches. -/
structure Assessment where
  contents : List ResearchContent
  expertiseContributions : List ExpertiseContribution
  reviews : List Review
  reviewVotes : List ReviewVote
  members : List (Name × Nat)
deriving DecidableEq, Repr

def Assessment.apply (state : State) (written : Assessment) : State :=
  { state with
    registry := { state.registry with
      contents := written.contents
      expertiseContributions := written.expertiseContributions
      reviews := written.reviews
      reviewVotes := written.reviewVotes
      members := written.members } }

/-! ## Accounts in the books -/

variable {kept : Aspect → Prop} {state next : State}

/-- A name keeps its account when accounts are added. -/
theorem Rooted.of_more {accounts : List Account} (rooted : Rooted state)
    (more : ∀ name, state.Known name → State.Known { state with accounts } name) :
    Rooted { state with accounts } :=
  ⟨fun balance member => more _ (rooted.balances balance member),
    fun group member => (rooted.groups group member).imp (more _) (more _),
    fun contribution member => more _ (rooted.contributions contribution member),
    fun recipient member => more _ (rooted.recipients recipient member),
    fun request member => more _ (rooted.requests request member),
    fun research member => more _ (rooted.researches research member)⟩

theorem addAccount_known {account : Account} (added : addAccount state account = .ok next) :
    next.Known account.name ∧ ∀ name, state.Known name → next.Known name := by
  simp only [addAccount, bind_ok_iff, pure_ok_iff] at added
  obtain ⟨_, _, rfl⟩ := added
  refine ⟨List.mem_map_of_mem (List.mem_append_right _ List.mem_cons_self), fun name known => ?_⟩
  unfold State.Known
  rw [List.map_append]
  exact List.mem_append_left _ known

/-- A new account holds nothing. -/
theorem addAccount_posted {id : Nat} {name : Name}
    (added : addAccount state (freshAccount id name) = .ok next) :
    Posted kept (fun _ => 0) state next := by
  have known := (addAccount_known added).2
  simp only [addAccount, bind_ok_iff, require_ok_iff, pure_ok_iff] at added
  obtain ⟨_, fresh, rfl⟩ := added
  have common : total Account.commonTokensBalance (state.accounts ++ [freshAccount id name]) =
      total Account.commonTokensBalance state.accounts := by
    simp [freshAccount]
  have expertise : total Account.expertiseTokensBalance (state.accounts ++ [freshAccount id name]) =
      total Account.expertiseTokensBalance state.accounts := by
    simp [freshAccount]
  constructor
  · intro sound
    exact { sound with
      named := nodup_append_fresh sound.named fresh
      funded := sound.funded.trans common.symm }
  · exact fun _ _ member _ => member
  · exact fun _ _ => (add_zero _).symm
  · intro _ aspect _ before
    cases aspect with
    | reserved =>
      exact forall_append_singleton before ⟨le_refl _, le_refl _, le_refl _, le_refl _⟩
    | counted =>
      exact ⟨forall_append_singleton before.experts (le_refl _),
        before.counted.trans expertise.symm, before.elected⟩
    | rated =>
      refine ⟨before.tokens, fun token member => known _ (before.known token member), ?_,
        before.counted.trans expertise.symm⟩
      refine forall_append_singleton before.owned (total_eq_zero fun token member => ?_).symm
      refine if_neg fun same => ?_
      obtain ⟨owner, listed, name⟩ := List.mem_map.mp (before.known token member)
      exact fresh owner listed (name.trans same)
    | rooted => exact before.of_more known
    | coreOnly => exact { before with vestings := before.vestings }
    | awarded _ _ => exact before

theorem addResearchGroup_posted {account creator : Name}
    (grounded : kept .rooted → state.Known account ∧ state.Known creator)
    (added : addResearchGroup state account creator = .ok next) :
    Posted kept (fun _ => 0) state next := by
  simp only [addResearchGroup, bind_ok_iff, pure_ok_iff] at added
  obtain ⟨_, _, rfl⟩ := added
  constructor
  · intro sound
    exact { sound with sales := sound.sales.congr (fun _ _ => id) fun _ _ => rfl }
  · exact fun _ _ member _ => member
  · exact fun _ _ => (add_zero _).symm
  · intro _ aspect keeps before
    cases aspect with
    | reserved => exact before
    | counted => exact { before with elected := before.elected }
    | rated => exact { before with tokens := before.tokens }
    | rooted =>
      exact { before with groups := forall_append_singleton before.groups (grounded keeps) }
    | coreOnly => exact { before with groups := forall_append_singleton before.groups rfl }
    | awarded _ _ => exact before

/-- The fee leaves the balance of the creator. -/
theorem payCreationFee_posted {creator : Name} {fee : Asset} (positive : 0 ≤ fee.amount)
    (paid : payCreationFee state creator fee = .ok next) :
    Posted kept fee.neg.under state next ∧ next.accounts = state.accounts := by
  unfold payCreationFee at paid
  split at paid
  · rename_i charged
    simp only [bind_ok_iff, pure_ok_iff] at paid
    obtain ⟨balances, adjusted, rfl⟩ := paid
    have debit : fee.neg.amount < 0 := by
      have nonzero : fee.amount ≠ 0 := by
        rintro zero
        apply charged
        rw [← zero]
      simp only [Asset.neg]
      omega
    exact ⟨adjustAccountBalance_posted kept state (.inr debit) adjusted, rfl⟩
  · rename_i free
    rw [pure_ok_iff] at paid
    subst paid
    refine ⟨(Posted.refl kept state).congr fun _ symbol => ?_, rfl⟩
    rw [not_not] at free
    rw [Asset.under_neg, free]
    simp [Asset.under]

theorem addDefaultBalances_posted {name : Name} (known : ∀ symbol, grounds state name symbol)
    (added : addDefaultBalances state name = .ok next) : Posted kept (fun _ => 0) state next := by
  simp only [addDefaultBalances, bind_ok_iff, pure_ok_iff] at added
  obtain ⟨balances, ran, rfl⟩ := added
  have moved : Moved (grounds state) (fun _ => 0) state.balances balances := by
    refine foldlM_invariant
      (fun _ balances => Moved (grounds state) (fun _ => 0) state.balances balances) ?_
      (Moved.refl (grounds state) state.balances) ran
    intro asset rest balances next before ensured
    unfold ensureAccountBalance at ensured
    split at ensured
    · rw [pure_ok_iff] at ensured
      exact ensured ▸ before
    · have created := createAccountBalance_moved (grounds state) (known _) ensured
      exact (before.trans created).congr fun _ => rfl
  exact moved.posted

theorem increaseCommonTokens_known {name : Name} {amount : Int}
    (increased : increaseCommonTokens state name amount = .ok next) (other : Name) :
    next.Known other ↔ state.Known other := by
  obtain ⟨_, _, accounts, funded, rfl⟩ := increaseCommonTokens_effect increased
  simp only [State.Known, funded.names]

theorem addResearchGroup_accounts {account creator : Name}
    (added : addResearchGroup state account creator = .ok next) : next.accounts = state.accounts := by
  simp only [addResearchGroup, bind_ok_iff, pure_ok_iff] at added
  obtain ⟨_, _, rfl⟩ := added
  rfl

/-- Every name that had an account has one still, and so has the new name. -/
theorem createAccountByFaucets_known {name creator : Name} {fee : Asset} {isUserAccount : Bool}
    (created : createAccountByFaucets state name creator fee isUserAccount = .ok next) :
    next.Known name ∧ ∀ other, state.Known other → next.Known other := by
  simp only [createAccountByFaucets, addDefaultBalances, bind_ok_iff, pure_ok_iff] at created
  obtain ⟨_, _, _, _, paid, charged, added, adds, funded, increased, grouped, groups, _, _, rfl⟩ :=
    created
  have same : paid.accounts = state.accounts := by
    unfold payCreationFee at charged
    split at charged
    · simp only [bind_ok_iff, pure_ok_iff] at charged
      obtain ⟨_, _, rfl⟩ := charged
      rfl
    · rw [pure_ok_iff] at charged
      rw [charged]
  obtain ⟨own, old⟩ := addAccount_known adds
  have later (other : Name) (known : added.Known other) : grouped.Known other := by
    rw [State.Known, addResearchGroup_accounts groups]
    exact (increaseCommonTokens_known increased other).mpr known
  refine ⟨later name own, fun other known => later other (old other ?_)⟩
  rw [State.Known, same]
  exact known

/-- The fee of a new account becomes common tokens. -/
theorem createAccountByFaucets_posted {name creator : Name} {fee : Asset} {isUserAccount : Bool}
    (grounded : kept .rooted → isUserAccount = true ∨ state.Known creator)
    (created : createAccountByFaucets state name creator fee isUserAccount = .ok next) :
    Posted kept (fun _ => 0) state next := by
  simp only [createAccountByFaucets, bind_ok_iff, require_ok_iff, Asset.atLeast_ok_iff] at created
  obtain ⟨_, ⟨core, rfl⟩, _, enough, paid, charged, added, adds, funded, increased, grouped, groups,
    balanced⟩ := created
  have positive : 0 ≤ fee.amount := by
    rw [Bool.not_eq_true', decide_eq_false_iff_not] at enough
    exact not_lt.mp enough
  have charging : Posted kept fee.neg.under state paid ∧ paid.accounts = state.accounts :=
    payCreationFee_posted positive charged
  obtain ⟨takes, same⟩ := charging
  obtain ⟨own, old⟩ := addAccount_known adds
  have knownFunded := increaseCommonTokens_known increased
  have adding : Posted kept (fun _ => 0) paid added := addAccount_posted adds
  have locking : Posted kept (Asset.mk fee.amount deipSymbol).under added funded :=
    increaseCommonTokens_posted increased
  have grouping : Posted kept (fun _ => 0) funded grouped := by
    refine addResearchGroup_posted (fun keeps => ⟨(knownFunded name).mpr own, ?_⟩) groups
    rcases grounded keeps with user | known
    · rw [if_pos user]
      exact (knownFunded name).mpr own
    · split
      · exact (knownFunded name).mpr own
      · refine (knownFunded creator).mpr (old creator ?_)
        rw [State.Known, same]
        exact known
  have balancing : Posted kept (fun _ => 0) grouped next := by
    refine addDefaultBalances_posted (fun _ _ => ?_) balanced
    rw [State.Known, addResearchGroup_accounts groups]
    exact (knownFunded name).mpr own
  refine ((((takes.trans adding).trans locking).trans grouping).trans balancing).congr
    fun _ symbol => ?_
  rw [Asset.under_neg]
  simp only [Asset.under, core, minAccountCreationFee]
  split <;> omega

theorem createExpertToken_posted {name : Name} {discipline : Nat} {amount : Int}
    (positive : kept .counted ∨ kept .rated → 0 ≤ amount)
    (created : createExpertToken state name discipline amount = .ok next) :
    Posted kept (fun _ => 0) state next :=
  createExpertTokens_posted
    (fun keeps => CreationBearable.of_nonneg (positive (.inl keeps)) _ state discipline)
    (fun keeps => positive (.inr keeps)) created

theorem CreateAccountOperation.apply_posted {op : CreateAccountOperation}
    (grounded : kept .rooted → op.isUserAccount = true ∨ state.Known op.creator)
    (applied : op.apply state = .ok next) : Posted kept (fun _ => 0) state next := by
  simp only [apply, bind_ok_iff] at applied
  obtain ⟨_, _, _, _, _, _, created, creates, applied⟩ := applied
  have first := createAccountByFaucets_posted grounded creates
  unfold giveExpertise at applied
  split at applied
  · have given : Posted kept (fun _ => 0) created next := by
      refine foldlM_invariant (fun _ state => Posted kept (fun _ => 0) created state) ?_
        (Posted.refl kept created) applied
      intro discipline rest middle next before stepped
      have token : Posted kept (fun _ => 0) middle next :=
        createExpertToken_posted (fun _ => by decide) stepped
      exact (before.trans token).congr fun _ _ => rfl
    exact (first.trans given).congr fun _ _ => rfl
  · rw [pure_ok_iff] at applied
    exact applied ▸ first

/-! ## The registry in the books -/

/-- A new research belongs to a research group. -/
theorem CreateResearchOperation.apply_posted {op : CreateResearchOperation}
    (applied : op.apply state = .ok next) : Posted kept (fun _ => 0) state next := by
  simp only [apply, bind_ok_iff, pure_ok_iff] at applied
  obtain ⟨_, _, group, got, _, _, rfl⟩ := applied
  refine posted_registry ?_ ?_ ?_
  · intro numbered
    rw [Registry.Numbered, List.map_append, numbered, List.length_append, List.length_singleton,
      List.range_succ]
    rfl
  · intro research owner owned
    rw [Registry.groupOf, Option.map_eq_some_iff] at owned ⊢
    obtain ⟨row, found, same⟩ := owned
    exact ⟨row, by rw [List.find?_append, found, Option.some_or], same⟩
  · apply forall_append_singleton
    · exact fun research member rooted => rooted.researches research member
    · exact fun rooted =>
        (rooted.groups group (List.mem_of_find?_eq_some (expect_ok_iff.mp got))).1

theorem Assessment.apply_posted (kept : Aspect → Prop) (state : State) (written : Assessment) :
    Posted kept (fun _ => 0) state (written.apply state) :=
  posted_registry id (fun _ _ => id) fun research member rooted => rooted.researches research member

end DeipChain.Ledger
