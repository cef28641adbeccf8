import DeipChain.Lib.Result
import DeipChain.Lib.Table
import DeipChain.Protocol.Authority
import Mathlib.Data.List.Sort

/-!
# The recovery of accounts

An account names another one that may help it to get its owner authority back, or leaves
that to the witness with the most votes. The helper requests the recovery for a new owner
authority, and within a day the account confirms it with an authority that it has lost no
longer than a period ago. The helper is changed on request after the same period.

Three tables carry this: the requests with their expiration, the history of the owner
authorities, and the requested changes of the helper. `process_account_recovery` goes
through all three at the end of every block.
-/
namespace DeipChain.Recovery

open Result Protocol

/-- `DEIP_OWNER_AUTH_RECOVERY_PERIOD`, `DEIP_ACCOUNT_RECOVERY_REQUEST_EXPIRATION_PERIOD`,
`DEIP_OWNER_UPDATE_LIMIT` and `DEIP_OWNER_AUTH_HISTORY_TRACKING_START_BLOCK_NUM`. -/
structure Config where
  ownerAuthRecoveryPeriod : Nat
  accountRecoveryRequestExpirationPeriod : Nat
  ownerUpdateLimit : Nat
  ownerAuthHistoryTrackingStartBlockNum : Nat
  lasting : 0 < accountRecoveryRequestExpirationPeriod

/-- The values with `IS_TEST_NET`. -/
def testNet : Config :=
  { ownerAuthRecoveryPeriod := 60
    accountRecoveryRequestExpirationPeriod := 12
    ownerUpdateLimit := 0
    ownerAuthHistoryTrackingStartBlockNum := 1
    lasting := by decide }

/-- The values without it. -/
def mainNet : Config :=
  { ownerAuthRecoveryPeriod := 30 * 24 * 60 * 60
    accountRecoveryRequestExpirationPeriod := 24 * 60 * 60
    ownerUpdateLimit := 60 * 60
    ownerAuthHistoryTrackingStartBlockNum := 3186477
    lasting := by decide }

/-- `account_object` with its `account_authority_object`. -/
structure Account (Key : Type) where
  name : String
  recoveryAccount : String
  lastAccountRecovery : Nat
  owner : Authority String Key
  lastOwnerUpdate : Nat

/-- `owner_authority_history_object` -/
structure OwnerAuthorityHistory (Key : Type) where
  account : String
  previousOwnerAuthority : Authority String Key
  lastValidTime : Nat

/-- `account_recovery_request_object` -/
structure RecoveryRequest (Key : Type) where
  accountToRecover : String
  newOwnerAuthority : Authority String Key
  expires : Nat

/-- `change_recovery_account_request_object` -/
structure ChangeRequest where
  accountToRecover : String
  recoveryAccount : String
  effectiveOn : Nat

/-- The tables in the order of their ids, the witness with the most votes, and the head. -/
structure State (Key : Type) where
  accounts : List (Account Key)
  requests : List (RecoveryRequest Key)
  history : List (OwnerAuthorityHistory Key)
  changes : List ChangeRequest
  topWitness : Option String
  headBlockNum : Nat
  headBlockTime : Nat

/-- The exceptions of the functions below. -/
inductive RecoveryError where
  | unknownAccount (name : String)
  | uniqueness (name : String)
  | noWitness
  | notRecoveryPartner
  | notTopWitness
  | impossibleAuthority
  | openAuthority
  | ownerUpdateLimit
  | noRequest
  | authorityMismatch
  | recentAuthorityNotFound
  | earlyBlock
  deriving DecidableEq

/-- The operations that touch an account's owner authority or recovery, and what the votes
make of the first witness. -/
inductive Operation (Key : Type) where
  | createAccount (name creator : String) (owner : Authority String Key)
  | updateAccount (account : String) (owner : Option (Authority String Key))
  | requestAccountRecovery (recoveryAccount accountToRecover : String)
    (newOwnerAuthority : Authority String Key)
  | recoverAccount (accountToRecover : String)
    (newOwnerAuthority recentOwnerAuthority : Authority String Key)
  | changeRecoveryAccount (accountToRecover newRecoveryAccount : String)
  | voteWitness (top : Option String)

variable {Key : Type}

/-- `is_impossible` -/
def impossible (authority : Authority String Key) : Bool :=
  (authority.accountAuths.map Prod.snd).sum + (authority.keyAuths.map Prod.snd).sum <
    authority.weightThreshold

/-- `get_account` -/
def State.getAccount (name : String) (state : State Key) : Except RecoveryError (Account Key) :=
  expect (state.accounts.find? (fun account => account.name == name)) (.unknownAccount name)

/-- `modify` of an account. -/
def State.modifyAccount (name : String) (change : Account Key → Account Key) (state : State Key) :
    State Key :=
  { state with
    accounts := Table.modifyFirst (fun account => account.name == name) change state.accounts }

/-- `check_account_existence` -/
def State.checkAccountExistence (state : State Key) (names : List String) :
    Except RecoveryError PUnit :=
  names.forM (fun name =>
    require (name ∈ state.accounts.map Account.name) (.unknownAccount name))

/-- `create_account_by_faucets`, as far as recovery goes. -/
def State.createAccount (name creator : String) (owner : Authority String Key) (state : State Key) :
    Except RecoveryError (State Key) := do
  state.checkAccountExistence (owner.accountAuths.map Prod.fst)
  require (name ∉ state.accounts.map Account.name) (.uniqueness name)
  pure { state with
    accounts := state.accounts ++
      [{ name := name
         recoveryAccount := creator
         lastAccountRecovery := 0
         owner := owner
         lastOwnerUpdate := 0 }] }

/-- `update_owner_authority` -/
def State.updateOwnerAuthority (config : Config) (account : Account Key)
    (owner : Authority String Key) (state : State Key) : State Key :=
  let recorded :=
    if config.ownerAuthHistoryTrackingStartBlockNum ≤ state.headBlockNum then
      { state with
        history := state.history ++
          [{ account := account.name
             previousOwnerAuthority := account.owner
             lastValidTime := state.headBlockTime }] }
    else state
  recorded.modifyAccount account.name (fun found =>
    { found with owner := owner, lastOwnerUpdate := state.headBlockTime })

/-- `update_account_evaluator`, as far as the owner authority goes. -/
def State.updateAccount (config : Config) (name : String) (owner : Option (Authority String Key))
    (state : State Key) : Except RecoveryError (State Key) := do
  let account ← state.getAccount name
  match owner with
  | some owner =>
    state.checkAccountExistence (owner.accountAuths.map Prod.fst)
    pure (state.updateOwnerAuthority config account owner)
  | none => pure state

/-- `create_account_recovery` -/
def State.createAccountRecovery (config : Config) (name : String) (owner : Authority String Key)
    (state : State Key) : Except RecoveryError (State Key) :=
  let expires := state.headBlockTime + config.accountRecoveryRequestExpirationPeriod
  match state.requests.find? (fun request => request.accountToRecover == name) with
  | none => do
    require (impossible owner = false) .impossibleAuthority
    require (owner.weightThreshold ≠ 0) .openAuthority
    state.checkAccountExistence (owner.accountAuths.map Prod.fst)
    pure { state with
      requests := state.requests ++
        [{ accountToRecover := name, newOwnerAuthority := owner, expires := expires }] }
  | some _ =>
    if owner.weightThreshold = 0 then
      pure { state with
        requests := state.requests.eraseP (fun request => request.accountToRecover == name) }
    else do
      require (impossible owner = false) .impossibleAuthority
      state.checkAccountExistence (owner.accountAuths.map Prod.fst)
      pure { state with
        requests := Table.modifyFirst (fun request => request.accountToRecover == name)
          (fun request => { request with newOwnerAuthority := owner, expires := expires })
          state.requests }

/-- The one who may request the recovery of an account. -/
def State.partner (account : Account Key) (state : State Key) : Option String :=
  if account.recoveryAccount ≠ "" then some account.recoveryAccount else state.topWitness

/-- `request_account_recovery_evaluator` -/
def State.requestAccountRecovery (config : Config) (recoveryAccount name : String)
    (owner : Authority String Key) (state : State Key) : Except RecoveryError (State Key) := do
  let account ← state.getAccount name
  require (state.partner account = some recoveryAccount)
    (if account.recoveryAccount ≠ "" then .notRecoveryPartner else .notTopWitness)
  state.createAccountRecovery config name owner

/-- `recover_account_evaluator` and `submit_account_recovery` -/
def State.recoverAccount [DecidableEq Key] (config : Config) (name : String)
    (newOwner recentOwner : Authority String Key) (state : State Key) :
    Except RecoveryError (State Key) := do
  let account ← state.getAccount name
  require (config.ownerUpdateLimit < state.headBlockTime - account.lastAccountRecovery)
    .ownerUpdateLimit
  let request ← expect (state.requests.find? (fun request => request.accountToRecover == name))
    .noRequest
  require (request.newOwnerAuthority = newOwner) .authorityMismatch
  require (state.history.any (fun entry =>
    entry.account = name && decide (entry.previousOwnerAuthority = recentOwner)) = true)
    .recentAuthorityNotFound
  let removed := { state with
    requests := state.requests.eraseP (fun request => request.accountToRecover == name) }
  pure ((removed.updateOwnerAuthority config account newOwner).modifyAccount name (fun found =>
    { found with lastAccountRecovery := state.headBlockTime }))

/-- `change_recovery_account_evaluator` and `change_recovery_account` -/
def State.changeRecoveryAccount (config : Config) (name newRecoveryAccount : String)
    (state : State Key) : Except RecoveryError (State Key) := do
  state.checkAccountExistence [newRecoveryAccount]
  let account ← state.getAccount name
  let effectiveOn := state.headBlockTime + config.ownerAuthRecoveryPeriod
  match state.changes.find? (fun request => request.accountToRecover == name) with
  | none =>
    pure { state with
      changes := state.changes ++
        [{ accountToRecover := name
           recoveryAccount := newRecoveryAccount
           effectiveOn := effectiveOn }] }
  | some _ =>
    if account.recoveryAccount ≠ newRecoveryAccount then
      pure { state with
        changes := Table.modifyFirst (fun request => request.accountToRecover == name)
          (fun request =>
            { request with recoveryAccount := newRecoveryAccount, effectiveOn := effectiveOn })
          state.changes }
    else
      pure { state with
        changes := state.changes.eraseP (fun request => request.accountToRecover == name) }

/-- What an operation does. -/
def State.apply [DecidableEq Key] (config : Config) (state : State Key) :
    Operation Key → Except RecoveryError (State Key)
  | .createAccount name creator owner => state.createAccount name creator owner
  | .updateAccount account owner => state.updateAccount config account owner
  | .requestAccountRecovery recoveryAccount name owner =>
    state.requestAccountRecovery config recoveryAccount name owner
  | .recoverAccount name newOwner recentOwner =>
    state.recoverAccount config name newOwner recentOwner
  | .changeRecoveryAccount name newRecoveryAccount =>
    state.changeRecoveryAccount config name newRecoveryAccount
  | .voteWitness top => pure { state with topWitness := top }

/-- The loop over `by_expiration` removes the requests that have expired. -/
def State.clearExpiredRequests (state : State Key) : State Key :=
  { state with
    requests := (state.requests.insertionSort (fun one other => one.expires ≤ other.expires)).dropWhile
      (fun request => request.expires ≤ state.headBlockTime) }

/-- The loop over the ids removes the authorities that have been lost for too long. -/
def State.clearHistory (config : Config) (state : State Key) : State Key :=
  { state with
    history := state.history.dropWhile (fun entry =>
      entry.lastValidTime + config.ownerAuthRecoveryPeriod < state.headBlockTime) }

/-- A requested change that has become effective. -/
def State.applyChange (state : State Key) (request : ChangeRequest) :
    Except RecoveryError (State Key) := do
  let account ← state.getAccount request.accountToRecover
  pure (state.modifyAccount account.name (fun found =>
    { found with recoveryAccount := request.recoveryAccount }))

/-- The loop over `by_effective_date` applies the changes that have become effective. -/
def State.applyChanges (state : State Key) : Except RecoveryError (State Key) := do
  let sorted := state.changes.insertionSort (fun one other => one.effectiveOn ≤ other.effectiveOn)
  let due := fun request : ChangeRequest => decide (request.effectiveOn ≤ state.headBlockTime)
  let applied ← (sorted.takeWhile due).foldlM State.applyChange state
  pure { applied with changes := sorted.dropWhile due }

/-- `process_account_recovery` -/
def State.processAccountRecovery (config : Config) (state : State Key) :
    Except RecoveryError (State Key) :=
  (state.clearExpiredRequests.clearHistory config).applyChanges

/-- The parts of a block that this is about, one after the other. -/
inductive Step (Key : Type) where
  | operation (operation : Operation Key)
  | advance (timestamp : Nat)
  | sweep

/-- What a part of a block does: an operation, the new head in `update_global_dynamic_data`,
or `process_account_recovery`. -/
def State.step [DecidableEq Key] (config : Config) (state : State Key) :
    Step Key → Except RecoveryError (State Key)
  | .operation operation => state.apply config operation
  | .advance timestamp => do
    require (state.headBlockTime < timestamp) .earlyBlock
    pure { state with headBlockNum := state.headBlockNum + 1, headBlockTime := timestamp }
  | .sweep => state.processAccountRecovery config

/-- A block: the operations of its transactions, and those of the proposals that are executed
because they expire. -/
structure Block (Key : Type) where
  timestamp : Nat
  transactions : List (Operation Key)
  expired : List (Operation Key)

/-- `_apply_block`: the transactions run under the old head, the expired proposals under the
new one and before the tables are gone through. -/
def Block.steps (block : Block Key) : List (Step Key) :=
  block.transactions.map .operation ++ [.advance block.timestamp] ++
    block.expired.map .operation ++ [.sweep]

/-- The accounts and the witnesses of a genesis. -/
def genesis (accounts : List (Account Key)) (topWitness : Option String) (time : Nat) :
    Except RecoveryError (State Key) := do
  require (accounts.map Account.name).Nodup (.uniqueness "")
  pure
    { accounts := accounts
      requests := []
      history := []
      changes := []
      topWitness := topWitness
      headBlockNum := 0
      headBlockTime := time }

end DeipChain.Recovery
