import DeipChain.Ledger.Votes

/-!
# Locking and withdrawing common tokens

Core tokens become common tokens by a transfer and come back in weekly parts. The
withdrawal of an account can be routed to other accounts, as core tokens or, by an
automatic route, as common tokens.
-/
namespace DeipChain.Ledger

open DeipChain.Result DeipChain.Table

/-- `DEIP_COMMON_TOKENS_WITHDRAW_INTERVALS`. -/
def withdrawIntervals : Int := 13

/-- `DEIP_COMMON_TOKENS_WITHDRAW_INTERVAL_SECONDS`. -/
def withdrawIntervalSeconds : Nat := 60 * 60 * 24 * 7

/-- `DEIP_MAX_WITHDRAW_ROUTES`. -/
def maxWithdrawRoutes : Nat := 10

structure TransferToCommonTokensOperation where
  fromAccount : Name
  toAccount : Name
  amount : Asset
deriving DecidableEq, Repr

namespace TransferToCommonTokensOperation

def validate (op : TransferToCommonTokensOperation) : Except String Unit := do
  let positive ← op.amount.above ⟨0, deipSymbol⟩
  require (positive = true) "Amount must be DEIP and > 0"

def apply (state : State) (op : TransferToCommonTokensOperation) : Except String State := do
  require (accountBalanceExists state.balances op.fromAccount op.amount.symbol)
    "${1} asset balance does not exist for ${2} account"
  let balance ← getAccountBalance state.balances op.fromAccount op.amount.symbol
  let fromAccount ← state.getAccount op.fromAccount
  let toAccount ← state.getAccount (if op.toAccount = "" then fromAccount.name else op.toAccount)
  require (op.amount.amount ≤ balance.amount) "Account does not have sufficient DEIP for transfer."
  let balances ← adjustAccountBalance state.assets state.balances op.fromAccount op.amount.neg
  increaseCommonTokens { state with balances } toAccount.name op.amount.amount

end TransferToCommonTokensOperation

/-- `update_withdraw`. -/
def updateWithdraw (state : State) (name : Name) (rate : Int) (next : Time) (toWithdraw : Int) :
    State :=
  { state with
    accounts := modifyAccount state.accounts name fun account =>
      { account with
        commonTokensWithdrawRate := rate
        nextCommonTokensWithdrawal := next
        toWithdraw
        withdrawn := 0 } }

/-- Only the account name is validated: the amount may have any sign. -/
structure WithdrawCommonTokensOperation where
  account : Name
  totalCommonTokensAmount : Int
deriving DecidableEq, Repr

namespace WithdrawCommonTokensOperation

/-- The amount of each weekly part. -/
def rate (op : WithdrawCommonTokensOperation) : Int :=
  let rate := op.totalCommonTokensAmount.tdiv withdrawIntervals
  if rate = 0 then 1 else rate

def apply (state : State) (op : WithdrawCommonTokensOperation) : Except String State := do
  let account ← state.getAccount op.account
  require (0 ≤ account.commonTokensBalance)
    "Account does not have sufficient Deip Power for withdraw."
  require (op.totalCommonTokensAmount ≤ account.commonTokensBalance)
    "Account does not have sufficient Deip Power for withdraw."
  require (account.mined = true ∨ state.schedule.accountCreationFee * 10 < account.commonTokensBalance ∨
      op.totalCommonTokensAmount = 0)
    "Account registered by another account requires 10x account creation fee worth of Deip Power before it can be powered down."
  if op.totalCommonTokensAmount = 0 then do
    require (account.commonTokensWithdrawRate ≠ 0)
      "This operation would not change the vesting withdraw rate."
    return updateWithdraw state account.name 0 maximumTime 0
  else do
    require (account.commonTokensWithdrawRate ≠ op.rate)
      "This operation would not change the vesting withdraw rate."
    return updateWithdraw state account.name op.rate
      (state.props.time + withdrawIntervalSeconds) op.totalCommonTokensAmount

end WithdrawCommonTokensOperation

/-- The routes of an account as both their uses walk them: from the first route
    above the account with id 0, in the order of the destinations. -/
def routesFrom (routes : List WithdrawRoute) (account : Nat) : List WithdrawRoute :=
  (routes.filter fun route => route.fromAccount == account && decide (0 < route.toAccount)).insertionSort
    fun first second => first.toAccount ≤ second.toAccount

structure SetWithdrawCommonTokensRouteOperation where
  fromAccount : Name
  toAccount : Name
  percent : Nat
  autoCommonToken : Bool
deriving DecidableEq, Repr

namespace SetWithdrawCommonTokensRouteOperation

def validate (op : SetWithdrawCommonTokensRouteOperation) : Except String Unit :=
  require ((op.percent : Int) ≤ fullPercent) "Percent must be valid deip percent"

/-- The routes and the route count of the account after the operation. -/
def updateRoute (state : State) (op : SetWithdrawCommonTokensRouteOperation)
    (fromAccount toAccount : Account) : Except String State :=
  let between := fun route : WithdrawRoute =>
    route.fromAccount == fromAccount.id && route.toAccount == toAccount.id
  let recount := fun change : Nat → Nat =>
    modifyAccount state.accounts fromAccount.name fun account =>
      { account with withdrawRoutes := change account.withdrawRoutes }
  if state.routes.any between then
    if op.percent = 0 then
      return { state with
        routes := state.routes.eraseP between
        accounts := recount (· - 1) }
    else
      return { state with
        routes := modifyFirst between
          (fun route => { route with percent := op.percent, autoCommonToken := op.autoCommonToken })
          state.routes }
  else do
    require (op.percent ≠ 0) "Cannot create a 0% destination."
    require (fromAccount.withdrawRoutes < maxWithdrawRoutes)
      "Account already has the maximum number of routes."
    return { state with
      routes := state.routes ++ [⟨fromAccount.id, toAccount.id, op.percent, op.autoCommonToken⟩]
      accounts := recount (· + 1) }

def apply (state : State) (op : SetWithdrawCommonTokensRouteOperation) :
    Except String State := do
  let fromAccount ← state.getAccount op.fromAccount
  let toAccount ← state.getAccount op.toAccount
  let next ← updateRoute state op fromAccount toAccount
  let totalPercent := ((routesFrom next.routes fromAccount.id).map WithdrawRoute.percent).sum
  require ((totalPercent % 2 ^ 16 : Nat) ≤ fullPercent)
    "More than 100% of common_tokens withdrawals allocated to destinations."
  return next

end SetWithdrawCommonTokensRouteOperation

/-! ## The weekly withdrawals -/

/-- What an account withdraws this time: the rate, or what is left of the amount. -/
def withdrawalAmount (account : Account) : Except String Int := do
  if account.toWithdraw - account.withdrawn < account.commonTokensWithdrawRate then
    -- a zero rate divides by zero
    require (account.commonTokensWithdrawRate ≠ 0) "division by zero"
    return min account.commonTokensBalance
      (account.toWithdraw.tmod account.commonTokensWithdrawRate)
  else
    return min account.commonTokensBalance account.commonTokensWithdrawRate

/-- The part of a withdrawal that a route takes. The product is taken in 128 unsigned
    bits: of a negative amount its quotient does not fit in 64 bits. -/
def depositShare (withdrawal : Int) (percent : Nat) : Except String Int := do
  require (0 ≤ withdrawal ∨ percent = 0) "hi == 0"
  return withdrawal * percent / fullPercent

def getAccountById (accounts : List Account) (id : Nat) : Except String Account :=
  expect (accounts.find? fun account => account.id == id) unknownKey

/-- The first pass over the routes: common tokens for the automatic ones. -/
def depositCommonTokens (withdrawal : Int) (progress : State × Int) (route : WithdrawRoute) :
    Except String (State × Int) :=
  if route.autoCommonToken then do
    let deposit ← depositShare withdrawal route.percent
    if 0 < deposit then do
      let toAccount ← getAccountById progress.1.accounts route.toAccount
      let funded := { progress.1 with
        accounts := modifyAccount progress.1.accounts toAccount.name fun account =>
          { account with commonTokensBalance := account.commonTokensBalance + deposit } }
      let voted ← adjustProxiedWitnessVotes funded toAccount deposit
      return (voted, progress.2 + deposit)
    else return (progress.1, progress.2 + deposit)
  else return progress

/-- The second pass: core tokens for the other routes. -/
def depositDeip (withdrawal : Int) (progress : State × Int) (route : WithdrawRoute) :
    Except String (State × Int) :=
  if route.autoCommonToken then return progress
  else do
    let toAccount ← getAccountById progress.1.accounts route.toAccount
    let deposit ← depositShare withdrawal route.percent
    if 0 < deposit then do
      let balances ← creditAccountBalance progress.1.balances toAccount.name ⟨deposit, deipSymbol⟩
      let props ← decreaseFund progress.1.props deposit
      return ({ progress.1 with balances, props }, progress.2 + deposit)
    else return (progress.1, progress.2 + deposit)

/-- A withdrawal is the last one when the amount is reached or no common tokens are
    left. -/
def withdrawalEnds (withdrawal : Int) (account : Account) : Bool :=
  decide (account.toWithdraw ≤ account.withdrawn + withdrawal) ||
    account.commonTokensBalance - withdrawal == 0

/-- The account after a withdrawal: its schedule ends, or moves on by a week. -/
def completeWithdrawal (withdrawal : Int) (account : Account) : Account :=
  { account with
    commonTokensBalance := account.commonTokensBalance - withdrawal
    withdrawn := account.withdrawn + withdrawal
    commonTokensWithdrawRate :=
      if withdrawalEnds withdrawal account then 0 else account.commonTokensWithdrawRate
    nextCommonTokensWithdrawal :=
      if withdrawalEnds withdrawal account then maximumTime
      else account.nextCommonTokensWithdrawal + withdrawIntervalSeconds }

/-- The withdrawal of one account. -/
def withdrawCommonTokens (state : State) (account : Account) : Except String State := do
  let withdrawal ← withdrawalAmount account
  let routes := routesFrom state.routes account.id
  let (autoState, asCommonTokens) ← routes.foldlM (depositCommonTokens withdrawal) (state, 0)
  let (routed, asDeip) ← routes.foldlM (depositDeip withdrawal) (autoState, 0)
  let converted := withdrawal - asDeip - asCommonTokens
  require (0 ≤ converted) "Deposited more common_tokens than were supposed to be withdrawn"
  let balances ← creditAccountBalance routed.balances account.name ⟨converted, deipSymbol⟩
  let props ← decreaseFund routed.props converted
  let paid := { routed with
    balances
    props
    accounts := modifyAccount routed.accounts account.name (completeWithdrawal withdrawal) }
  if 0 < withdrawal then adjustProxiedWitnessVotes paid account (-withdrawal) else return paid

/-- The order of `by_next_common_tokens_withdrawal`. -/
def Account.dueBefore (first second : Account) : Bool :=
  first.nextCommonTokensWithdrawal < second.nextCommonTokensWithdrawal ||
    (first.nextCommonTokensWithdrawal == second.nextCommonTokensWithdrawal && first.id < second.id)

/-- The account at the front of a list in that order. -/
def firstDue : List Account → Option Account
  | [] => none
  | account :: accounts =>
    match firstDue accounts with
    | none => some account
    | some other => some (if other.dueBefore account then other else account)

/-- The loop over the index. The iterator moves to the next account before the current
    one is rescheduled, so an account that is due more than once can come up again. -/
def walkWithdrawals : Nat → State → Option Account → Except String State
  | 0, _, _ => throw "iterator out of range"
  | _ + 1, state, none => return state
  | fuel + 1, state, some due => do
    let account ← getAccountById state.accounts due.id
    if account.nextCommonTokensWithdrawal ≤ state.props.time then do
      let following := firstDue (state.accounts.filter fun other => account.dueBefore other)
      let next ← withdrawCommonTokens state account
      walkWithdrawals fuel next following
    else return state

/-- `process_common_tokens_withdrawals`. The keys the loop visits increase, and there
    are at most as many keys up to the block time as accounts and seconds. -/
def processCommonTokensWithdrawals (state : State) : Except String State :=
  walkWithdrawals (state.accounts.length * (state.props.time + 1) + 2) state
    (firstDue state.accounts)

/-! ## What a withdrawal moves -/

/-- The global properties after `paid` core tokens have left the fund. -/
def releasedProps (props : GlobalProperties) (paid : Int) : GlobalProperties :=
  { props with
    commonTokensFund := { props.commonTokensFund with
      amount := props.commonTokensFund.amount - paid }
    totalCommonTokensAmount := props.totalCommonTokensAmount - paid }

theorem releasedProps_zero (props : GlobalProperties) : releasedProps props 0 = props := by
  simp [releasedProps]

theorem releasedProps_add (props : GlobalProperties) (first second : Int) :
    releasedProps (releasedProps props first) second = releasedProps props (first + second) := by
  simp [releasedProps, sub_sub]

theorem decreaseFund_released {props after : GlobalProperties} {amount : Int}
    (decreased : decreaseFund props amount = .ok after) : after = releasedProps props amount := by
  simp only [decreaseFund, Asset.sub, Asset.sameSymbol, bind_ok_iff, require_ok_iff,
    pure_ok_iff] at decreased
  obtain ⟨_, ⟨_, _, rfl⟩, rfl⟩ := decreased
  rfl

/-- A part of a withdrawal: `paid` core tokens leave the fund for the balances, and
    `locked` common tokens enter the accounts. -/
structure Released (may : Name → AssetSymbol → Prop) (paid locked : Int) (state next : State) :
    Prop where
  shape : ∃ accounts witnesses witnessVotes balances,
    next = { state with
      accounts, witnesses, witnessVotes, balances, props := releasedProps state.props paid } ∧
    Funded locked state.accounts accounts ∧
    Moved may (Asset.mk paid deipSymbol).under state.balances balances
  elected : Elected state → Elected next

namespace Released

variable {may : Name → AssetSymbol → Prop} {paid locked paid' locked' : Int}
variable {state middle next : State}

theorem trans (first : Released may paid locked state middle)
    (second : Released may paid' locked' middle next) :
    Released may (paid + paid') (locked + locked') state next := by
  obtain ⟨accounts, witnesses, witnessVotes, balances, rfl, funded, moved⟩ := first.shape
  obtain ⟨accounts', witnesses', witnessVotes', balances', rfl, funded', moved'⟩ := second.shape
  refine ⟨⟨accounts', witnesses', witnessVotes', balances', ?_, funded.trans funded', ?_⟩,
    second.elected ∘ first.elected⟩
  · simp only [releasedProps_add]
  · refine (moved.trans moved').congr fun symbol => ?_
    simp only [Asset.under]
    split <;> simp

theorem of_revoted (revoted : Revoted state next) : Released may 0 0 state next := by
  obtain ⟨accounts, witnesses, witnessVotes, rfl, funded, _⟩ := revoted.shape
  refine ⟨⟨accounts, witnesses, witnessVotes, state.balances, ?_, funded, ?_⟩, revoted.elected⟩
  · simp only [releasedProps_zero]
  · exact (Moved.refl may state.balances).congr fun symbol => by simp [Asset.under]

theorem refl (may : Name → AssetSymbol → Prop) (state : State) : Released may 0 0 state state :=
  of_revoted (Revoted.refl state)

theorem of_accounts (may : Name → AssetSymbol → Prop) {accounts : List Account}
    (funded : Funded locked state.accounts accounts) :
    Released may 0 locked state { state with accounts } := by
  refine ⟨⟨accounts, state.witnesses, state.witnessVotes, state.balances, ?_, funded, ?_⟩, id⟩
  · simp only [releasedProps_zero]
  · exact (Moved.refl may state.balances).congr fun symbol => by simp [Asset.under]

/-- Core tokens paid to a balance out of the fund. -/
theorem of_payment (may : Name → AssetSymbol → Prop) {balances : List Balance}
    {props : GlobalProperties} {owner : Name} (positive : 0 ≤ paid)
    (credited : creditAccountBalance state.balances owner ⟨paid, deipSymbol⟩ = .ok balances)
    (decreased : decreaseFund state.props paid = .ok props) :
    Released may paid 0 state { state with balances, props } := by
  refine ⟨⟨state.accounts, state.witnesses, state.witnessVotes, balances, ?_, Funded.refl _, ?_⟩, ?_⟩
  · simp only [decreaseFund_released decreased]
  · exact creditAccountBalance_moved may positive credited
  · rw [decreaseFund_released decreased]
    exact id

end Released

theorem depositShare_nonneg {withdrawal deposit : Int} {percent : Nat}
    (shared : depositShare withdrawal percent = .ok deposit) : 0 ≤ deposit := by
  simp only [depositShare, bind_ok_iff, require_ok_iff, pure_ok_iff] at shared
  obtain ⟨_, sign, rfl⟩ := shared
  rcases sign with positive | zero
  · exact Int.ediv_nonneg (Int.mul_nonneg positive (Int.natCast_nonneg percent)) (by decide)
  · simp [zero]

/-- Rewriting the account of a row that is there finds some row of that name. -/
theorem exists_named {accounts : List Account} {account : Account} (member : account ∈ accounts) :
    ∃ row, accounts.find? (fun other => other.name == account.name) = some row :=
  Option.isSome_iff_exists.mp (List.find?_isSome.mpr ⟨account, member, beq_self_eq_true _⟩)

theorem getAccountById_mem {accounts : List Account} {id : Nat} {account : Account}
    (got : getAccountById accounts id = .ok account) : account ∈ accounts :=
  List.mem_of_find?_eq_some (expect_ok_iff.mp got)

/-- An automatic route turns a part of the withdrawal into common tokens. -/
theorem depositCommonTokens_released (may : Name → AssetSymbol → Prop) {withdrawal : Int}
    {progress next : State × Int} {route : WithdrawRoute}
    (deposited : depositCommonTokens withdrawal progress route = .ok next) :
    progress.2 ≤ next.2 ∧ Released may 0 (next.2 - progress.2) progress.1 next.1 ∧
      Growing progress.1.accounts next.1.accounts := by
  unfold depositCommonTokens at deposited
  split at deposited
  · simp only [bind_ok_iff] at deposited
    obtain ⟨deposit, shared, deposited⟩ := deposited
    have positive := depositShare_nonneg shared
    split at deposited
    · simp only [bind_ok_iff, pure_ok_iff] at deposited
      obtain ⟨toAccount, got, voted, forwarded, rfl⟩ := deposited
      obtain ⟨row, found⟩ := exists_named (getAccountById_mem got)
      have funded : Funded deposit progress.1.accounts (modifyAccount progress.1.accounts
          toAccount.name fun account =>
            { account with commonTokensBalance := account.commonTokensBalance + deposit }) := by
        refine modifyAccount_funded deposit found (fun _ => rfl) (fun _ => rfl) rfl ?_
        rintro ⟨common, withdrawn, rate, toWithdraw⟩
        exact ⟨by dsimp only; omega, withdrawn, rate, toWithdraw⟩
      have grown : Growing progress.1.accounts (modifyAccount progress.1.accounts
          toAccount.name fun account =>
            { account with commonTokensBalance := account.commonTokensBalance + deposit }) :=
        modifyAccount_growing fun _ => ⟨rfl, by dsimp only; omega, rfl, rfl, rfl⟩
      have revoted := forwardVotes_revoted forwarded
      obtain ⟨_, _, _, rfl, _, growing⟩ := revoted.shape
      refine ⟨by dsimp only; omega, ?_, grown.trans growing⟩
      have both := (Released.of_accounts may funded).trans (Released.of_revoted revoted)
      simpa using both
    · rw [pure_ok_iff] at deposited
      subst deposited
      have none : deposit = 0 := by omega
      refine ⟨by dsimp only; omega, ?_, Growing.refl _⟩
      simpa [none] using Released.refl may progress.1
  · rw [pure_ok_iff] at deposited
    subst deposited
    exact ⟨le_refl _, by simpa using Released.refl may progress.1, Growing.refl _⟩

/-- Another route pays a part of the withdrawal in core tokens. -/
theorem depositDeip_released (may : Name → AssetSymbol → Prop) {withdrawal : Int}
    {progress next : State × Int} {route : WithdrawRoute}
    (deposited : depositDeip withdrawal progress route = .ok next) :
    progress.2 ≤ next.2 ∧ Released may (next.2 - progress.2) 0 progress.1 next.1 ∧
      next.1.accounts = progress.1.accounts := by
  unfold depositDeip at deposited
  split at deposited
  · rw [pure_ok_iff] at deposited
    subst deposited
    exact ⟨le_refl _, by simpa using Released.refl may progress.1, rfl⟩
  · simp only [bind_ok_iff] at deposited
    obtain ⟨toAccount, _, deposit, shared, deposited⟩ := deposited
    have positive := depositShare_nonneg shared
    split at deposited
    · simp only [bind_ok_iff, pure_ok_iff] at deposited
      obtain ⟨balances, credited, props, decreased, rfl⟩ := deposited
      refine ⟨by dsimp only; omega, ?_, rfl⟩
      simpa using Released.of_payment may positive credited decreased
    · rw [pure_ok_iff] at deposited
      subst deposited
      have none : deposit = 0 := by omega
      refine ⟨by dsimp only; omega, ?_, rfl⟩
      simpa [none] using Released.refl may progress.1

/-- The passes over all routes of an account. -/
theorem routes_released (may : Name → AssetSymbol → Prop) {withdrawal asCommonTokens asDeip : Int}
    {routes : List WithdrawRoute} {state autoState routed : State}
    (first : routes.foldlM (depositCommonTokens withdrawal) (state, 0) =
      .ok (autoState, asCommonTokens))
    (second : routes.foldlM (depositDeip withdrawal) (autoState, 0) = .ok (routed, asDeip)) :
    0 ≤ asCommonTokens ∧ 0 ≤ asDeip ∧ Released may asDeip asCommonTokens state routed ∧
      Growing state.accounts routed.accounts := by
  have auto : 0 ≤ asCommonTokens ∧ Released may 0 asCommonTokens state autoState ∧
      Growing state.accounts autoState.accounts := by
    refine foldlM_invariant (fun _ (progress : State × Int) => 0 ≤ progress.2 ∧
      Released may 0 progress.2 state progress.1 ∧ Growing state.accounts progress.1.accounts)
      ?_ ⟨le_refl _, Released.refl may state, Growing.refl _⟩ first
    rintro route _ progress next ⟨positive, released, growing⟩ deposited
    obtain ⟨more, step, grown⟩ := depositCommonTokens_released may deposited
    refine ⟨positive.trans more, ?_, growing.trans grown⟩
    simpa using released.trans step
  have deip : 0 ≤ asDeip ∧ Released may asDeip 0 autoState routed ∧
      routed.accounts = autoState.accounts := by
    refine foldlM_invariant (fun _ (progress : State × Int) => 0 ≤ progress.2 ∧
      Released may progress.2 0 autoState progress.1 ∧ progress.1.accounts = autoState.accounts)
      ?_ ⟨le_refl _, Released.refl may autoState, rfl⟩ second
    rintro route _ progress next ⟨positive, released, same⟩ deposited
    obtain ⟨more, step, kept⟩ := depositDeip_released may deposited
    refine ⟨positive.trans more, ?_, kept.trans same⟩
    simpa using released.trans step
  refine ⟨auto.1, deip.1, ?_, ?_⟩
  · simpa using auto.2.1.trans deip.2.1
  · rw [deip.2.2]
    exact auto.2.2

theorem withdrawalAmount_le {account : Account} {withdrawal : Int}
    (computed : withdrawalAmount account = .ok withdrawal) :
    withdrawal ≤ account.commonTokensBalance := by
  unfold withdrawalAmount at computed
  split at computed
  · simp only [bind_ok_iff, pure_ok_iff] at computed
    obtain ⟨_, _, rfl⟩ := computed
    exact min_le_left _ _
  · rw [pure_ok_iff] at computed
    exact computed ▸ min_le_left _ _

theorem completeWithdrawal_reserved {withdrawal : Int} {account : Account} (positive : 0 ≤ withdrawal)
    (covered : withdrawal ≤ account.commonTokensBalance) (reserved : account.Reserved) :
    (completeWithdrawal withdrawal account).Reserved := by
  obtain ⟨common, withdrawn, rate, toWithdraw⟩ := reserved
  refine ⟨?_, ?_, ?_, toWithdraw⟩
  · dsimp only [completeWithdrawal]
    omega
  · dsimp only [completeWithdrawal]
    omega
  · dsimp only [completeWithdrawal]
    split
    · exact le_refl _
    · exact rate

/-- The withdrawal of an account takes as many common tokens out of the accounts as
    core tokens out of the fund.

Proof: the routes pay a part of it in core tokens and lock a part again, the account
itself gets the rest in core tokens and loses the whole. The account only gained
common tokens since the amount was computed, so it is not overdrawn. -/
theorem withdrawCommonTokens_released (may : Name → AssetSymbol → Prop) {state next : State}
    {account : Account}
    (found : state.accounts.find? (fun other => other.name == account.name) = some account)
    (withdrew : withdrawCommonTokens state account = .ok next) :
    ∃ paid, Released may paid (-paid) state next := by
  simp only [withdrawCommonTokens, bind_ok_iff, require_ok_iff] at withdrew
  obtain ⟨withdrawal, computed, ⟨autoState, asCommonTokens⟩, first, ⟨routed, asDeip⟩, second, _,
    positive, balances, credited, props, decreased, final⟩ := withdrew
  dsimp only at second positive credited decreased final
  obtain ⟨commonPositive, deipPositive, released, growing⟩ := routes_released may first second
  have paid := Released.of_payment may positive credited decreased
  obtain ⟨row, foundRow⟩ : ∃ row, routed.accounts.find?
      (fun other => other.name == account.name) = some row := by
    obtain ⟨accounts, _, _, _, rfl, funded, _⟩ := released.shape
    have named : account.name ∈ accounts.map Account.name := by
      rw [funded.names]
      exact List.mem_map_of_mem (List.mem_of_find?_eq_some found)
    obtain ⟨row, member, same⟩ := List.mem_map.mp named
    exact same ▸ exists_named member
  obtain ⟨earlier, foundEarlier, grown⟩ := growing.find foundRow
  have same : earlier = account := Option.some.inj (foundEarlier.symm.trans found)
  have covered : withdrawal ≤ row.commonTokensBalance :=
    (withdrawalAmount_le computed).trans (same ▸ grown.common)
  have completed : Funded (-withdrawal) routed.accounts
      (modifyAccount routed.accounts account.name (completeWithdrawal withdrawal)) := by
    refine modifyAccount_funded _ foundRow (fun _ => rfl) (fun _ => rfl) (Int.sub_eq_add_neg) ?_
    exact completeWithdrawal_reserved (by omega) covered
  have written := (released.trans paid).trans (Released.of_accounts may completed)
  have balanced : asCommonTokens + 0 + -withdrawal =
      -(asDeip + (withdrawal - asDeip - asCommonTokens) + 0) := by omega
  rw [balanced] at written
  refine ⟨asDeip + (withdrawal - asDeip - asCommonTokens) + 0, ?_⟩
  split at final
  · have voted := written.trans (Released.of_revoted (forwardVotes_revoted final))
    simpa using voted
  · rw [pure_ok_iff] at final
    exact final ▸ written

/-- The names of the accounts are distinct. -/
def Named (accounts : List Account) : Prop :=
  (accounts.map Account.name).Nodup

theorem walkWithdrawals_released (may : Name → AssetSymbol → Prop) {fuel : Nat}
    {state next : State} {due : Option Account} (named : Named state.accounts)
    (walked : walkWithdrawals fuel state due = .ok next) :
    ∃ paid, Released may paid (-paid) state next := by
  induction fuel generalizing state due with
  | zero => cases walked
  | succ fuel hypothesis =>
    cases due with
    | none =>
      rw [walkWithdrawals, pure_ok_iff] at walked
      exact ⟨0, walked ▸ Released.refl may state⟩
    | some due =>
      simp only [walkWithdrawals, bind_ok_iff] at walked
      obtain ⟨account, got, walked⟩ := walked
      split at walked
      · simp only [bind_ok_iff] at walked
        obtain ⟨middle, withdrew, rest⟩ := walked
        have found := find?_of_nodup named (getAccountById_mem got)
        obtain ⟨paid, released⟩ := withdrawCommonTokens_released may found withdrew
        have renamed : Named middle.accounts := by
          obtain ⟨accounts, _, _, _, rfl, funded, _⟩ := released.shape
          unfold Named
          rw [funded.names]
          exact named
        obtain ⟨more, later⟩ := hypothesis renamed rest
        refine ⟨paid + more, ?_⟩
        rw [neg_add]
        exact released.trans later
      · rw [pure_ok_iff] at walked
        exact ⟨0, walked ▸ Released.refl may state⟩

/-- The weekly withdrawals move core tokens from the fund to the balances, and take as
    many common tokens out of the accounts. -/
theorem processCommonTokensWithdrawals_released (may : Name → AssetSymbol → Prop)
    {state next : State} (named : Named state.accounts)
    (processed : processCommonTokensWithdrawals state = .ok next) :
    ∃ paid, Released may paid (-paid) state next :=
  walkWithdrawals_released may named processed

/-! ## What the operations move -/

/-- Locking core tokens moves them from a balance to the fund. -/
theorem TransferToCommonTokensOperation.apply_released (may : Name → AssetSymbol → Prop)
    {state next : State} {op : TransferToCommonTokensOperation} (valid : op.validate = .ok ())
    (applied : op.apply state = .ok next) :
    Released may (-op.amount.amount) op.amount.amount state next := by
  simp only [validate, bind_ok_iff, require_ok_iff] at valid
  obtain ⟨positive, compared, rfl⟩ := valid
  have core := Asset.above_zero_iff.mp compared
  simp only [apply, bind_ok_iff, require_ok_iff] at applied
  obtain ⟨_, _, _, _, _, _, _, _, _, _, balances, adjusted, increased⟩ := applied
  obtain ⟨positive, _, accounts, funded, rfl⟩ := increaseCommonTokens_effect increased
  have moved := adjustAccountBalance_moved may (.inr (by simp [Asset.neg]; omega)) adjusted
  refine ⟨⟨accounts, state.witnesses, state.witnessVotes, balances, ?_, funded, ?_⟩, id⟩
  · simp [releasedProps]
  · simpa [Asset.neg, core.1] using moved

/-- Scheduling a withdrawal moves nothing; a negative amount schedules a negative rate. -/
theorem WithdrawCommonTokensOperation.apply_effect {state next : State}
    {op : WithdrawCommonTokensOperation} (applied : op.apply state = .ok next) :
    ∃ name rate time toWithdraw, next = updateWithdraw state name rate time toWithdraw ∧
      (0 ≤ op.totalCommonTokensAmount → 0 ≤ rate ∧ 0 ≤ toWithdraw) := by
  simp only [apply, bind_ok_iff, require_ok_iff] at applied
  obtain ⟨account, _, _, _, _, _, _, _, applied⟩ := applied
  split at applied
  · simp only [bind_ok_iff, pure_ok_iff] at applied
    obtain ⟨_, _, rfl⟩ := applied
    exact ⟨_, _, _, _, rfl, fun _ => ⟨le_refl _, le_refl _⟩⟩
  · simp only [bind_ok_iff, pure_ok_iff] at applied
    obtain ⟨_, _, rfl⟩ := applied
    refine ⟨_, _, _, _, rfl, fun sign => ⟨?_, sign⟩⟩
    have weekly := Int.tdiv_nonneg sign (by decide : 0 ≤ withdrawIntervals)
    unfold rate
    dsimp only
    split
    · decide
    · exact weekly

/-- Routes move nothing. -/
theorem SetWithdrawCommonTokensRouteOperation.apply_effect {state next : State}
    {op : SetWithdrawCommonTokensRouteOperation} (applied : op.apply state = .ok next) :
    ∃ routes accounts, next = { state with routes, accounts } ∧
      Funded 0 state.accounts accounts := by
  simp only [apply, bind_ok_iff, require_ok_iff, pure_ok_iff] at applied
  obtain ⟨fromAccount, _, toAccount, _, next, updated, _, _, rfl⟩ := applied
  have recounted (change : Nat → Nat) :
      let accounts := modifyAccount state.accounts fromAccount.name fun account =>
        { account with withdrawRoutes := change account.withdrawRoutes }
      Funded 0 state.accounts accounts ∧ Growing state.accounts accounts :=
    modifyAccount_votes (fun _ => rfl) (fun _ => rfl) (fun _ => ⟨rfl, le_refl _, rfl, rfl, rfl⟩)
  simp only [updateRoute] at updated
  split at updated
  · split at updated
    · rw [pure_ok_iff] at updated
      exact ⟨_, _, updated.symm, (recounted (· - 1)).1⟩
    · rw [pure_ok_iff] at updated
      exact ⟨_, _, updated.symm, Funded.refl _⟩
  · simp only [bind_ok_iff, pure_ok_iff] at updated
    obtain ⟨_, _, _, _, rfl⟩ := updated
    exact ⟨_, _, rfl, (recounted (· + 1)).1⟩

end DeipChain.Ledger
