import DeipChain.Ledger.Assets
import Mathlib.Data.List.Sort

/-!
# Common tokens and witness votes

Common tokens are core tokens locked in a fund. The account service keeps the fund,
their total and each account's balance of them, and forwards changes of voting
weight along the proxies of an account to the witnesses it votes for.
-/
namespace DeipChain.Ledger

open DeipChain.Result DeipChain.Table

/-- `DEIP_MAX_PROXY_RECURSION_DEPTH`. -/
def maxProxyRecursionDepth : Nat := 4

/-- `DEIP_MAX_ACCOUNT_WITNESS_VOTES`. -/
def maxAccountWitnessVotes : Nat := 30

/-- `DEIP_PROXY_TO_SELF_ACCOUNT`. -/
def proxyToSelf : Name := ""

/-- `witness_vote_weight`: the account's expertise and what is proxied to it. -/
def Account.witnessVoteWeight (account : Account) : Int :=
  account.expertiseTokensBalance + account.proxiedVsfVotes.sum

/-- Rewrites the account of a given name. -/
def modifyAccount (accounts : List Account) (name : Name) (change : Account → Account) :
    List Account :=
  modifyFirst (fun account => account.name == name) change accounts

/-! ## The common token fund -/

def increaseCommonTokens (state : State) (name : Name) (amount : Int) : Except String State := do
  require (0 ≤ amount) "Amount cannot be < 0"
  let _ ← state.getAccount name
  let commonTokensFund ← state.props.commonTokensFund.add ⟨amount, deipSymbol⟩
  return { state with
    accounts := modifyAccount state.accounts name fun account =>
      { account with commonTokensBalance := account.commonTokensBalance + amount }
    props := { state.props with
      totalCommonTokensAmount := state.props.totalCommonTokensAmount + amount
      commonTokensFund } }

/-- Core tokens leave the fund when common tokens are withdrawn. -/
def decreaseFund (props : GlobalProperties) (amount : Int) : Except String GlobalProperties := do
  let commonTokensFund ← props.commonTokensFund.sub ⟨amount, deipSymbol⟩
  return { props with
    commonTokensFund
    totalCommonTokensAmount := props.totalCommonTokensAmount - amount }

/-! ## Witness votes -/

/-- `adjust_witness_vote`: no witness gets more votes than there are expert tokens. The virtual
    time of the witness is divided by its votes and one more. -/
def adjustWitnessVote (totalExpertTokens : Int) (delta : Int) (witnesses : List Witness)
    (id : Nat) : Except String (List Witness) := do
  let witness ← expect (witnesses.find? fun witness => witness.id == id) unknownKey
  require (witness.votes + delta ≤ totalExpertTokens) ""
  require (witness.votes + delta + 1 ≠ 0) "division by zero"
  return modifyFirst (fun witness => witness.id == id)
    (fun witness => { witness with votes := witness.votes + delta }) witnesses

/-- The witnesses an account votes for, in the order of `by_account_witness`. -/
def votedWitnesses (votes : List WitnessVote) (account : Nat) : List Nat :=
  ((votes.filter fun vote => vote.account == account).map WitnessVote.witness).insertionSort
    (· ≤ ·)

def adjustWitnessVotes (state : State) (account : Account) (delta : Int) :
    Except String State := do
  let witnesses ← (votedWitnesses state.witnessVotes account.id).foldlM
    (adjustWitnessVote state.props.totalExpertTokensAmount delta) state.witnesses
  return { state with witnesses }

/-- Adds one amount to the slot of a vote array. -/
def addAt (votes : List Int) (slot : Nat) (delta : Int) : List Int :=
  votes.modify slot (· + delta)

/-- `adjust_proxied_witness_votes(account, delta)`, with `remaining` levels of proxies
    left to follow. -/
def forwardVotes (delta : Int) : Nat → Account → State → Except String State
  | remaining, account, state =>
    if account.proxy = proxyToSelf then adjustWitnessVotes state account delta
    else match remaining with
      | 0 => return state
      | remaining + 1 => do
        let proxy ← state.getAccount account.proxy
        forwardVotes delta remaining proxy { state with
          accounts := modifyAccount state.accounts proxy.name fun account =>
            { account with
              proxiedVsfVotes := addAt account.proxiedVsfVotes
                (maxProxyRecursionDepth - (remaining + 1)) delta } }

def adjustProxiedWitnessVotes (state : State) (account : Account) (delta : Int) :
    Except String State :=
  forwardVotes delta maxProxyRecursionDepth account state

/-- `proxied_vsf_votes[i + depth] += delta[i]` for the slots below the depth limit. -/
def addShifted (votes deltas : List Int) (depth : Nat) : List Int :=
  votes.mapIdx fun slot vote =>
    if depth ≤ slot then vote + deltas.getD (slot - depth) 0 else vote

/-- `adjust_proxied_witness_votes(account, delta)` for an array of deltas, one for each
    level of proxies. -/
def forwardVoteArray (deltas : List Int) : Nat → Account → State → Except String State
  | remaining, account, state =>
    let depth := maxProxyRecursionDepth - remaining
    if account.proxy = proxyToSelf then
      adjustWitnessVotes state account (deltas.take (maxProxyRecursionDepth - depth + 1)).sum
    else match remaining with
      | 0 => return state
      | remaining + 1 => do
        let proxy ← state.getAccount account.proxy
        forwardVoteArray deltas remaining proxy { state with
          accounts := modifyAccount state.accounts proxy.name fun account =>
            { account with
              proxiedVsfVotes := addShifted account.proxiedVsfVotes deltas depth } }

/-! ## Proxies -/

/-- Follows the proxies of a proxy and refuses a loop or a chain that is too long. -/
def checkProxyChain (state : State) : Nat → List Nat → Account → Except String Unit
  | 0, _, _ => throw "Proxy chain is too long."
  | fuel + 1, chain, proxy =>
    if proxy.proxy = proxyToSelf then return ()
    else do
      let next ← state.getAccount proxy.proxy
      require (next.id ∉ chain) "This proxy would create a proxy loop."
      let longer := next.id :: chain
      require (longer.length ≤ maxProxyRecursionDepth) "Proxy chain is too long."
      checkProxyChain state fuel longer next

def clearWitnessVotes (state : State) (account : Account) : State :=
  { state with
    witnessVotes := state.witnessVotes.filter fun vote => vote.account ≠ account.id
    accounts := modifyAccount state.accounts account.name fun account =>
      { account with witnessesVotedFor := 0 } }

/-- The voting weight that an account passes on, level by level. The code takes the
    common tokens of the account, not its expert tokens. -/
def proxiedDeltas (account : Account) : List Int :=
  -account.commonTokensBalance :: account.proxiedVsfVotes.map (- ·)

def setProxy (state : State) (name proxy : Name) : State :=
  { state with
    accounts := modifyAccount state.accounts name fun account => { account with proxy } }

def updateVotingProxy (state : State) (account : Account) (proxyAccount : Option Account) :
    Except String State := do
  let withdrawn ← forwardVoteArray (proxiedDeltas account) maxProxyRecursionDepth account state
  match proxyAccount with
  | none => return setProxy withdrawn account.name proxyToSelf
  | some proxy => do
    -- the chain starts with two accounts, so the length limit ends the walk
    checkProxyChain withdrawn maxProxyRecursionDepth [proxy.id, account.id].dedup proxy
    let moved := setProxy (clearWitnessVotes withdrawn account) account.name proxy.name
    let proxied ← moved.getAccount account.name
    forwardVoteArray ((proxiedDeltas account).map (- ·)) maxProxyRecursionDepth proxied moved

structure AccountWitnessProxyOperation where
  account : Name
  proxy : Name
deriving DecidableEq, Repr

namespace AccountWitnessProxyOperation

def validate (op : AccountWitnessProxyOperation) : Except String Unit :=
  require (op.proxy ≠ op.account) "Cannot proxy to self"

def apply (state : State) (op : AccountWitnessProxyOperation) : Except String State := do
  let account ← state.getAccount op.account
  require (account.proxy ≠ op.proxy) "Proxy must change."
  require (account.canVote = true)
    "Account has declined the ability to vote and cannot proxy votes."
  if op.proxy = proxyToSelf then updateVotingProxy state account none
  else do
    let proxy ← state.getAccount op.proxy
    updateVotingProxy state account (some proxy)

end AccountWitnessProxyOperation

structure AccountWitnessVoteOperation where
  account : Name
  witness : Name
  approve : Bool
deriving DecidableEq, Repr

namespace AccountWitnessVoteOperation

def apply (state : State) (op : AccountWitnessVoteOperation) : Except String State := do
  let voter ← state.getAccount op.account
  require (voter.proxy = proxyToSelf)
    "A proxy is currently set, please clear the proxy before voting for a witness."
  require (op.approve = true → voter.canVote = true) "Account has declined its voting rights."
  let witness ← expect (state.witnesses.find? fun witness => witness.owner == op.witness) unknownKey
  let vote : WitnessVote := { witness := witness.id, account := voter.id }
  if vote ∈ state.witnessVotes then do
    require (op.approve = false) "Vote currently exists, user must indicate a desire to reject witness."
    let witnesses ← adjustWitnessVote state.props.totalExpertTokensAmount
      (-voter.witnessVoteWeight) state.witnesses witness.id
    return { state with
      witnesses
      witnessVotes := state.witnessVotes.erase vote
      accounts := modifyAccount state.accounts voter.name fun account =>
        { account with witnessesVotedFor := account.witnessesVotedFor - 1 } }
  else do
    require (op.approve = true) "Vote doesn't exist, user must indicate a desire to approve witness."
    require (voter.witnessesVotedFor < maxAccountWitnessVotes)
      "Account has voted for too many witnesses."
    let witnesses ← adjustWitnessVote state.props.totalExpertTokensAmount voter.witnessVoteWeight
      state.witnesses witness.id
    return { state with
      witnesses
      witnessVotes := state.witnessVotes ++ [vote]
      accounts := modifyAccount state.accounts voter.name fun account =>
        { account with witnessesVotedFor := account.witnessesVotedFor + 1 } }

end AccountWitnessVoteOperation

/-- `witness_update_operation`: a new witness starts without votes. -/
structure WitnessUpdateOperation where
  owner : Name
deriving DecidableEq, Repr

def WitnessUpdateOperation.apply (state : State) (op : WitnessUpdateOperation) :
    Except String State := do
  require (state.accountExists op.owner) "Account \"${1}\" must exist."
  if state.witnesses.any fun witness => witness.owner == op.owner then return state
  else return { state with
    witnesses := state.witnesses ++
      [{ id := state.witnesses.length, owner := op.owner, votes := 0, schedule := .none }] }

/-! ## What these changes keep -/

/-- The common tokens of an account and the schedule of their withdrawal are not
    negative. -/
def Account.Reserved (account : Account) : Prop :=
  0 ≤ account.commonTokensBalance ∧ 0 ≤ account.withdrawn ∧
    0 ≤ account.commonTokensWithdrawRate ∧ 0 ≤ account.toWithdraw

/-- An account with the count of its expert tokens. -/
def Account.rating (account : Account) : Name × Int :=
  (account.name, account.expertiseTokensBalance)

/-- A rewriting of accounts that brings `common` common tokens into them. -/
structure Funded (common : Int) (before after : List Account) : Prop where
  ratings : after.map Account.rating = before.map Account.rating
  common : total Account.commonTokensBalance after =
    total Account.commonTokensBalance before + common
  reserved : (∀ account ∈ before, account.Reserved) → ∀ account ∈ after, account.Reserved

namespace Funded

variable {first second : Int} {before middle after : List Account}

theorem refl (accounts : List Account) : Funded 0 accounts accounts :=
  ⟨rfl, (add_zero _).symm, id⟩

theorem trans (one : Funded first before middle) (two : Funded second middle after) :
    Funded (first + second) before after where
  ratings := two.ratings.trans one.ratings
  common := by rw [two.common, one.common, add_assoc]
  reserved := two.reserved ∘ one.reserved

theorem names (funded : Funded first before after) :
    after.map Account.name = before.map Account.name := by
  have same := congrArg (List.map Prod.fst) funded.ratings
  simp only [List.map_map] at same
  exact same

theorem expertise (funded : Funded first before after) :
    total Account.expertiseTokensBalance after = total Account.expertiseTokensBalance before := by
  have same := congrArg (List.map Prod.snd) funded.ratings
  simp only [List.map_map] at same
  exact congrArg List.sum same

theorem experts (funded : Funded first before after)
    (all : ∀ account ∈ before, 0 ≤ account.expertiseTokensBalance) :
    ∀ account ∈ after, 0 ≤ account.expertiseTokensBalance := by
  intro account member
  have listed : account.rating ∈ before.map Account.rating :=
    funded.ratings ▸ List.mem_map_of_mem member
  obtain ⟨earlier, known, same⟩ := List.mem_map.mp listed
  have count : earlier.expertiseTokensBalance = account.expertiseTokensBalance :=
    congrArg Prod.snd same
  exact count ▸ all earlier known

end Funded

/-- Rewriting the common tokens of one account. -/
theorem modifyAccount_funded {accounts : List Account} {name : Name} {account : Account}
    {change : Account → Account} (delta : Int)
    (found : accounts.find? (fun account => account.name == name) = some account)
    (sameName : ∀ row, (change row).name = row.name)
    (sameExpertise : ∀ row, (change row).expertiseTokensBalance = row.expertiseTokensBalance)
    (moves : (change account).commonTokensBalance = account.commonTokensBalance + delta)
    (reserved : account.Reserved → (change account).Reserved) :
    Funded delta accounts (modifyAccount accounts name change) where
  ratings := map_modifyFirst fun row => Prod.ext (sameName row) (sameExpertise row)
  common := by
    rw [modifyAccount, total_modifyFirst _ found, moves]
    omega
  reserved all := forall_modifyFirst all fun row hit bounds => by
    have same : row = account := Option.some.inj (hit.symm.trans found)
    exact same ▸ reserved (same ▸ bounds)

/-- The account has not lost common tokens, and its withdrawal is scheduled as before. -/
structure Account.Grown (before after : Account) : Prop where
  name : after.name = before.name
  common : before.commonTokensBalance ≤ after.commonTokensBalance
  rate : after.commonTokensWithdrawRate = before.commonTokensWithdrawRate
  withdrawn : after.withdrawn = before.withdrawn
  toWithdraw : after.toWithdraw = before.toWithdraw

theorem Account.Grown.refl (account : Account) : account.Grown account :=
  ⟨rfl, le_refl _, rfl, rfl, rfl⟩

theorem Account.Grown.trans {before middle after : Account} (first : before.Grown middle)
    (second : middle.Grown after) : before.Grown after :=
  ⟨second.name.trans first.name, first.common.trans second.common, second.rate.trans first.rate,
    second.withdrawn.trans first.withdrawn, second.toWithdraw.trans first.toWithdraw⟩

/-- No account has lost common tokens. -/
def Growing (before after : List Account) : Prop :=
  List.Forall₂ Account.Grown before after

theorem Growing.refl (accounts : List Account) : Growing accounts accounts :=
  List.forall₂_same.mpr fun account _ => Account.Grown.refl account

theorem Growing.trans {before middle after : List Account} (first : Growing before middle)
    (second : Growing middle after) : Growing before after := by
  induction first generalizing after with
  | nil => exact second
  | cons grown _ hypothesis =>
    cases second with
    | cons grown' rest => exact .cons (grown.trans grown') (hypothesis rest)

theorem Growing.find {before after : List Account} (growing : Growing before after) {name : Name}
    {account : Account}
    (found : after.find? (fun account => account.name == name) = some account) :
    ∃ earlier, before.find? (fun account => account.name == name) = some earlier ∧
      earlier.Grown account :=
  find?_forall₂ (fun _ _ grown => by rw [grown.name]) growing found

theorem modifyAccount_growing {accounts : List Account} {name : Name} {change : Account → Account}
    (grown : ∀ row, Account.Grown row (change row)) :
    Growing accounts (modifyAccount accounts name change) :=
  forall₂_modifyFirst Account.Grown.refl grown accounts

/-- Rewriting an account's votes moves no tokens. -/
theorem modifyAccount_votes {accounts : List Account} {name : Name} {change : Account → Account}
    (sameExpertise : ∀ row, (change row).expertiseTokensBalance = row.expertiseTokensBalance)
    (sameCommon : ∀ row, (change row).commonTokensBalance = row.commonTokensBalance)
    (grown : ∀ row, Account.Grown row (change row)) :
    Funded 0 accounts (modifyAccount accounts name change) ∧
      Growing accounts (modifyAccount accounts name change) := by
  refine ⟨⟨?_, ?_, ?_⟩, modifyAccount_growing grown⟩
  · exact map_modifyFirst fun row => Prod.ext (grown row).name (sameExpertise row)
  · rw [modifyAccount, total_modifyFirst_same sameCommon, add_zero]
  · intro all
    refine forall_modifyFirst all ?_
    rintro row _ ⟨common, withdrawn, rate, toWithdraw⟩
    have kept := grown row
    exact ⟨(sameCommon row).symm ▸ common, kept.withdrawn.symm ▸ withdrawn, kept.rate.symm ▸ rate,
      kept.toWithdraw.symm ▸ toWithdraw⟩

/-- No witness has more votes than there are expert tokens. -/
def Elected (state : State) : Prop :=
  ∀ witness ∈ state.witnesses, witness.votes ≤ state.props.totalExpertTokensAmount

/-- A change of votes and proxies: it moves no tokens, and it asserts the bound on
    the votes of every witness it touches. -/
structure Revoted (state next : State) : Prop where
  shape : ∃ accounts witnesses witnessVotes,
    next = { state with accounts, witnesses, witnessVotes } ∧
      Funded 0 state.accounts accounts ∧ Growing state.accounts accounts
  elected : Elected state → Elected next

namespace Revoted

theorem refl (state : State) : Revoted state state :=
  ⟨⟨state.accounts, state.witnesses, state.witnessVotes, rfl, Funded.refl _, Growing.refl _⟩, id⟩

theorem trans {state middle next : State} (first : Revoted state middle)
    (second : Revoted middle next) : Revoted state next := by
  obtain ⟨accounts, witnesses, witnessVotes, rfl, funded, growing⟩ := first.shape
  obtain ⟨accounts', witnesses', witnessVotes', rfl, funded', growing'⟩ := second.shape
  exact ⟨⟨accounts', witnesses', witnessVotes', rfl, funded.trans funded', growing.trans growing'⟩,
    second.elected ∘ first.elected⟩

theorem of_accounts {state : State} {accounts : List Account}
    (kept : Funded 0 state.accounts accounts ∧ Growing state.accounts accounts) :
    Revoted state { state with accounts } :=
  ⟨⟨accounts, state.witnesses, state.witnessVotes, rfl, kept⟩, id⟩

end Revoted

theorem adjustWitnessVote_elected {bound delta : Int} {witnesses after : List Witness} {id : Nat}
    (elected : ∀ witness ∈ witnesses, witness.votes ≤ bound)
    (adjusted : adjustWitnessVote bound delta witnesses id = .ok after) :
    ∀ witness ∈ after, witness.votes ≤ bound := by
  simp only [adjustWitnessVote, bind_ok_iff, expect_ok_iff, require_ok_iff, pure_ok_iff] at adjusted
  obtain ⟨witness, found, _, bounded, _, _, rfl⟩ := adjusted
  refine forall_modifyFirst elected ?_
  intro row hit _
  have same : row = witness := Option.some.inj (hit.symm.trans found)
  exact same ▸ bounded

theorem adjustWitnessVotes_revoted {state next : State} {account : Account} {delta : Int}
    (adjusted : adjustWitnessVotes state account delta = .ok next) : Revoted state next := by
  simp only [adjustWitnessVotes, bind_ok_iff, pure_ok_iff] at adjusted
  obtain ⟨witnesses, walked, rfl⟩ := adjusted
  refine ⟨⟨_, witnesses, _, rfl, Funded.refl _, Growing.refl _⟩, ?_⟩
  intro elected
  exact foldlM_invariant
    (fun _ (witnesses : List Witness) =>
      ∀ witness ∈ witnesses, witness.votes ≤ state.props.totalExpertTokensAmount)
    (fun _ _ _ _ bounded stepped => adjustWitnessVote_elected bounded stepped) elected walked

theorem forwardVotes_revoted {delta : Int} {remaining : Nat} {account : Account}
    {state next : State} (forwarded : forwardVotes delta remaining account state = .ok next) :
    Revoted state next := by
  induction remaining generalizing account state with
  | zero =>
    unfold forwardVotes at forwarded
    split at forwarded
    · exact adjustWitnessVotes_revoted forwarded
    · rw [pure_ok_iff] at forwarded
      exact forwarded ▸ Revoted.refl state
  | succ remaining hypothesis =>
    unfold forwardVotes at forwarded
    split at forwarded
    · exact adjustWitnessVotes_revoted forwarded
    · simp only [bind_ok_iff] at forwarded
      obtain ⟨proxy, _, rest⟩ := forwarded
      refine Revoted.trans (Revoted.of_accounts ?_) (hypothesis rest)
      exact modifyAccount_votes (fun _ => rfl) (fun _ => rfl) (fun _ => ⟨rfl, le_refl _, rfl, rfl, rfl⟩)

theorem forwardVoteArray_revoted {deltas : List Int} {remaining : Nat} {account : Account}
    {state next : State} (forwarded : forwardVoteArray deltas remaining account state = .ok next) :
    Revoted state next := by
  induction remaining generalizing account state with
  | zero =>
    unfold forwardVoteArray at forwarded
    split at forwarded
    · exact adjustWitnessVotes_revoted forwarded
    · rw [pure_ok_iff] at forwarded
      exact forwarded ▸ Revoted.refl state
  | succ remaining hypothesis =>
    unfold forwardVoteArray at forwarded
    split at forwarded
    · exact adjustWitnessVotes_revoted forwarded
    · simp only [bind_ok_iff] at forwarded
      obtain ⟨proxy, _, rest⟩ := forwarded
      refine Revoted.trans (Revoted.of_accounts ?_) (hypothesis rest)
      exact modifyAccount_votes (fun _ => rfl) (fun _ => rfl) (fun _ => ⟨rfl, le_refl _, rfl, rfl, rfl⟩)

theorem setProxy_revoted (state : State) (name proxy : Name) :
    Revoted state (setProxy state name proxy) := by
  apply Revoted.of_accounts
  exact modifyAccount_votes (fun _ => rfl) (fun _ => rfl) (fun _ => ⟨rfl, le_refl _, rfl, rfl, rfl⟩)

theorem clearWitnessVotes_revoted (state : State) (account : Account) :
    Revoted state (clearWitnessVotes state account) := by
  refine ⟨⟨_, _, _, rfl, ?_⟩, id⟩
  exact modifyAccount_votes (fun _ => rfl) (fun _ => rfl) (fun _ => ⟨rfl, le_refl _, rfl, rfl, rfl⟩)

theorem updateVotingProxy_revoted {state next : State} {account : Account}
    {proxyAccount : Option Account}
    (updated : updateVotingProxy state account proxyAccount = .ok next) : Revoted state next := by
  simp only [updateVotingProxy, bind_ok_iff] at updated
  obtain ⟨withdrawn, forwarded, updated⟩ := updated
  have first := forwardVoteArray_revoted forwarded
  cases proxyAccount with
  | none =>
    rw [pure_ok_iff] at updated
    exact updated ▸ first.trans (setProxy_revoted withdrawn account.name proxyToSelf)
  | some proxy =>
    simp only [bind_ok_iff] at updated
    obtain ⟨_, _, proxied, _, forwarded⟩ := updated
    exact ((first.trans (clearWitnessVotes_revoted withdrawn account)).trans
      (setProxy_revoted _ account.name proxy.name)).trans (forwardVoteArray_revoted forwarded)

theorem AccountWitnessProxyOperation.apply_revoted {state next : State}
    {op : AccountWitnessProxyOperation} (applied : op.apply state = .ok next) :
    Revoted state next := by
  simp only [apply, bind_ok_iff, require_ok_iff] at applied
  obtain ⟨account, _, _, _, _, _, applied⟩ := applied
  split at applied
  · exact updateVotingProxy_revoted applied
  · simp only [bind_ok_iff] at applied
    obtain ⟨proxy, _, applied⟩ := applied
    exact updateVotingProxy_revoted applied

theorem AccountWitnessVoteOperation.apply_revoted {state next : State}
    {op : AccountWitnessVoteOperation} (applied : op.apply state = .ok next) :
    Revoted state next := by
  simp only [apply, bind_ok_iff, require_ok_iff, expect_ok_iff] at applied
  obtain ⟨voter, _, _, _, _, _, witness, _, applied⟩ := applied
  have counted (change : Nat → Nat) :
      let accounts := modifyAccount state.accounts voter.name fun account =>
        { account with witnessesVotedFor := change account.witnessesVotedFor }
      Funded 0 state.accounts accounts ∧ Growing state.accounts accounts :=
    modifyAccount_votes (fun _ => rfl) (fun _ => rfl) (fun _ => ⟨rfl, le_refl _, rfl, rfl, rfl⟩)
  split at applied
  · simp only [bind_ok_iff, require_ok_iff, pure_ok_iff] at applied
    obtain ⟨_, _, witnesses, adjusted, rfl⟩ := applied
    exact ⟨⟨_, _, _, rfl, counted (· - 1)⟩, fun elected => adjustWitnessVote_elected elected adjusted⟩
  · simp only [bind_ok_iff, require_ok_iff, pure_ok_iff] at applied
    obtain ⟨_, _, _, _, witnesses, adjusted, rfl⟩ := applied
    exact ⟨⟨_, _, _, rfl, counted (· + 1)⟩, fun elected => adjustWitnessVote_elected elected adjusted⟩

theorem WitnessUpdateOperation.apply_effect {state next : State} {op : WitnessUpdateOperation}
    (applied : op.apply state = .ok next) :
    next = state ∨ ∃ witness : Witness, witness.votes = 0 ∧
      next = { state with witnesses := state.witnesses ++ [witness] } := by
  simp only [apply, bind_ok_iff, require_ok_iff] at applied
  obtain ⟨_, _, applied⟩ := applied
  split at applied
  · exact .inl (pure_ok_iff.mp applied).symm
  · rw [pure_ok_iff] at applied
    exact .inr ⟨_, rfl, applied.symm⟩

/-- The fund, the total and one account grow by the same amount. -/
theorem increaseCommonTokens_effect {state next : State} {name : Name} {amount : Int}
    (increased : increaseCommonTokens state name amount = .ok next) :
    0 ≤ amount ∧ state.props.commonTokensFund.symbol = deipSymbol ∧ ∃ accounts,
      Funded amount state.accounts accounts ∧
      next = { state with
        accounts
        props := { state.props with
          totalCommonTokensAmount := state.props.totalCommonTokensAmount + amount
          commonTokensFund := { state.props.commonTokensFund with
            amount := state.props.commonTokensFund.amount + amount } } } := by
  simp only [increaseCommonTokens, State.getAccount, Asset.add, Asset.sameSymbol, bind_ok_iff,
    require_ok_iff, expect_ok_iff, pure_ok_iff] at increased
  obtain ⟨_, positive, account, found, _, ⟨_, sameSymbol, rfl⟩, rfl⟩ := increased
  refine ⟨positive, sameSymbol, _, ?_, rfl⟩
  refine modifyAccount_funded amount found (fun _ => rfl) (fun _ => rfl) rfl ?_
  rintro ⟨common, withdrawn, rate, toWithdraw⟩
  exact ⟨by dsimp only; omega, withdrawn, rate, toWithdraw⟩

end DeipChain.Ledger
