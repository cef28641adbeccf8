import DeipChain.Ledger.Writes
import Mathlib.Data.Prod.Lex
import Mathlib.Order.Nat

/-!
# The walk over the withdrawals

The weekly withdrawals walk the accounts in the order of their next withdrawal, and an
account that has withdrawn moves behind in that order while the walk goes on. The visits of
a walk are recorded here. Each account that is due when the walk begins is visited by it,
and a visit writes the schedule of no other account.
-/
namespace DeipChain.Ledger

open DeipChain.Result DeipChain.Table

variable {percentOf : Int → Int → Int} {genesis : GenesisState} {steps : List Step}
  {state next : State}

/-! ## The order of the index -/

/-- The key of `by_next_common_tokens_withdrawal`. -/
def Account.dueKey (account : Account) : Nat ×ₗ Nat :=
  toLex (account.nextCommonTokensWithdrawal, account.id)

theorem Account.dueBefore_iff {first second : Account} :
    first.dueBefore second = true ↔ first.dueKey < second.dueKey := by
  simp [dueBefore, dueKey, Prod.Lex.toLex_lt_toLex]

theorem firstDue_eq_none {accounts : List Account} (none : firstDue accounts = none) :
    accounts = [] := by
  cases accounts with
  | nil => rfl
  | cons account rest =>
    rw [firstDue] at none
    cases found : firstDue rest with
    | none =>
      rw [found] at none
      cases none
    | some other =>
      rw [found] at none
      cases none

/-- The front of the index is the account with the least key. -/
theorem firstDue_least {accounts : List Account} {account : Account}
    (found : firstDue accounts = some account) :
    account ∈ accounts ∧ ∀ other ∈ accounts, account.dueKey ≤ other.dueKey := by
  induction accounts generalizing account with
  | nil => cases found
  | cons head rest hypothesis =>
    rw [firstDue] at found
    cases begins : firstDue rest with
    | none =>
      rw [begins, Option.some.injEq] at found
      rw [firstDue_eq_none begins, ← found]
      simp
    | some other =>
      obtain ⟨member, least⟩ := hypothesis begins
      rw [begins, Option.some.injEq] at found
      by_cases before : other.dueBefore head = true
      · rw [if_pos before] at found
        rw [← found]
        refine ⟨List.mem_cons_of_mem _ member, List.forall_mem_cons.mpr ⟨?_, least⟩⟩
        exact (Account.dueBefore_iff.mp before).le
      · rw [if_neg before] at found
        rw [← found]
        have behind : head.dueKey ≤ other.dueKey := not_lt.mp (mt Account.dueBefore_iff.mpr before)
        refine ⟨List.mem_cons_self, List.forall_mem_cons.mpr ⟨le_rfl, fun row listed => ?_⟩⟩
        exact behind.trans (least row listed)

/-! ## The numbers of the accounts -/

/-- Accounts are numbered in the order of their creation. -/
def Numbered (accounts : List Account) : Prop :=
  ∀ (place : Nat) (account : Account), accounts[place]? = some account → account.id = place

theorem Extended.numbered {written : Part → Bool} {before after : List Account}
    (extended : Extended written before after) (numbered : Numbered before) : Numbered after := by
  intro place account found
  by_cases early : place < before.length
  · have old := List.getElem?_eq_getElem early
    obtain ⟨later, reached, kept⟩ := extended.rows place _ old
    obtain rfl : later = account := Option.some.inj (reached.symm.trans found)
    exact kept.id.trans (numbered place _ old)
  · obtain ⟨name, kept⟩ := extended.fresh place account found (by omega)
    exact kept.id

theorem run_numbered (ran : run percentOf genesis steps = .ok state) : Numbered state.accounts := by
  obtain ⟨start, inited, ran⟩ := run_ok_iff.mp ran
  obtain ⟨assets, _, framed⟩ := GenesisState.init_framed inited
  have begun : Numbered start.accounts :=
    framed.2.1.numbered fun place account found => by cases found
  refine foldlM_invariant (fun _ reached => Numbered reached.accounts) ?_ begun ran
  exact fun step _ state next before applied => (Step.extended applied).numbered before

theorem Numbered.getAccountById_iff {accounts : List Account} (numbered : Numbered accounts)
    {id : Nat} {account : Account} :
    getAccountById accounts id = .ok account ↔ accounts[id]? = some account := by
  rw [getAccountById, expect_ok_iff]
  constructor
  · intro found
    obtain ⟨place, reached⟩ := List.mem_iff_getElem?.mp (List.mem_of_find?_eq_some found)
    have own : account.id = id := by simpa using List.find?_some found
    rwa [← own, numbered place account reached]
  · intro found
    rw [List.find?_eq_some_iff_getElem]
    obtain ⟨within, same⟩ := List.getElem?_eq_some_iff.mp found
    refine ⟨by simpa using numbered id account found, id, within, same, fun place earlier => ?_⟩
    have other := numbered place _ (List.getElem?_eq_getElem (by omega))
    simp only [Bool.not_eq_true', beq_eq_false_iff_ne]
    omega

/-- The row of an account after one account is rewritten. -/
theorem getElem?_modifyAccount {accounts : List Account} (named : Named accounts) {name : Name}
    {change : Account → Account} {place : Nat} {row : Account}
    (found : accounts[place]? = some row) :
    (modifyAccount accounts name change)[place]? =
      some (if row.name = name then change row else row) := by
  rw [modifyAccount, modifyFirst_eq_map named, List.getElem?_map, found, Option.map_some]

/-- The rows of accounts with one name are the same. -/
theorem Named.row_unique {accounts : List Account} (named : Named accounts) {first second : Nat}
    {row other : Account} (found : accounts[first]? = some row)
    (reached : accounts[second]? = some other) (same : row.name = other.name) : first = second := by
  have within := (List.getElem?_eq_some_iff.mp found).1
  have names (place : Nat) : (accounts.map Account.name)[place]? = accounts[place]?.map Account.name :=
    List.getElem?_map
  refine (List.getElem?_inj (by simpa using within) named).mp ?_
  rw [names, names, found, reached, Option.map_some, Option.map_some, same]

/-! ## The visits of a walk -/

/-- What the walk does at an account: the account as it finds it, what is withdrawn from it,
    and the states before and after. -/
structure Visit where
  before : State
  account : Account
  amount : Int
  after : State

/-- The visits of `walkWithdrawals`, in their order. -/
def walkVisits : Nat → State → Option Account → List Visit
  | 0, _, _ => []
  | _ + 1, _, none => []
  | fuel + 1, state, some due =>
    match getAccountById state.accounts due.id with
    | .error _ => []
    | .ok account =>
      if account.nextCommonTokensWithdrawal ≤ state.props.time then
        match withdrawalAmount account, withdrawCommonTokens state account with
        | .ok amount, .ok next => ⟨state, account, amount, next⟩ :: walkVisits fuel next
            (firstDue (state.accounts.filter fun other => account.dueBefore other))
        | _, _ => []
      else []

/-- The visits of `processCommonTokensWithdrawals`. -/
def processVisits (state : State) : List Visit :=
  walkVisits (state.accounts.length * (state.props.time + 1) + 2) state (firstDue state.accounts)

/-- A walk with its visits. -/
inductive Walk : State → Option Account → List Visit → State → Prop where
  | ended (state : State) : Walk state none [] state
  | waits {state : State} {due account : Account}
      (got : getAccountById state.accounts due.id = .ok account)
      (early : ¬ account.nextCommonTokensWithdrawal ≤ state.props.time) :
      Walk state (some due) [] state
  | visits {state middle next : State} {due account : Account} {amount : Int} {later : List Visit}
      (got : getAccountById state.accounts due.id = .ok account)
      (reached : account.nextCommonTokensWithdrawal ≤ state.props.time)
      (computed : withdrawalAmount account = .ok amount)
      (withdrew : withdrawCommonTokens state account = .ok middle)
      (rest : Walk middle (firstDue (state.accounts.filter fun other => account.dueBefore other))
        later next) :
      Walk state (some due) (⟨state, account, amount, middle⟩ :: later) next

theorem withdrawalAmount_of_withdrew {account : Account}
    (withdrew : withdrawCommonTokens state account = .ok next) :
    ∃ amount, withdrawalAmount account = .ok amount := by
  obtain ⟨amount, computed, _⟩ := bind_ok_iff.mp withdrew
  exact ⟨amount, computed⟩

theorem walk_of_ok {fuel : Nat} {due : Option Account}
    (walked : walkWithdrawals fuel state due = .ok next) :
    Walk state due (walkVisits fuel state due) next := by
  induction fuel generalizing state due with
  | zero => cases walked
  | succ fuel hypothesis =>
    cases due with
    | none =>
      obtain rfl := pure_ok_iff.mp walked
      exact .ended state
    | some due =>
      rw [walkWithdrawals] at walked
      obtain ⟨account, got, walked⟩ := bind_ok_iff.mp walked
      rw [walkVisits, got]
      by_cases reached : account.nextCommonTokensWithdrawal ≤ state.props.time
      · rw [if_pos reached] at walked
        obtain ⟨middle, withdrew, rest⟩ := bind_ok_iff.mp walked
        obtain ⟨amount, computed⟩ := withdrawalAmount_of_withdrew withdrew
        simp only [if_pos reached, computed, withdrew]
        exact .visits got reached computed withdrew (hypothesis rest)
      · rw [if_neg reached] at walked
        obtain rfl := pure_ok_iff.mp walked
        simp only [if_neg reached]
        exact .waits got reached

theorem walk_of_process (processed : processCommonTokensWithdrawals state = .ok next) :
    Walk state (firstDue state.accounts) (processVisits state) next :=
  walk_of_ok processed

/-! ## What a visit writes -/

/-- Everything but the schedules. -/
def unscheduled (part : Part) : Bool :=
  part != .schedules

theorem Account.Kept.weaken {written more : Part → Bool} {before after : Account}
    (kept : before.Kept written after)
    (weaker : ∀ part, more part = false → written part = false) : before.Kept more after where
  id := kept.id
  name := kept.name
  routes unwritten := kept.routes (weaker _ unwritten)
  common unwritten := kept.common (weaker _ unwritten)
  schedule unwritten := kept.schedule (weaker _ unwritten)

theorem Released.named {may : Name → AssetSymbol → Prop} {paid locked : Int}
    (released : Released may paid locked state next) (named : Named state.accounts) :
    Named next.accounts := by
  obtain ⟨accounts, _, _, _, rfl, funded, _⟩ := released.shape
  unfold Named
  rw [funded.names]
  exact named

/-- A visit pays and deposits, completes the withdrawal of its account, and adjusts votes. -/
theorem withdrawCommonTokens_parts (written : Part → Bool) {account : Account}
    (named : Named state.accounts) (withdrew : withdrawCommonTokens state account = .ok next) :
    ∃ amount middle, withdrawalAmount account = .ok amount ∧ Framed written state middle ∧
      Named middle.accounts ∧
      Framed written { middle with
        accounts := modifyAccount middle.accounts account.name (completeWithdrawal amount) } next := by
  rw [withdrawCommonTokens] at withdrew
  simp only [bind_ok_iff, require_ok_iff] at withdrew
  obtain ⟨amount, computed, ⟨autoState, asCommonTokens⟩, first, ⟨routed, asDeip⟩, second, _, _,
    balances, _, props, decreased, final⟩ := withdrew
  have deposited : Framed written state autoState :=
    Ends.foldlM (fun _ _ before => depositCommonTokens_framed before) (.refl state) _ first
  have after : Framed written state routed :=
    Ends.foldlM (fun _ _ before => depositDeip_framed before) deposited _ second
  obtain ⟨_, _, released, _⟩ := routes_released (fun _ _ => True) first second
  have distinct : Named routed.accounts := released.named named
  obtain rfl := decreaseFund_released decreased
  have paid : Framed written state { routed with
      balances
      props := releasedProps routed.props (amount - asDeip - asCommonTokens) } := after
  refine ⟨amount, _, computed, paid, distinct, ?_⟩
  by_cases positive : 0 < amount
  · rw [if_pos positive] at final
    exact adjustProxiedWitnessVotes_framed (.refl _) next final
  · rw [if_neg positive] at final
    obtain rfl := pure_ok_iff.mp final
    exact .refl _

/-- The rows after a visit: that of its account is completed, and the others keep their
    schedules. -/
theorem withdrawCommonTokens_row {account row : Account} {amount : Int} {place : Nat}
    (named : Named state.accounts) (computed : withdrawalAmount account = .ok amount)
    (withdrew : withdrawCommonTokens state account = .ok next)
    (found : state.accounts[place]? = some row) :
    ∃ grown later, row.Kept unscheduled grown ∧ next.accounts[place]? = some later ∧
      if row.name = account.name then (completeWithdrawal amount grown).Kept unscheduled later
      else grown.Kept unscheduled later := by
  obtain ⟨_, middle, again, first, distinct, second⟩ :=
    withdrawCommonTokens_parts unscheduled named withdrew
  obtain rfl := Except.ok.inj (again.symm.trans computed)
  obtain ⟨grown, met, kept⟩ := first.2.1.rows place row found
  obtain ⟨later, reached, stays⟩ := second.2.1.rows place _ (getElem?_modifyAccount distinct met)
  refine ⟨grown, later, kept, reached, ?_⟩
  rw [kept.name] at stays
  by_cases own : row.name = account.name
  · rwa [if_pos own] at stays ⊢
  · rwa [if_neg own] at stays ⊢

theorem withdrawCommonTokens_named {account : Account} (named : Named state.accounts)
    (found : state.accounts.find? (fun other => other.name == account.name) = some account)
    (withdrew : withdrawCommonTokens state account = .ok next) : Named next.accounts := by
  obtain ⟨_, released⟩ := withdrawCommonTokens_released (fun _ _ => True) found withdrew
  exact released.named named

/-- A visit writes what the pass does. -/
theorem withdrawCommonTokens_untouched {account : Account}
    (withdrew : withdrawCommonTokens state account = .ok next) :
    Untouched Step.processCommonTokensWithdrawals.writes state next :=
  .of_rest (withdrawCommonTokens_framed rfl (.refl state) next withdrew).1

theorem withdrawCommonTokens_extended {account : Account}
    (withdrew : withdrawCommonTokens state account = .ok next) :
    Extended Step.processCommonTokensWithdrawals.writes state.accounts next.accounts :=
  (withdrawCommonTokens_framed rfl (.refl state) next withdrew).2.1

/-- What a walk relies on. Both hold of the accounts of every chain. -/
structure Listed (accounts : List Account) : Prop where
  named : Named accounts
  numbered : Numbered accounts

theorem Listed.row {accounts : List Account} (listed : Listed accounts) {id : Nat}
    {account : Account} (got : getAccountById accounts id = .ok account) :
    accounts[id]? = some account ∧ account.id = id ∧
      accounts.find? (fun other => other.name == account.name) = some account := by
  have found := listed.numbered.getAccountById_iff.mp got
  exact ⟨found, listed.numbered id account found,
    find?_of_nodup listed.named (List.mem_of_getElem? found)⟩

theorem Listed.visited {account : Account} {id : Nat} (listed : Listed state.accounts)
    (got : getAccountById state.accounts id = .ok account)
    (withdrew : withdrawCommonTokens state account = .ok next) : Listed next.accounts := by
  obtain ⟨found, own, first⟩ := listed.row got
  exact ⟨withdrawCommonTokens_named listed.named first withdrew,
    (withdrawCommonTokens_extended withdrew).numbered listed.numbered⟩

/-- A visit leaves the time, and the keys of the other accounts. -/
theorem Listed.keeps_key {account row : Account} {id place : Nat} (listed : Listed state.accounts)
    (got : getAccountById state.accounts id = .ok account)
    (withdrew : withdrawCommonTokens state account = .ok next)
    (found : state.accounts[place]? = some row) (apart : place ≠ id) :
    ∃ later, next.accounts[place]? = some later ∧ later.name = row.name ∧
      later.dueKey = row.dueKey := by
  obtain ⟨own, same, _⟩ := listed.row got
  have other : row.name ≠ account.name := mt (listed.named.row_unique found own) apart
  obtain ⟨amount, computed⟩ := withdrawalAmount_of_withdrew withdrew
  obtain ⟨grown, later, kept, reached, stays⟩ :=
    withdrawCommonTokens_row listed.named computed withdrew found
  rw [if_neg other] at stays
  have both := kept.trans stays
  have schedule := both.schedule rfl
  simp only [Prod.mk.injEq] at schedule
  exact ⟨later, reached, both.name, congrArg toLex (Prod.ext schedule.2.1 both.id)⟩

/-- A walk visits each account that is due and not before the front.

Proof: induction on the walk. The account at the front is due as well, as its key is not
greater. If it is another one, the walk goes on to a front that is behind it and not behind
the account in question, whose keys the visit leaves. -/
theorem Walk.visits_due {due : Account} {visits : List Visit} (walk : Walk state (some due) visits next)
    (listed : Listed state.accounts)
    (front : ∃ row, state.accounts[due.id]? = some row ∧ row.dueKey = due.dueKey)
    {place : Nat} {row : Account} (found : state.accounts[place]? = some row)
    (reached : row.nextCommonTokensWithdrawal ≤ state.props.time) (behind : due.dueKey ≤ row.dueKey) :
    ∃ visit ∈ visits, visit.account.name = row.name := by
  generalize begins : some due = current at walk
  induction walk generalizing due row with
  | ended state => cases begins
  | @waits state _ account got early =>
    obtain rfl := Option.some.inj begins
    obtain ⟨first, met, same⟩ := front
    obtain rfl := Option.some.inj (met.symm.trans (listed.row got).1)
    rw [← same] at behind
    have before := (Prod.Lex.monotone_fst _ _ behind).trans reached
    exact absurd before early
  | @visits state middle next _ account amount later got met computed withdrew rest hypothesis =>
    obtain rfl := Option.some.inj begins
    by_cases own : place = due.id
    · have same := (own ▸ found).symm.trans (listed.row got).1
      exact ⟨_, List.mem_cons_self, congrArg Account.name (Option.some.inj same).symm⟩
    · obtain ⟨first, meets, same⟩ := front
      obtain rfl := Option.some.inj (meets.symm.trans (listed.row got).1)
      rw [← same] at behind
      have differs : first.dueKey ≠ row.dueKey := by
        intro equal
        have ids : first.id = row.id := congrArg (fun key => (ofLex key).2) equal
        rw [listed.numbered _ _ meets, listed.numbered _ _ found] at ids
        exact own ids.symm
      have waiting : row ∈ state.accounts.filter fun other => first.dueBefore other :=
        List.mem_filter.mpr ⟨List.mem_of_getElem? found,
          Account.dueBefore_iff.mpr (lt_of_le_of_ne behind differs)⟩
      cases follows : firstDue (state.accounts.filter fun other => first.dueBefore other) with
      | none => exact absurd (firstDue_eq_none follows ▸ waiting) List.not_mem_nil
      | some following =>
        obtain ⟨member, least⟩ := firstDue_least follows
        obtain ⟨listedAt, after⟩ := List.mem_filter.mp member
        obtain ⟨spot, at_⟩ := List.mem_iff_getElem?.mp listedAt
        obtain rfl := listed.numbered _ _ at_
        have moved : following.id ≠ due.id := by
          intro equal
          obtain rfl := Option.some.inj ((equal ▸ at_).symm.trans meets)
          exact lt_irrefl _ (Account.dueBefore_iff.mp after)
        obtain ⟨there, thereAt, _, thereKey⟩ := listed.keeps_key got withdrew at_ moved
        obtain ⟨mine, mineAt, mineName, mineKey⟩ := listed.keeps_key got withdrew found own
        obtain ⟨visit, visited, named⟩ := hypothesis (listed.visited got withdrew)
          ⟨there, thereAt, thereKey⟩ mineAt
          (by
            rw [(withdrawCommonTokens_untouched withdrew).time rfl]
            exact (congrArg (fun key => (ofLex key).1) mineKey).trans_le reached)
          (by
            rw [mineKey]
            exact least row waiting) follows.symm
        exact ⟨visit, List.mem_cons_of_mem _ visited, named.trans mineName⟩

/-- A pass visits each account that is due. -/
theorem processVisits_due (listed : Listed state.accounts)
    (processed : processCommonTokensWithdrawals state = .ok next) {account : Account}
    (member : account ∈ state.accounts)
    (reached : account.nextCommonTokensWithdrawal ≤ state.props.time) :
    ∃ visit ∈ processVisits state, visit.account.name = account.name := by
  have walk := walk_of_process processed
  obtain ⟨place, found⟩ := List.mem_iff_getElem?.mp member
  cases begins : firstDue state.accounts with
  | none => exact absurd (firstDue_eq_none begins ▸ member) List.not_mem_nil
  | some due =>
    rw [begins] at walk
    obtain ⟨listedAt, least⟩ := firstDue_least begins
    obtain ⟨spot, at_⟩ := List.mem_iff_getElem?.mp listedAt
    obtain rfl := listed.numbered _ _ at_
    exact walk.visits_due listed ⟨due, at_, rfl⟩ found reached (least account member)

end DeipChain.Ledger
