import DeipChain.Ledger.WithdrawalPayouts

/-!
# The passes over the withdrawals

What a pass does at each account that it comes to, and when it runs through. A visit fails if
the schedule asks for a negative amount, if a payment finds no balance of core tokens, or if
the votes that go with the common tokens leave the bounds of a witness.
-/
namespace DeipChain.Ledger

open DeipChain.Result DeipChain.Table

/-! ## What is due -/

namespace Account

/-- What is due from an account, if its rate is not zero where the rest is below it. -/
def due (account : Account) : Int :=
  min account.commonTokensBalance
    (if account.toWithdraw - account.withdrawn < account.commonTokensWithdrawRate then
      account.toWithdraw.tmod account.commonTokensWithdrawRate
    else account.commonTokensWithdrawRate)

/-- The schedule of an account asks for an amount that is not negative. -/
structure Payable (account : Account) : Prop where
  common : 0 ≤ account.commonTokensBalance
  last : account.toWithdraw - account.withdrawn < account.commonTokensWithdrawRate →
    account.commonTokensWithdrawRate ≠ 0 ∧
      0 ≤ account.toWithdraw.tmod account.commonTokensWithdrawRate
  rate : account.commonTokensWithdrawRate ≤ account.toWithdraw - account.withdrawn →
    0 ≤ account.commonTokensWithdrawRate

variable {account : Account} {amount : Int}

theorem eq_due (computed : withdrawalAmount account = .ok amount) : amount = account.due := by
  rw [withdrawalAmount] at computed
  rw [due]
  by_cases last : account.toWithdraw - account.withdrawn < account.commonTokensWithdrawRate
  · rw [if_pos last] at computed ⊢
    obtain ⟨_, _, computed⟩ := bind_ok_iff.mp computed
    exact (pure_ok_iff.mp computed).symm
  · rw [if_neg last] at computed ⊢
    exact (pure_ok_iff.mp computed).symm

theorem payable_iff : account.Payable ↔ withdrawalAmount account = .ok account.due ∧ 0 ≤ account.due := by
  rw [withdrawalAmount, due]
  by_cases last : account.toWithdraw - account.withdrawn < account.commonTokensWithdrawRate
  · simp only [if_pos last, bind_ok_iff, require_ok_iff, pure_ok_iff, le_min_iff]
    constructor
    · intro payable
      obtain ⟨nonzero, rest⟩ := payable.last last
      exact ⟨⟨(), nonzero, trivial⟩, payable.common, rest⟩
    · rintro ⟨⟨_, nonzero, _⟩, common, rest⟩
      exact ⟨common, fun _ => ⟨nonzero, rest⟩, fun more => absurd last (not_lt.mpr more)⟩
  · simp only [if_neg last, pure_ok_iff, le_min_iff, true_and]
    constructor
    · intro payable
      exact ⟨payable.common, payable.rate (not_lt.mp last)⟩
    · rintro ⟨common, rate⟩
      exact ⟨common, fun less => absurd less last, fun _ => rate⟩

theorem Payable.computed (payable : account.Payable) : withdrawalAmount account = .ok account.due :=
  (payable_iff.mp payable).1

end Account

/-! ## One visit -/

/-- The routes that both passes of a visit go over. -/
def Visit.routes (visit : Visit) : List WithdrawRoute :=
  routesFrom visit.before.routes visit.account.id

/-- What a visit should do. Each route gets its share, the account the rest in core tokens, and
    the fund loses what is paid in core tokens. -/
structure Visit.Settles (visit : Visit) : Prop where
  covered : 0 ≤ visit.amount ∧ visit.amount ≤ visit.account.commonTokensBalance
  split : total (WithdrawRoute.share visit.amount) visit.routes ≤ visit.amount
  accounts : Gained (fun place => total (WithdrawRoute.locks visit.amount place) visit.routes -
    if visit.account.id = place then visit.amount else 0) visit.before.accounts visit.after.accounts
  balances : Credited visit.before.accounts
    (fun place => total (WithdrawRoute.pays visit.amount place) visit.routes +
      if visit.account.id = place then
        visit.amount - total (WithdrawRoute.share visit.amount) visit.routes
      else 0) visit.before.balances visit.after.balances
  credited : total (Balance.held deipSymbol) visit.after.balances =
    total (Balance.held deipSymbol) visit.before.balances +
      (visit.amount - total (WithdrawRoute.locked visit.amount) visit.routes)
  written : ∃ accounts witnesses balances, visit.after = { visit.before with
    accounts, witnesses, balances
    props := releasedProps visit.before.props
      (visit.amount - total (WithdrawRoute.locked visit.amount) visit.routes) }

/-- What the accounts, the routes and the books of every chain provide. -/
structure Payouts (state : State) : Prop where
  sound : Sound state
  listed : Listed state.accounts
  routes : RoutesKept state

theorem run_payouts {percentOf : Int → Int → Int} {genesis : GenesisState} {steps : List Step}
    {state : State} (ran : run percentOf genesis steps = .ok state) : Payouts state :=
  ⟨run_sound ran, run_listed ran, run_routesKept ran⟩

section Visits

variable {state next : State} {account : Account} {amount : Int} {id : Nat}

theorem withdrawCommonTokens_sign (computed : withdrawalAmount account = .ok amount)
    (withdrew : withdrawCommonTokens state account = .ok next) : 0 ≤ amount := by
  simp only [withdrawCommonTokens, bind_ok_iff, require_ok_iff] at withdrew
  obtain ⟨_, again, ⟨autoState, asCommonTokens⟩, first, ⟨routed, asDeip⟩, second, _, rest, _⟩ :=
    withdrew
  obtain rfl := Except.ok.inj (again.symm.trans computed)
  obtain ⟨common, deip, _⟩ := routes_released (fun _ _ => True) first second
  dsimp only at rest
  omega

theorem total_locked_add_paid (withdrawal : Int) (routes : List WithdrawRoute) :
    total (WithdrawRoute.locked withdrawal) routes + total (WithdrawRoute.paid withdrawal) routes =
      total (WithdrawRoute.share withdrawal) routes := by
  rw [← total_add]
  exact total_congr fun route _ => route.locked_add_paid withdrawal

/-- A visit that succeeds does what it should. -/
theorem withdrawCommonTokens_settles (payouts : Payouts state)
    (got : getAccountById state.accounts id = .ok account)
    (computed : withdrawalAmount account = .ok amount)
    (withdrew : withdrawCommonTokens state account = .ok next) :
    Visit.Settles ⟨state, account, amount, next⟩ := by
  have sign := withdrawCommonTokens_sign computed withdrew
  obtain ⟨found, own, first⟩ := payouts.listed.row got
  obtain rfl := own
  obtain ⟨out, released⟩ := withdrawCommonTokens_released (fun _ _ => True) first withdrew
  obtain ⟨_, _, _, _, equal, _, moved⟩ := released.shape
  simp only [withdrawCommonTokens, bind_ok_iff, require_ok_iff] at withdrew
  obtain ⟨taken, again, _, locks, ⟨routed, asDeip⟩, pays, _, rest, balances, credits, props,
    decreased, final⟩ := withdrew
  obtain rfl : amount = taken := Except.ok.inj (computed.symm.trans again)
  obtain ⟨accounts, witnesses, rfl, gained, _⟩ := depositAll_gained sign payouts.listed locks
  have renewed := gained.listed payouts.listed
  obtain ⟨paidBalances, passed, credited⟩ := payAll_credited sign (by exact renewed) pays
  obtain ⟨rfl, rfl⟩ := Prod.mk.inj passed
  obtain rfl := decreaseFund_released decreased
  have shares := total_locked_add_paid amount (routesFrom state.routes account.id)
  obtain ⟨grown, met, _, name, _⟩ := gained.rows account.id account found
  have completes : Gained (fun place => if account.id = place then -amount else 0) accounts
      (modifyAccount accounts account.name (completeWithdrawal amount)) := by
    rw [← name]
    exact Gained.modify renewed _ met fun row => ⟨rfl, rfl, Int.sub_eq_add_neg⟩
  have paid : Credited accounts (fun place => if account.id = place then _ else 0) paidBalances balances :=
    Credited.of_credit renewed met (by rw [name]; exact credits)
  have drop : total (WithdrawRoute.paid amount) (routesFrom state.routes account.id) +
      (amount - (0 + total (WithdrawRoute.paid amount) (routesFrom state.routes account.id)) -
        (0 + total (WithdrawRoute.locked amount) (routesFrom state.routes account.id))) =
      amount - total (WithdrawRoute.locked amount) (routesFrom state.routes account.id) := by omega
  -- the votes of the withdrawal move no tokens
  obtain ⟨voted, revoted, rfl, unvoted⟩ : ∃ voted revoted, next = { state with
      accounts := voted
      witnesses := revoted
      balances
      props := releasedProps state.props
        (amount - total (WithdrawRoute.locked amount) (routesFrom state.routes account.id)) } ∧
      voted.map Account.unvoted = (modifyAccount accounts account.name
        (completeWithdrawal amount)).map Account.unvoted := by
    rw [releasedProps_add, drop] at final
    by_cases positive : 0 < amount
    · rw [if_pos positive] at final
      obtain ⟨voted, revoted, rfl, same⟩ := forwardVotes_written final
      exact ⟨voted, revoted, rfl, same⟩
    · rw [if_neg positive] at final
      exact ⟨_, _, (pure_ok_iff.mp final).symm, rfl⟩
  refine ⟨⟨sign, withdrawalAmount_le computed⟩, ?_, ?_, ?_, ?_, _, _, _, rfl⟩
  · dsimp only [Visit.routes] at rest ⊢
    omega
  · refine ((gained.trans completes).trans (.of_unvoted unvoted)).congr fun place => ?_
    dsimp only [Visit.routes]
    split <;> omega
  · refine ((credited.trans paid).renamed gained).congr fun place => ?_
    dsimp only [Visit.routes]
    split <;> omega
  · -- the books agree on what has left the fund
    have same := congrArg (fun state => state.props.totalCommonTokensAmount) equal
    have held := moved.held deipSymbol
    have balanced := congrArg State.balances equal
    simp only [releasedProps] at same balanced
    rw [Asset.under, if_pos rfl, ← balanced] at held
    dsimp only [Visit.routes] at held ⊢
    omega

/-- What a visit asks of the state that it begins in. Nothing negative is due, the owner and the
    accounts that routes pay have a balance of core tokens, and the votes of no witness leave
    their bounds. -/
structure VisitFits (state : State) (account : Account) : Prop where
  payable : account.Payable
  owned : accountBalanceExists state.balances account.name deipSymbol = true
  lands : ∀ route ∈ routesFrom state.routes account.id, route.Lands account.due state
  votes : ∃ ballots, visitBallots state account account.due = .ok ballots ∧
    ∀ earlier ballot later, ballots = earlier ++ ballot :: later →
      Admits state.props.totalExpertTokensAmount state.witnesses earlier ballot

theorem Payouts.targets (payouts : Payouts state) (from_ : Nat) :
    ∀ route ∈ routesFrom state.routes from_, ∃ target,
      getAccountById state.accounts route.toAccount = .ok target := by
  intro route walked
  have listed := List.mem_of_mem_filter ((routesFrom_perm _ _).mem_iff.mp walked)
  have within := (payouts.routes.known route listed).2
  exact ⟨_, payouts.listed.numbered.getAccountById_iff.mpr (List.getElem?_eq_getElem within)⟩

theorem Payouts.shares (payouts : Payouts state) (from_ : Nat) (sign : 0 ≤ amount) :
    total (WithdrawRoute.share amount) (routesFrom state.routes from_) ≤ amount := by
  refine total_share_le sign ?_
  rw [routesFrom_sum]
  exact payouts.routes.whole from_

theorem Gained.targets {gains : Nat → Int} {before after : List Account} (gained : Gained gains before after)
    (listed : Listed before) {routes : List WithdrawRoute}
    (targets : ∀ route ∈ routes, ∃ target, getAccountById before route.toAccount = .ok target) :
    ∀ route ∈ routes, ∃ target, getAccountById after route.toAccount = .ok target := by
  intro route walked
  obtain ⟨target, got⟩ := targets route walked
  obtain ⟨later, reached, _⟩ := gained.rows _ _ (listed.row got).1
  exact ⟨later, (gained.listed listed).numbered.getAccountById_iff.mpr reached⟩

theorem completed_voices (accounts : List Account) (name : Name) (amount : Int) :
    (modifyAccount accounts name (completeWithdrawal amount)).map Account.voice =
      accounts.map Account.voice :=
  map_modifyFirst fun _ => rfl

/-- A visit runs through exactly if it fits the state that it begins in. -/
theorem withdrawCommonTokens_ok_iff (payouts : Payouts state)
    (got : getAccountById state.accounts id = .ok account) :
    (∃ next, withdrawCommonTokens state account = .ok next) ↔ VisitFits state account := by
  obtain ⟨found, own, _⟩ := payouts.listed.row got
  obtain rfl := own
  have targets := payouts.targets account.id
  constructor
  · rintro ⟨next, withdrew⟩
    obtain ⟨amount, computed⟩ := withdrawalAmount_of_withdrew withdrew
    have sign := withdrawCommonTokens_sign computed withdrew
    obtain rfl := Account.eq_due computed
    simp only [withdrawCommonTokens, bind_ok_iff, require_ok_iff] at withdrew
    obtain ⟨taken, again, _, locks, ⟨routed, asDeip⟩, pays, _, rest, balances, credits, props,
      decreased, final⟩ := withdrew
    obtain rfl : taken = account.due := Except.ok.inj (again.symm.trans computed)
    obtain ⟨cast, casts, alike⟩ := (depositAll_ok_iff sign 0).1 _ locks
    obtain ⟨accounts, witnesses, rfl, gained, voices⟩ := depositAll_gained sign payouts.listed locks
    have renewed := gained.listed payouts.listed
    have lands := (payAll_ok_iff sign (by exact renewed) (by exact payouts.sound.fund)
      (by exact gained.targets payouts.listed targets) 0).mp ⟨_, pays⟩
    obtain ⟨paidBalances, passed, credited⟩ := payAll_credited sign (by exact renewed) pays
    obtain ⟨rfl, rfl⟩ := Prod.mk.inj passed
    obtain rfl := decreaseFund_released decreased
    refine ⟨Account.payable_iff.mpr ⟨computed, sign⟩, ?_, fun route walked => ?_, castVisit_ok_iff.mp ?_⟩
    · rw [← credited.known]
      exact creditAccountBalance_known credits
    · exact (WithdrawRoute.lands_congr payouts.listed gained).mp (lands route walked)
    · refine exists_bind casts ?_
      by_cases positive : 0 < account.due
      · rw [if_pos positive] at final ⊢
        have origin : Alike { state with witnesses := cast.witnesses } cast :=
          ⟨voices.symm.trans alike.voices, rfl, alike.votes, alike.experts⟩
        obtain ⟨other, there, same⟩ := origin.getAccountById got
        obtain ⟨after, forwards, _⟩ : ∃ after, forwardVotes (-account.due) maxProxyRecursionDepth
            other cast = .ok after ∧ Alike next after := by
          refine forwardVotes_alike ?_ same final
          exact ⟨(completed_voices _ _ _).trans alike.voices, alike.witnesses, alike.votes,
            alike.experts⟩
        exact exists_bind there ⟨after, forwards⟩
      · rw [if_neg positive]
        exact ⟨cast, rfl⟩
  · intro fits
    obtain ⟨computed, sign⟩ := Account.payable_iff.mp fits.payable
    obtain ⟨voted, votes⟩ := castVisit_ok_iff.mpr fits.votes
    obtain ⟨cast, casts, votes⟩ := bind_ok_iff.mp votes
    obtain ⟨passed, locks, alike⟩ := (depositAll_ok_iff sign 0).2 cast casts
    obtain ⟨accounts, witnesses, rfl, gained, voices⟩ := depositAll_gained sign payouts.listed locks
    have renewed := gained.listed payouts.listed
    obtain ⟨paid, pays⟩ := (payAll_ok_iff sign (by exact renewed) (by exact payouts.sound.fund)
      (by exact gained.targets payouts.listed targets) 0).mpr fun route walked =>
        (WithdrawRoute.lands_congr payouts.listed gained).mpr (fits.lands route walked)
    obtain ⟨balances, rfl, credited⟩ := payAll_credited sign (by exact renewed) pays
    have shares := total_locked_add_paid account.due (routesFrom state.routes account.id)
    have covered := payouts.shares account.id sign
    refine exists_bind computed (exists_bind locks (exists_bind pays ?_))
    refine exists_bind (require_ok_iff.mpr ?_ : require _ _ = .ok ()) ?_
    · omega
    · -- what the routes leave is for the owner
      generalize account.due - (0 + total (WithdrawRoute.paid account.due) _) - _ = converted
      obtain ⟨after, credits⟩ : ∃ after, creditAccountBalance balances account.name
          ⟨converted, deipSymbol⟩ = .ok after :=
        creditAccountBalance_succeeds ((credited.known _ _).trans fits.owned)
      obtain ⟨props, decreased, experts⟩ : ∃ props,
          decreaseFund (releasedProps state.props (total (WithdrawRoute.paid account.due)
            (routesFrom state.routes account.id))) converted = .ok props ∧
          props.totalExpertTokensAmount = state.props.totalExpertTokensAmount :=
        ⟨_, decreaseFund_succeeds (by exact payouts.sound.fund) _, rfl⟩
      refine exists_bind credits (exists_bind decreased ?_)
      by_cases positive : 0 < account.due
      · rw [if_pos positive] at votes ⊢
        obtain ⟨other, there, follows⟩ := bind_ok_iff.mp votes
        have origin : Alike cast { state with witnesses := cast.witnesses } :=
          ⟨alike.voices.symm.trans voices, rfl, alike.votes.symm, alike.experts.symm⟩
        obtain ⟨same, met, voice⟩ := origin.getAccountById there
        obtain rfl : same = account := Except.ok.inj (met.symm.trans got)
        obtain ⟨next, forwards, _⟩ : ∃ next, forwardVotes (-same.due) maxProxyRecursionDepth same
            { state with
              accounts := modifyAccount accounts same.name (completeWithdrawal same.due)
              witnesses
              balances := after
              props } = .ok next ∧ Alike voted next := by
          refine forwardVotes_alike ?_ voice follows
          exact ⟨alike.voices.symm.trans (completed_voices _ _ _).symm, alike.witnesses.symm,
            alike.votes.symm, alike.experts.symm.trans experts.symm⟩
        exact ⟨next, forwards⟩
      · rw [if_neg positive]
        exact ⟨_, rfl⟩

end Visits

end DeipChain.Ledger
