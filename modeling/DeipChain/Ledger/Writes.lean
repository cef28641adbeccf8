import DeipChain.Ledger.Runs

/-!
# What the steps write

Most operations write a few tables of the ledger, and the rest of the state is after them
what it was before. `State.rest` is the state without the parts that may be written, so a
step leaves it alone. Accounts are written nearly everywhere, but they keep their identities,
and only a few steps write the schedules and the routes of their withdrawals. Research
groups stay as they are created.
-/
namespace DeipChain.Ledger

open DeipChain.Result DeipChain.Table

/-- The parts of the state that few steps write. -/
inductive Part where
  | time
  | assets
  | vestings
  | sales
  | opportunities
  | awards
  | recipients
  | routes
  | schedules
deriving DecidableEq

/-- Those parts that are tables of their own, and the time. -/
structure Rest where
  time : Time
  assets : List AssetObject
  vestings : List VestingBalance
  sales : List TokenSale
  opportunities : List FundingOpportunity
  awards : List Award
  recipients : List AwardRecipient
  routes : List WithdrawRoute

/-- The parts of a state that are not written. -/
def State.rest (written : Part → Bool) (state : State) : Rest where
  time := bif written .time then 0 else state.props.time
  assets := bif written .assets then [] else state.assets
  vestings := bif written .vestings then [] else state.vestings
  sales := bif written .sales then [] else state.sales
  opportunities := bif written .opportunities then [] else state.opportunities
  awards := bif written .awards then [] else state.awards
  recipients := bif written .recipients then [] else state.recipients
  routes := bif written .routes then [] else state.routes

/-- The parts that an operation writes. -/
def Operation.writes : Operation → Part → Bool
  | withdrawCommonTokens _, .schedules => true
  | setWithdrawCommonTokensRoute _, .routes => true
  | createResearchTokenSale _, .sales | contributeToTokenSale _, .sales => true
  | createVestingBalance _, .vestings | withdrawVestingBalance _, .vestings => true
  | createGrant _, .opportunities => true
  | createAsset _, .assets | issueAsset _, .assets | reserveAsset _, .assets => true
  | createAward _, .awards | createAward _, .recipients => true
  | approveAward _, .opportunities | approveAward _, .awards | approveAward _, .recipients => true
  | rejectAward _, .awards | rejectAward _, .recipients => true
  | payAwardWithdrawalRequest _, .assets | payAwardWithdrawalRequest _, .recipients => true
  | _, _ => false

/-- The parts that a step writes. -/
def Step.writes : Step → Part → Bool
  | operation op, part => op.writes part
  | update _ _, .time => true
  | processResearchTokenSales, .sales => true
  | processCommonTokensWithdrawals, .schedules => true
  | _, _ => false

/-! ## Accounts -/

/-- An account after some steps. It loses common tokens only where schedules are written. -/
structure Account.Kept (written : Part → Bool) (before after : Account) : Prop where
  id : after.id = before.id
  name : after.name = before.name
  routes : written .routes = false → after.withdrawRoutes = before.withdrawRoutes
  common : written .schedules = false → before.commonTokensBalance ≤ after.commonTokensBalance
  schedule : written .schedules = false →
    (after.commonTokensWithdrawRate, after.nextCommonTokensWithdrawal, after.withdrawn,
      after.toWithdraw) =
    (before.commonTokensWithdrawRate, before.nextCommonTokensWithdrawal, before.withdrawn,
      before.toWithdraw)

namespace Account.Kept

variable {written : Part → Bool} {before middle after : Account}

theorem refl (account : Account) : account.Kept written account :=
  ⟨rfl, rfl, fun _ => rfl, fun _ => le_refl _, fun _ => rfl⟩

theorem trans (first : before.Kept written middle) (second : middle.Kept written after) :
    before.Kept written after where
  id := second.id.trans first.id
  name := second.name.trans first.name
  routes unwritten := (second.routes unwritten).trans (first.routes unwritten)
  common unwritten := (first.common unwritten).trans (second.common unwritten)
  schedule unwritten := (second.schedule unwritten).trans (first.schedule unwritten)

end Account.Kept

/-- What is kept of an account. -/
def Account.terms (account : Account) : Nat × Name × Nat × Int × Int × Time × Int × Int :=
  (account.id, account.name, account.withdrawRoutes, account.commonTokensBalance,
    account.commonTokensWithdrawRate, account.nextCommonTokensWithdrawal, account.withdrawn,
    account.toWithdraw)

theorem Account.Kept.of_terms {written : Part → Bool} {before after : Account}
    (same : after.terms = before.terms) : before.Kept written after := by
  simp only [terms, Prod.mk.injEq] at same
  obtain ⟨id, name, routes, common, rate, next, withdrawn, toWithdraw⟩ := same
  refine ⟨id, name, fun _ => routes, fun _ => common.ge, fun _ => ?_⟩
  rw [rate, next, withdrawn, toWithdraw]

/-- Where schedules are written, identities and routes are kept. -/
theorem Account.Kept.scheduled {written : Part → Bool} {before after : Account}
    (schedules : written .schedules = true)
    (same : (after.id, after.name, after.withdrawRoutes) =
      (before.id, before.name, before.withdrawRoutes)) : before.Kept written after := by
  simp only [Prod.mk.injEq] at same
  refine ⟨same.1, same.2.1, fun _ => same.2.2, fun unwritten => ?_, fun unwritten => ?_⟩
  · cases unwritten.symm.trans schedules
  · cases unwritten.symm.trans schedules

/-- The accounts after some steps: the old ones in their places, and new ones behind them. -/
structure Extended (written : Part → Bool) (before after : List Account) : Prop where
  rows : ∀ (place : Nat) (account : Account), before[place]? = some account →
    ∃ later, after[place]? = some later ∧ account.Kept written later
  fresh : ∀ (place : Nat) (account : Account), after[place]? = some account →
    before.length ≤ place → ∃ name, (freshAccount place name).Kept written account

namespace Extended

variable {written : Part → Bool} {before middle after : List Account}

theorem refl (accounts : List Account) : Extended written accounts accounts where
  rows _ account found := ⟨account, found, .refl account⟩
  fresh _ _ found behind := by
    have within := (List.getElem?_eq_some_iff.mp found).1
    omega

theorem length_le (extended : Extended written before after) : before.length ≤ after.length := by
  by_contra shorter
  obtain ⟨later, found, _⟩ := extended.rows after.length before[after.length]
    (List.getElem?_eq_getElem (by omega))
  have within := (List.getElem?_eq_some_iff.mp found).1
  omega

theorem trans (first : Extended written before middle) (second : Extended written middle after) :
    Extended written before after where
  rows place account found := by
    obtain ⟨between, met, kept⟩ := first.rows place account found
    obtain ⟨later, reached, stays⟩ := second.rows place between met
    exact ⟨later, reached, kept.trans stays⟩
  fresh place account found behind := by
    by_cases early : place < middle.length
    · obtain ⟨name, begun⟩ := first.fresh place _ (List.getElem?_eq_getElem early) behind
      obtain ⟨later, reached, kept⟩ := second.rows place _ (List.getElem?_eq_getElem early)
      have same : later = account := Option.some.inj (reached.symm.trans found)
      exact ⟨name, begun.trans (same ▸ kept)⟩
    · exact second.fresh place account found (by omega)

/-- Rewriting one account. -/
theorem modify {name : Name} {change : Account → Account}
    (kept : ∀ row, Account.Kept written row (change row)) (accounts : List Account) :
    Extended written accounts (modifyAccount accounts name change) := by
  have rows : List.Forall₂ (Account.Kept written) accounts (modifyAccount accounts name change) :=
    forall₂_modifyFirst Account.Kept.refl kept accounts
  have same := List.forall₂_iff_get.mp rows
  constructor
  · intro place account found
    obtain ⟨within, rfl⟩ := List.getElem?_eq_some_iff.mp found
    exact ⟨_, List.getElem?_eq_getElem (same.1 ▸ within), same.2 place within (same.1 ▸ within)⟩
  · intro place account found behind
    have within := (List.getElem?_eq_some_iff.mp found).1
    rw [← same.1] at within
    omega

/-- A new account. -/
theorem append (accounts : List Account) {account : Account} {name : Name}
    (begun : (freshAccount accounts.length name).Kept written account) :
    Extended written accounts (accounts ++ [account]) := by
  constructor
  · intro place row found
    have within := (List.getElem?_eq_some_iff.mp found).1
    exact ⟨row, by rw [List.getElem?_append_left within, found], .refl row⟩
  · intro place row found behind
    have within := (List.getElem?_eq_some_iff.mp found).1
    rw [List.length_append, List.length_singleton] at within
    obtain rfl : place = accounts.length := by omega
    rw [List.getElem?_concat_length] at found
    exact ⟨name, Option.some.inj found ▸ begun⟩

end Extended

/-- The states that differ from a given one only in what is written. Research groups are
    added, and never written again. -/
def Framed (written : Part → Bool) (base state : State) : Prop :=
  state.rest written = base.rest written ∧ Extended written base.accounts state.accounts ∧
    base.groups <+: state.groups

namespace Framed

variable {written : Part → Bool} {base state : State}

theorem refl (state : State) : Framed written state state :=
  ⟨rfl, .refl _, List.prefix_refl _⟩

theorem modify (before : Framed written base state) (name : Name) {change : Account → Account}
    (kept : ∀ row, Account.Kept written row (change row)) :
    Framed written base
      { state with accounts := modifyAccount state.accounts name change } :=
  ⟨before.1, before.2.1.trans (.modify kept state.accounts), before.2.2⟩

/-- Votes and expertise of an account are no part of what is kept. -/
theorem revote (before : Framed written base state) {name : Name} {change : Account → Account}
    (same : ∀ row, (change row).terms = row.terms) :
    Framed written base
      { state with accounts := modifyAccount state.accounts name change } :=
  before.modify name fun row => .of_terms (same row)

end Framed

/-- What is not written is the same after a step. -/
structure Untouched (written : Part → Bool) (state next : State) : Prop where
  time : written .time = false → next.props.time = state.props.time
  assets : written .assets = false → next.assets = state.assets
  vestings : written .vestings = false → next.vestings = state.vestings
  sales : written .sales = false → next.sales = state.sales
  opportunities : written .opportunities = false → next.opportunities = state.opportunities
  awards : written .awards = false → next.awards = state.awards
  recipients : written .recipients = false → next.recipients = state.recipients
  routes : written .routes = false → next.routes = state.routes

theorem Untouched.of_rest {written : Part → Bool} {state next : State}
    (same : next.rest written = state.rest written) : Untouched written state next := by
  simp only [State.rest, Rest.mk.injEq] at same
  obtain ⟨time, assets, vestings, sales, opportunities, awards, recipients, routes⟩ := same
  constructor
  · intro unwritten
    simpa [unwritten] using time
  · intro unwritten
    simpa [unwritten] using assets
  · intro unwritten
    simpa [unwritten] using vestings
  · intro unwritten
    simpa [unwritten] using sales
  · intro unwritten
    simpa [unwritten] using opportunities
  · intro unwritten
    simpa [unwritten] using awards
  · intro unwritten
    simpa [unwritten] using recipients
  · intro unwritten
    simpa [unwritten] using routes

/-! ## The parts that helpers leave alone -/

section Rest

variable {written : Part → Bool} {base state : State}

theorem increaseCommonTokens_framed {name : Name} {amount : Int} (before : Framed written base state) :
    Ends (Framed written base) (increaseCommonTokens state name amount) := by
  rw [increaseCommonTokens]
  refine .bind fun _ sign => .bind fun _ _ => .bind fun _ _ => .pure ?_
  have positive := require_ok_iff.mp sign
  exact before.modify name fun row =>
    ⟨rfl, rfl, fun _ => rfl, fun _ => by dsimp only; omega, fun _ => rfl⟩

theorem adjustWitnessVotes_framed {account : Account} {delta : Int} (before : Framed written base state) :
    Ends (Framed written base) (adjustWitnessVotes state account delta) := by
  rw [adjustWitnessVotes]
  exact .bind fun _ _ => .pure before

theorem forwardVotes_framed {delta : Int} {remaining : Nat} {account : Account}
    (before : Framed written base state) :
    Ends (Framed written base) (forwardVotes delta remaining account state) := by
  induction remaining generalizing account state with
  | zero =>
    rw [forwardVotes]
    exact .ite (fun _ => adjustWitnessVotes_framed before) fun _ => .pure before
  | succ remaining hypothesis =>
    rw [forwardVotes]
    refine .ite (fun _ => adjustWitnessVotes_framed before) fun _ => .bind fun _ _ => hypothesis ?_
    exact before.revote fun _ => rfl

theorem adjustProxiedWitnessVotes_framed {account : Account} {delta : Int}
    (before : Framed written base state) :
    Ends (Framed written base) (adjustProxiedWitnessVotes state account delta) :=
  forwardVotes_framed before

theorem forwardVoteArray_framed {deltas : List Int} {remaining : Nat} {account : Account}
    (before : Framed written base state) :
    Ends (Framed written base) (forwardVoteArray deltas remaining account state) := by
  induction remaining generalizing account state with
  | zero =>
    rw [forwardVoteArray]
    exact .ite (fun _ => adjustWitnessVotes_framed before) fun _ => .pure before
  | succ remaining hypothesis =>
    rw [forwardVoteArray]
    refine .ite (fun _ => adjustWitnessVotes_framed before) fun _ => .bind fun _ _ => hypothesis ?_
    exact before.revote fun _ => rfl

theorem setProxy_framed {name proxy : Name} (before : Framed written base state) :
    Framed written base (setProxy state name proxy) :=
  before.revote fun _ => rfl

theorem updateVotingProxy_framed {account : Account} {proxy : Option Account}
    (before : Framed written base state) :
    Ends (Framed written base) (updateVotingProxy state account proxy) := by
  rw [updateVotingProxy]
  refine .bind fun withdrawn ran => ?_
  have first := forwardVoteArray_framed before withdrawn ran
  cases proxy with
  | none => exact .pure (setProxy_framed first)
  | some proxy =>
    refine .bind fun _ _ => .bind fun _ _ => forwardVoteArray_framed (setProxy_framed ?_)
    exact first.revote fun _ => rfl

theorem addExpertToken_framed {name : Name} {discipline : Nat} {amount : Int}
    (before : Framed written base state) :
    Ends (Framed written base) (addExpertToken state name discipline amount) := by
  rw [addExpertToken]
  exact .bind fun _ _ => .pure (before.revote fun _ => rfl)

theorem createExpertTokens_framed {name : Name} {amount : Int} {levels discipline : Nat}
    (before : Framed written base state) :
    Ends (Framed written base) (createExpertTokens name amount levels state discipline) := by
  induction levels generalizing state discipline with
  | zero =>
    rw [createExpertTokens]
    exact .throw
  | succ levels hypothesis =>
    rw [createExpertTokens]
    refine .bind fun _ _ => .bind fun _ _ => .bind fun _ _ => .bind fun created ran => ?_
    have added := addExpertToken_framed before created ran
    exact .ite (fun _ => hypothesis added) fun _ => .pure added

theorem giveExpertise_framed {op : CreateAccountOperation} (before : Framed written base state) :
    Ends (Framed written base) (op.giveExpertise state) := by
  rw [CreateAccountOperation.giveExpertise]
  refine .ite (fun _ => .foldlM (fun _ _ before => createExpertTokens_framed before) before) fun _ => ?_
  exact .pure before

theorem payCreationFee_framed {creator : Name} {fee : Asset} (before : Framed written base state) :
    Ends (Framed written base) (payCreationFee state creator fee) := by
  rw [payCreationFee]
  exact .ite (fun _ => .bind fun _ _ => .pure before) fun _ => .pure before

theorem createAccountByFaucets_framed {name creator : Name} {fee : Asset} {isUserAccount : Bool}
    (before : Framed written base state) :
    Ends (Framed written base) (createAccountByFaucets state name creator fee isUserAccount) := by
  rw [createAccountByFaucets]
  refine .bind fun _ _ => .bind fun _ _ => .bind fun paid pays => .bind fun created creates =>
    .bind fun funded funds => .bind fun grouped groups => ?_
  have afterFee := payCreationFee_framed before paid pays
  have afterAccount : Framed written base created := by
    obtain ⟨_, _, wrote⟩ := bind_ok_iff.mp creates
    obtain rfl := pure_ok_iff.mp wrote
    exact ⟨afterFee.1, afterFee.2.1.trans (.append paid.accounts (.refl _)), afterFee.2.2⟩
  have afterFunds := increaseCommonTokens_framed afterAccount funded funds
  have afterGroup : Framed written base grouped := by
    obtain ⟨_, _, wrote⟩ := bind_ok_iff.mp groups
    obtain rfl := pure_ok_iff.mp wrote
    exact ⟨afterFunds.1, afterFunds.2.1, afterFunds.2.2.trans (List.prefix_append _ _)⟩
  rw [addDefaultBalances]
  exact .bind fun _ _ => .pure afterGroup

theorem CreateAccountOperation.apply_framed {op : CreateAccountOperation}
    (before : Framed written base state) : Ends (Framed written base) (op.apply state) := by
  rw [apply]
  refine .bind fun _ _ => .bind fun _ _ => .bind fun _ _ => .bind fun created ran => ?_
  exact giveExpertise_framed (createAccountByFaucets_framed before created ran)

theorem updateRoute_framed {op : SetWithdrawCommonTokensRouteOperation}
    {fromAccount toAccount : Account} (routes : written .routes = true) :
    Ends (Framed written state) (op.updateRoute state fromAccount toAccount) := by
  have rewritten (routes' : List WithdrawRoute) :
      State.rest written { state with routes := routes' } = state.rest written := by
    simp only [State.rest, routes, cond_true]
  have recounted (change : Nat → Nat) : Extended written state.accounts
      (modifyAccount state.accounts fromAccount.name fun account =>
        { account with withdrawRoutes := change account.withdrawRoutes }) := by
    have kept (row : Account) :
        row.Kept written { row with withdrawRoutes := change row.withdrawRoutes } := by
      refine ⟨rfl, rfl, fun unwritten => ?_, fun _ => le_refl _, fun _ => rfl⟩
      cases unwritten.symm.trans routes
    exact .modify kept state.accounts
  rw [SetWithdrawCommonTokensRouteOperation.updateRoute]
  refine .ite (fun _ => .ite (fun _ => ?_) fun _ => ?_) fun _ => .bind fun _ _ => .bind fun _ _ => ?_
  · exact .pure ⟨rewritten _, recounted (· - 1), List.prefix_refl _⟩
  · exact .pure ⟨rewritten _, .refl _, List.prefix_refl _⟩
  · exact .pure ⟨rewritten _, recounted (· + 1), List.prefix_refl _⟩

theorem createFundingOpportunity_framed {opportunity : FundingOpportunity}
    (opportunities : written .opportunities = true) :
    Ends (Framed written state) (createFundingOpportunity state opportunity) := by
  rw [createFundingOpportunity]
  refine .bind fun _ _ => .bind fun _ _ => .pure ⟨?_, .refl _, List.prefix_refl _⟩
  simp only [State.rest, opportunities, cond_true]

theorem CreateGrantOperation.apply_framed {op : CreateGrantOperation}
    (opportunities : written .opportunities = true) :
    Ends (Framed written state) (op.apply state) := by
  rw [apply]
  iterate 7 refine .bind fun _ _ => ?_
  cases op.distributionModel with
  | announcedApplicationWindow contract =>
    simp only [openWindow]
    exact .bind fun _ _ => .bind fun _ _ => .bind fun _ _ =>
      createFundingOpportunity_framed opportunities
  | fundingOpportunityAnnouncement contract =>
    simp only [announce]
    iterate 8 refine .bind fun _ _ => ?_
    exact createFundingOpportunity_framed opportunities
  | disciplineSupplyAnnouncement contract =>
    simp only [supply, createDisciplineSupply]
    iterate 5 refine .bind fun _ _ => ?_
    exact .pure (.refl state)

theorem payLicenseFee_framed {research : Research} {licensee : Name} {fee : Asset}
    (before : Framed written base state) :
    Ends (Framed written base) (payLicenseFee state research licensee fee) := by
  rw [payLicenseFee]
  iterate 8 refine .bind fun _ _ => ?_
  exact .pure before

theorem supplyResearchesInDiscipline_framed {discipline : Nat} {grant : Int}
    (before : Framed written base state) :
    Ends (fun progress : State × Int => Framed written base progress.1)
      (supplyResearchesInDiscipline state discipline grant) := by
  rw [supplyResearchesInDiscipline]
  exact .bind fun _ _ => .bind fun _ _ => .pure before

theorem processDisciplineSupply_framed {id : Nat} (before : Framed written base state) :
    Ends (Framed written base) (processDisciplineSupply state id) := by
  rw [processDisciplineSupply]
  refine .bind fun supply _ => .bind fun supplied ran => ?_
  have after := supplyResearchesInDiscipline_framed before _ ran
  refine .ite (fun _ => .ite (fun _ => .pure after) fun _ => .pure after) fun _ => ?_
  exact .bind fun _ _ => .pure after

theorem returnRemainder_framed {grantor : Name} {rest : Asset} (before : Framed written base state) :
    Ends (Framed written base) (returnRemainder state grantor rest) := by
  rw [returnRemainder]
  exact .ite (fun _ => .bind fun _ _ => .bind fun _ _ => .pure before) fun _ => .pure before

theorem clearExpiredDisciplineSupply_framed {id : Nat} (before : Framed written base state) :
    Ends (Framed written base) (clearExpiredDisciplineSupply state id) := by
  rw [clearExpiredDisciplineSupply]
  refine .bind fun supply _ => .ite (fun _ => ?_) fun _ => .pure before
  refine .bind fun supplied ran => .bind fun rest _ => .bind fun returned returns => ?_
  have after := supplyResearchesInDiscipline_framed before _ ran
  exact .pure (returnRemainder_framed after returned returns)

theorem applyAdjustment_framed {adjustment : Name × Nat × Int} (before : Framed written base state) :
    Ends (Framed written base) (applyAdjustment state adjustment) := by
  rw [applyAdjustment, adjustExpertToken]
  refine .bind fun _ _ => .ite (fun _ => ?_) fun _ => createExpertTokens_framed before
  exact .pure (before.revote fun _ => rfl)

theorem processFunds_framed (before : Framed written base state) :
    Ends (Framed written base) (processFunds state) := by
  rw [processFunds]
  refine .bind fun witness _ => .bind fun rewarded ran => .bind fun _ _ => ?_
  obtain ⟨adjustments, _, adjusted, adjusts, wrote⟩ := by
    simpa only [distributeReward, bind_ok_iff] using ran
  have after : Framed written base adjusted :=
    Ends.foldlM (fun _ _ before => applyAdjustment_framed before) before adjusted adjusts
  exact increaseCommonTokens_framed (pure_ok_iff.mp wrote ▸ after)

theorem finishResearchTokenSale_framed {percentOf : Int → Int → Int} {id : Nat}
    (before : Framed written base state) :
    Ends (Framed written base) (finishResearchTokenSale percentOf state id) := by
  rw [finishResearchTokenSale]
  iterate 6 refine .bind fun _ _ => ?_
  exact .pure before

theorem refundResearchTokenSale_framed {id : Nat} (before : Framed written base state) :
    Ends (Framed written base) (refundResearchTokenSale state id) := by
  rw [refundResearchTokenSale]
  iterate 4 refine .bind fun _ _ => ?_
  exact .pure before

/-- A round of the pass over the sales writes a status, and the sale that ends is paid. -/
theorem processResearchTokenSale_framed {percentOf : Int → Int → Int} {id : Nat}
    (sales : written .sales = true) (before : Framed written base state) :
    Ends (Framed written base) (processResearchTokenSale percentOf state id) := by
  have rewritten (sales' : List TokenSale) :
      Framed written base { state with sales := sales' } := by
    refine ⟨?_, before.2⟩
    rw [← before.1]
    simp only [State.rest, sales, cond_true]
  rw [processResearchTokenSale]
  refine .bind fun sale _ => .ite (fun _ => ?_) fun _ => .ite (fun _ => ?_) fun _ => .pure before
  · refine .bind fun missed _ => .ite (fun _ => ?_) fun _ => ?_
    · exact refundResearchTokenSale_framed (rewritten _)
    · exact finishResearchTokenSale_framed (rewritten _)
  · exact .pure (rewritten _)

theorem depositCommonTokens_framed {withdrawal : Int} {progress : State × Int}
    {route : WithdrawRoute} (before : Framed written base progress.1) :
    Ends (fun progress : State × Int => Framed written base progress.1)
      (depositCommonTokens withdrawal progress route) := by
  rw [depositCommonTokens]
  refine .ite (fun _ => .bind fun _ _ => .ite (fun positive => ?_) fun _ => .pure before)
    fun _ => .pure before
  refine .bind fun toAccount _ => .bind fun voted votes => .pure ?_
  refine adjustProxiedWitnessVotes_framed (before.modify _ fun row => ?_) voted votes
  exact ⟨rfl, rfl, fun _ => rfl, fun _ => by dsimp only; omega, fun _ => rfl⟩

theorem depositDeip_framed {withdrawal : Int} {progress : State × Int} {route : WithdrawRoute}
    (before : Framed written base progress.1) :
    Ends (fun progress : State × Int => Framed written base progress.1)
      (depositDeip withdrawal progress route) := by
  rw [depositDeip]
  refine .ite (fun _ => .pure before) fun _ => .bind fun _ _ => .bind fun _ _ =>
    .ite (fun _ => ?_) fun _ => .pure before
  refine .bind fun _ _ => .bind fun props wrote => .pure ?_
  obtain ⟨_, _, rfl⟩ := by simpa only [decreaseFund, bind_ok_iff, pure_ok_iff] using wrote
  exact before

theorem withdrawCommonTokens_framed {account : Account} (schedules : written .schedules = true)
    (before : Framed written base state) :
    Ends (Framed written base) (withdrawCommonTokens state account) := by
  rw [withdrawCommonTokens]
  refine .bind fun withdrawal _ => .bind fun automatic first =>
    .bind fun routed second => .bind fun _ _ => .bind fun _ _ => .bind fun props wrote => ?_
  have middle : Framed written base automatic.1 :=
    Ends.foldlM (fun _ _ before => depositCommonTokens_framed before) before _ first
  have after : Framed written base routed.1 := by
    refine Ends.foldlM (fun _ _ before => depositDeip_framed before) ?_ routed second
    exact middle
  obtain ⟨_, _, rfl⟩ := by simpa only [decreaseFund, bind_ok_iff, pure_ok_iff] using wrote
  have kept (row : Account) : row.Kept written (completeWithdrawal withdrawal row) :=
    .scheduled schedules rfl
  have paid := after.modify account.name kept
  exact .ite (fun _ => adjustProxiedWitnessVotes_framed paid) fun _ => .pure paid

theorem walkWithdrawals_framed {fuel : Nat} {due : Option Account}
    (schedules : written .schedules = true) (before : Framed written base state) :
    Ends (Framed written base) (walkWithdrawals fuel state due) := by
  induction fuel generalizing state due with
  | zero =>
    rw [walkWithdrawals]
    exact .throw
  | succ fuel hypothesis =>
    cases due with
    | none => exact .pure before
    | some due =>
      rw [walkWithdrawals]
      refine .bind fun _ _ => .ite (fun _ => ?_) fun _ => .pure before
      exact .bind fun next ran => hypothesis (withdrawCommonTokens_framed schedules before next ran)

/-- An operation leaves what it does not write. -/
theorem Operation.apply_framed {percentOf : Int → Int → Int} {op : Operation} :
    Ends (Framed op.writes state) (op.apply percentOf state) := by
  rw [apply]
  refine .bind fun _ _ => .bind fun _ _ => ?_
  cases op with
  | transfer op =>
    simp only [evaluate, TransferOperation.apply]
    iterate 8 refine .bind fun _ _ => ?_
    exact .pure (.refl state)
  | transferToCommonTokens op =>
    simp only [evaluate, TransferToCommonTokensOperation.apply]
    iterate 6 refine .bind fun _ _ => ?_
    exact increaseCommonTokens_framed (.refl state)
  | withdrawCommonTokens op =>
    simp only [evaluate, WithdrawCommonTokensOperation.apply]
    iterate 4 refine .bind fun _ _ => ?_
    have scheduled (name : Name) (rate : Int) (next : Time) (toWithdraw : Int) :
        Framed (withdrawCommonTokens op).writes state
          (updateWithdraw state name rate next toWithdraw) :=
      (Framed.refl state).modify _ fun row => .scheduled rfl rfl
    refine .ite (fun _ => ?_) fun _ => ?_
    · exact .bind fun _ _ => .pure (scheduled _ _ _ _)
    · exact .bind fun _ _ => .pure (scheduled _ _ _ _)
  | setWithdrawCommonTokensRoute op =>
    simp only [evaluate, SetWithdrawCommonTokensRouteOperation.apply]
    refine .bind fun _ _ => .bind fun _ _ => .bind fun next ran => .bind fun _ _ => .pure ?_
    exact updateRoute_framed rfl next ran
  | createAccount op => exact op.apply_framed (.refl state)
  | witnessUpdate op =>
    simp only [evaluate, WitnessUpdateOperation.apply]
    exact .bind fun _ _ => .ite (fun _ => .pure (.refl state)) fun _ => .pure (.refl state)
  | accountWitnessVote op =>
    simp only [evaluate, AccountWitnessVoteOperation.apply]
    iterate 4 refine .bind fun _ _ => ?_
    refine .ite (fun _ => ?_) fun _ => ?_
    · refine .bind fun _ _ => .bind fun _ _ => .pure ?_
      exact (Framed.refl state).revote fun _ => rfl
    · refine .bind fun _ _ => .bind fun _ _ => .bind fun _ _ => .pure ?_
      exact (Framed.refl state).revote fun _ => rfl
  | accountWitnessProxy op =>
    simp only [evaluate, AccountWitnessProxyOperation.apply]
    iterate 3 refine .bind fun _ _ => ?_
    refine .ite (fun _ => updateVotingProxy_framed (.refl state)) fun _ => ?_
    exact .bind fun _ _ => updateVotingProxy_framed (.refl state)
  | createResearchTokenSale op =>
    simp only [evaluate, CreateResearchTokenSaleOperation.apply]
    iterate 9 refine .bind fun _ _ => ?_
    exact .pure (.refl state)
  | contributeToTokenSale op =>
    simp only [evaluate, ContributeToTokenSaleOperation.apply]
    iterate 13 refine .bind fun _ _ => ?_
    exact .ite (fun _ => finishResearchTokenSale_framed (.refl state)) fun _ => .pure (.refl state)
  | createVestingBalance op =>
    simp only [evaluate, CreateVestingBalanceOperation.apply]
    iterate 7 refine .bind fun _ _ => ?_
    exact .pure (.refl state)
  | withdrawVestingBalance op =>
    simp only [evaluate, WithdrawVestingBalanceOperation.apply]
    iterate 3 refine .bind fun _ _ => ?_
    refine .ite (fun _ => ?_) fun _ => .pure (.refl state)
    iterate 5 refine .bind fun _ _ => ?_
    exact .pure (.refl state)
  | createGrant op => exact op.apply_framed rfl
  | createAsset op =>
    simp only [evaluate, CreateAssetOperation.apply]
    iterate 4 refine .bind fun _ _ => ?_
    exact .pure (.refl state)
  | issueAsset op =>
    simp only [evaluate, IssueAssetOperation.apply]
    iterate 7 refine .bind fun _ _ => ?_
    exact .pure (.refl state)
  | reserveAsset op =>
    simp only [evaluate, ReserveAssetOperation.apply]
    iterate 6 refine .bind fun _ _ => ?_
    exact .pure (.refl state)
  | createAward op =>
    simp only [evaluate, CreateAwardOperation.apply]
    iterate 18 refine .bind fun _ _ => ?_
    exact .pure (.refl state)
  | approveAward op =>
    simp only [evaluate, Ledger.approveAward]
    iterate 5 refine .bind fun _ _ => ?_
    exact .pure (.refl state)
  | rejectAward op =>
    simp only [evaluate, Ledger.rejectAward]
    exact .bind fun _ _ => .pure (.refl state)
  | createAwardWithdrawalRequest op =>
    simp only [evaluate, CreateAwardWithdrawalRequestOperation.apply]
    iterate 13 refine .bind fun _ _ => ?_
    exact .pure (.refl state)
  | certifyAwardWithdrawalRequest op =>
    simp only [evaluate, Ledger.certifyAwardWithdrawalRequest]
    iterate 3 refine .bind fun _ _ => ?_
    exact .pure (.refl state)
  | approveAwardWithdrawalRequest op =>
    simp only [evaluate, Ledger.approveAwardWithdrawalRequest]
    iterate 3 refine .bind fun _ _ => ?_
    exact .pure (.refl state)
  | rejectAwardWithdrawalRequest op =>
    simp only [evaluate, Ledger.rejectAwardWithdrawalRequest]
    iterate 4 refine .bind fun _ _ => ?_
    exact .pure (.refl state)
  | payAwardWithdrawalRequest op =>
    simp only [evaluate, Ledger.payAwardWithdrawalRequest]
    iterate 11 refine .bind fun _ _ => ?_
    exact .pure (.refl state)
  | createResearchLicense op =>
    simp only [evaluate, CreateResearchLicenseOperation.apply]
    iterate 6 refine .bind fun _ _ => ?_
    cases op.fee with
    | none => exact .pure (.refl state)
    | some fee => exact payLicenseFee_framed (.refl state)
  | createResearch op =>
    simp only [evaluate, CreateResearchOperation.apply]
    iterate 3 refine .bind fun _ _ => ?_
    exact .pure (.refl state)
  | assess written => exact .pure (.refl state)

/-- A step leaves what it does not write. -/
theorem Step.apply_framed {percentOf : Int → Int → Int} {step : Step} :
    Ends (Framed step.writes state) (step.apply percentOf state) := by
  cases step with
  | witness name => exact .pure (.refl state)
  | operation op => exact Operation.apply_framed
  | update headBlockNumber time => exact .pure ⟨rfl, .refl _, List.prefix_refl _⟩
  | clearExpiredDisciplineSupplies =>
    exact .foldlM (fun _ _ before => clearExpiredDisciplineSupply_framed before) (.refl state)
  | schedule upcoming kinds => exact .pure (.refl state)
  | processResearchTokenSales =>
    exact .foldlM (fun _ _ before => processResearchTokenSale_framed rfl before) (.refl state)
  | processFunds => exact processFunds_framed (.refl state)
  | processCommonTokensWithdrawals => exact walkWithdrawals_framed rfl (.refl state)
  | processDisciplineSupplies =>
    exact .foldlM (fun _ _ before => processDisciplineSupply_framed before) (.refl state)
  | allocateExpertise claimer discipline => exact createExpertTokens_framed (.refl state)

/-- Genesis lists vesting balances, and gives the registrar its common tokens. -/
def GenesisState.writes : Part → Bool
  | .vestings | .schedules => true
  | _ => false

/-- Nothing else is written after the assets are listed, and the accounts are new. -/
theorem GenesisState.init_framed {genesis : GenesisState} {start : State}
    (inited : genesis.init = .ok start) :
    ∃ assets, genesis.initAssets = .ok assets ∧ Framed writes (genesis.blank assets) start := by
  simp only [init, bind_ok_iff] at inited
  obtain ⟨_, _, _, _, assets, issues, _, _, accounts, opens, balances, pays, groups, founds, witnesses,
    elects, disciplines, lists, experts, rates, researches, starts, vests⟩ := inited
  refine ⟨assets, issues, ?_⟩
  have begun : Framed writes (genesis.blank assets) (genesis.initRegistrar (genesis.blank assets)) := by
    have registrar : (freshAccount 0 genesis.registrarName).Kept writes
        { freshAccount 0 genesis.registrarName with
          mined := true
          commonTokensBalance := genesis.registrarCommonTokens } := .scheduled rfl rfl
    exact ⟨rfl, .append [] registrar, List.prefix_refl _⟩
  have opened : Framed writes (genesis.blank assets) accounts := by
    rw [initAccounts] at opens
    exact Ends.foldlM (fun _ _ before => createAccountByFaucets_framed before) begun accounts opens
  have paid := Ends.foldlM (fun state balance before => by
    exact .bind fun _ _ => .bind fun _ _ => .pure before) opened balances pays
  have founded := Ends.foldlM (fun state group before => by
    refine .bind fun _ _ => .bind fun _ _ => .bind fun _ _ => .bind fun created creates => ?_
    exact .bind fun _ _ => .pure (createAccountByFaucets_framed before created creates))
    paid groups founds
  have elected := Ends.foldlM (fun state witness before => by
    exact .bind fun _ _ => .bind fun _ _ => .pure before) founded witnesses elects
  have listed := Ends.foldlM (fun state discipline before => by
    exact .bind fun _ _ => .bind fun _ _ => .pure before) elected disciplines lists
  have rated := Ends.foldlM (fun state account before => by
    exact .foldlM (fun _ _ before => createExpertTokens_framed before) before) listed experts rates
  have started := Ends.foldlM (fun state research before => by
    exact .bind fun _ _ => .bind fun _ _ => .bind fun _ _ => .pure before) rated researches starts
  have assessed : Framed writes (genesis.blank assets) (genesis.assessment.apply researches) := started
  refine Ends.foldlM (fun state vesting before => ?_) assessed start vests
  iterate 7 refine .bind fun _ _ => ?_
  exact .pure before

end Rest

section Steps

variable {percentOf : Int → Int → Int} {step : Step} {state next : State}

/-- What a step does not write. -/
theorem Step.untouched (applied : step.apply percentOf state = .ok next) :
    Untouched step.writes state next :=
  .of_rest (Step.apply_framed next applied).1

/-- The accounts after a step. -/
theorem Step.extended (applied : step.apply percentOf state = .ok next) :
    Extended step.writes state.accounts next.accounts :=
  (Step.apply_framed next applied).2.1

/-- No research group is removed or changed. -/
theorem Step.getResearchGroup_kept (applied : step.apply percentOf state = .ok next) {id : Nat}
    {group : ResearchGroup} (got : state.getResearchGroup id = .ok group) :
    next.getResearchGroup id = .ok group := by
  obtain ⟨added, groups⟩ := (Step.apply_framed next applied).2.2
  rw [State.getResearchGroup, expect_ok_iff] at got ⊢
  rw [← groups, List.find?_append, got, Option.some_or]

/-- No account is ever removed. -/
theorem Extended.accountExists {written : Part → Bool}
    (extended : Extended written state.accounts next.accounts) {name : Name}
    (exists_ : state.accountExists name = true) : next.accountExists name = true := by
  obtain ⟨account, member, named⟩ := List.any_eq_true.mp exists_
  obtain ⟨place, within, rfl⟩ := List.mem_iff_getElem.mp member
  obtain ⟨later, found, kept⟩ := extended.rows place _ (List.getElem?_eq_getElem within)
  exact List.any_eq_true.mpr ⟨later, List.mem_of_getElem? found, kept.name ▸ named⟩

end Steps

end DeipChain.Ledger
