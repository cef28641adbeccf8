import DeipChain.Ledger.Blocks

/-!
# Runs of the ledger

What holds of the books in every state that a chain reaches. The books of token sales
are kept by every step. The others are kept by the steps that do not break them: a
negative withdrawal breaks the signs of the accounts, the payment of a request burns
tokens that its requester keeps, and a penalty may exceed the expertise that it is
taken from.
-/
namespace DeipChain.Ledger

open DeipChain.Result DeipChain.Table

variable {percentOf : Int → Int → Int} {genesis : GenesisState} {steps : List Step}
  {kept : Aspect → Prop} {state next : State}

/-! ## Steps in a row -/

/-- A condition on each step of a run, in the state that the step starts from. -/
def RunFits (percentOf : Int → Int → Int) (fits : State → Step → Prop) (genesis : GenesisState)
    (steps : List Step) : Prop :=
  ∀ start, genesis.init = .ok start → Along (Step.apply percentOf) fits start steps

/-- The steps of a run pass a test, each in the state that it starts from. -/
def runPasses (percentOf : Int → Int → Int) (test : State → Step → Bool) (genesis : GenesisState)
    (steps : List Step) : Bool :=
  genesis.init.toOption.all fun start => passes (Step.apply percentOf) test start steps

theorem RunFits.of_passes {fits : State → Step → Prop} {test : State → Step → Bool}
    (implies : ∀ state step, test state step = true → fits state step)
    (tested : runPasses percentOf test genesis steps = true) :
    RunFits percentOf fits genesis steps := by
  intro start inited
  rw [runPasses, inited] at tested
  exact Along.of_passes implies tested

theorem run_ok_iff : run percentOf genesis steps = .ok state ↔
    ∃ start, genesis.init = .ok start ∧
      steps.foldlM (Step.apply percentOf) start = .ok state := by
  rw [run, bind_ok_iff]

/-- No aspect has to be kept. -/
theorem Step.fits_nothing (state : State) (step : Step) : step.Fits (fun _ => False) state := by
  cases step with
  | operation op => cases op <;> simp [Fits, Operation.Fits]
  | processFunds => exact ⟨False.elim, False.elim⟩
  | _ => trivial

theorem Step.apply_sound {step : Step} (applied : step.apply percentOf state = .ok next) :
    Posted (fun _ => False) (fun symbol => surplus next symbol - surplus state symbol) state next := by
  obtain ⟨change, posted, _⟩ := Step.apply_posted (step.fits_nothing state) applied
  refine ⟨posted.sound, posted.closed, fun _ symbol => ?_, fun _ _ => False.elim⟩
  omega

/-- Every step keeps the books sound, and no sale that has ended is touched again. -/
theorem steps_sound (sound : Sound state)
    (ran : steps.foldlM (Step.apply percentOf) state = .ok next) :
    Sound next ∧ ∀ sale ∈ state.sales, ¬ sale.Pending → sale ∈ next.sales := by
  refine foldlM_invariant (fun _ reached => Sound reached ∧
    ∀ sale ∈ state.sales, ¬ sale.Pending → sale ∈ reached.sales) ?_
    ⟨sound, fun _ member _ => member⟩ ran
  rintro step rest middle next ⟨before, kept⟩ applied
  have posted := Step.apply_sound applied
  exact ⟨posted.sound before,
    fun sale member ended => posted.closed before sale (kept sale member ended) ended⟩

theorem run_sound (ran : run percentOf genesis steps = .ok state) : Sound state := by
  obtain ⟨start, inited, ran⟩ := run_ok_iff.mp ran
  exact (steps_sound (GenesisState.init_books inited).1 ran).1

/-- An aspect that genesis states holds throughout the runs whose steps fit it. -/
theorem run_holds (aspect : Aspect) (stated : genesis.States aspect)
    (fits : RunFits percentOf (fun state step => step.Fits (· = aspect) state) genesis steps)
    (ran : run percentOf genesis steps = .ok state) : Holds aspect state := by
  obtain ⟨start, inited, ran⟩ := run_ok_iff.mp ran
  obtain ⟨sound, _, holds⟩ := GenesisState.init_books inited
  refine (foldlM_along (fun reached => Sound reached ∧ Holds aspect reached) ?_
    (fits start inited) ⟨sound, holds aspect stated⟩ ran).2
  rintro step state next fits ⟨sound, before⟩ applied
  obtain ⟨_, posted, _⟩ := Step.apply_posted fits applied
  exact ⟨posted.sound sound, posted.holds sound aspect rfl before⟩

/-! ## Token sales -/

/-- What a contribution adds to a sale. -/
def Contribution.given (sale : Nat) (contribution : Contribution) : Int :=
  if contribution.researchTokenSaleId = sale then contribution.amount.amount else 0

theorem SalesKept.total_given {registry : Registry} {balances : List Balance}
    {sales : List TokenSale} {contributions : List Contribution}
    (books : SalesKept registry balances sales contributions) {sale : TokenSale}
    (member : sale ∈ sales) (pending : sale.Pending) :
    total (Contribution.given sale.id) contributions = sale.totalAmount.amount := by
  obtain ⟨same, _⟩ := books.capped sale member pending
  have collected := books.collected sale member pending sale.totalAmount.symbol
  rw [Asset.under, if_pos rfl] at collected
  refine (total_congr fun contribution listed => ?_).trans collected
  unfold Contribution.given Contribution.toward
  by_cases own : contribution.researchTokenSaleId = sale.id
  · have symbol := books.symbols contribution listed sale member own.symm
    rw [if_pos own, if_pos own, Asset.under, if_pos (symbol.trans same.symm)]
  · rw [if_neg own, if_neg own]

/-- A sale that has not ended has collected what was contributed to it and is short of its
    hard cap. A sale that has ended has no contributions and does not change. What a
    research group has frozen is what its sales offer. -/
theorem run_token_sales (percentOf : Int → Int → Int) (genesis : GenesisState)
    (steps later : List Step) (state final : State)
    (ran : run percentOf genesis steps = .ok state)
    (continued : later.foldlM (Step.apply percentOf) state = .ok final) :
    (∀ sale ∈ state.sales, sale.Pending →
      total (Contribution.given sale.id) state.contributions = sale.totalAmount.amount ∧
      (∀ contribution ∈ state.contributions, contribution.researchTokenSaleId = sale.id →
        contribution.amount.symbol = sale.totalAmount.symbol) ∧
      sale.totalAmount.symbol = sale.hardCap.symbol ∧
      sale.totalAmount.amount < sale.hardCap.amount) ∧
    (∀ sale ∈ state.sales, ¬ sale.Pending →
      (∀ contribution ∈ state.contributions, contribution.researchTokenSaleId ≠ sale.id) ∧
      sale ∈ final.sales ∧ ∀ other ∈ final.sales, other.id = sale.id → other = sale) ∧
    ∀ group symbol, frozen state.balances group symbol =
      total (TokenSale.freezes state.registry group symbol) state.sales := by
  have sound := run_sound ran
  obtain ⟨soundFinal, closed⟩ := steps_sound sound continued
  have books := sound.sales
  have distinct : (final.sales.map TokenSale.id).Nodup := by
    rw [soundFinal.sales.ids]
    exact List.nodup_range
  refine ⟨fun sale member pending => ?_, fun sale member ended => ?_, books.frozen⟩
  · obtain ⟨same, below⟩ := books.capped sale member pending
    refine ⟨books.total_given member pending, fun contribution listed own => ?_, same, below⟩
    exact (books.symbols contribution listed sale member own.symm).trans same.symm
  · have kept := closed sale member ended
    refine ⟨fun contribution listed own => ?_, kept, fun other listed same => ?_⟩
    · obtain ⟨other, known, equal, pending⟩ := books.known contribution listed
      have ids : (state.sales.map TokenSale.id).Nodup := by
        rw [books.ids]
        exact List.nodup_range
      have isSale := List.inj_on_of_nodup_map ids known member (equal.trans own)
      exact ended (isSale ▸ pending)
    · exact List.inj_on_of_nodup_map distinct listed kept same

/-- A sale with a contribution, which is finished in the next block. -/
theorem run_token_sales_sample : ∃ state final,
    run Sample.percentOf Sample.genesis ((Sample.block 1 Sample.tokenize).steps ++
      (Sample.block 2 [.contributeToTokenSale ⟨"bob", "sale", ⟨20, deipSymbol⟩⟩]).steps) =
        .ok state ∧
    (Sample.block 3 []).steps.foldlM (Step.apply Sample.percentOf) state = .ok final ∧
    ∀ sale ∈ state.sales, sale.Pending →
      total (Contribution.given sale.id) state.contributions = sale.totalAmount.amount := by
  obtain ⟨final, ran⟩ : ∃ final, (do
      let state ← run Sample.percentOf Sample.genesis ((Sample.block 1 Sample.tokenize).steps ++
        (Sample.block 2 [.contributeToTokenSale ⟨"bob", "sale", ⟨20, deipSymbol⟩⟩]).steps)
      (Sample.block 3 []).steps.foldlM (Step.apply Sample.percentOf) state) = .ok final :=
    exists_ok _ (by decide +kernel)
  obtain ⟨state, ran, continued⟩ := bind_ok_iff.mp ran
  refine ⟨state, final, ran, continued, fun sale member pending => ?_⟩
  exact ((run_token_sales _ _ _ _ _ _ ran continued).1 sale member pending).1

/-! ## Signs -/

/-- No balance is negative, and neither is what an account has of common tokens or has
    scheduled of them. -/
def State.Nonnegative (state : State) : Prop :=
  (∀ balance ∈ state.balances, 0 ≤ balance.amount ∧ 0 ≤ balance.frozenAmount) ∧
    ∀ account ∈ state.accounts, 0 ≤ account.commonTokensBalance ∧ 0 ≤ account.withdrawn ∧
      0 ≤ account.commonTokensWithdrawRate

/-- The step is no withdrawal of a negative amount. -/
def Step.withdrawsForward : Step → Bool
  | operation (.withdrawCommonTokens op) => 0 ≤ op.totalCommonTokensAmount
  | _ => true

theorem Step.fits_reserved {step : Step} (forward : step.withdrawsForward = true) (state : State) :
    step.Fits (· = .reserved) state := by
  cases step with
  | operation op =>
    cases op with
    | withdrawCommonTokens op => exact fun _ => of_decide_eq_true forward
    | _ => simp [Step.Fits, Operation.Fits]
  | processFunds => simp [Step.Fits]
  | _ => trivial

/-- Without negative withdrawals nothing of an account gets negative. -/
theorem run_nonnegative (percentOf : Int → Int → Int) (genesis : GenesisState) (steps : List Step)
    (state : State) (positive : 0 ≤ genesis.registrarCommonTokens)
    (forward : ∀ step ∈ steps, step.withdrawsForward = true)
    (ran : run percentOf genesis steps = .ok state) : state.Nonnegative := by
  have reserved : Holds .reserved state := by
    refine run_holds .reserved positive (fun start _ => ?_) ran
    exact Along.of_forall (fun step member => Step.fits_reserved (forward step member)) start
  refine ⟨(run_sound ran).solvent, fun account member => ?_⟩
  obtain ⟨common, withdrawn, rate, _⟩ := reserved account member
  exact ⟨common, withdrawn, rate⟩

/-- A withdrawal that is canceled by one of nothing. -/
theorem run_nonnegative_sample : ∃ state,
    run Sample.percentOf Sample.genesis (Sample.block 1
      [.transferToCommonTokens ⟨"alice", "alice", ⟨100, deipSymbol⟩⟩,
        .withdrawCommonTokens ⟨"alice", 26⟩, .withdrawCommonTokens ⟨"alice", 0⟩]).steps =
          .ok state ∧ state.Nonnegative := by
  obtain ⟨state, ran⟩ := exists_ok (run Sample.percentOf Sample.genesis (Sample.block 1
    [.transferToCommonTokens ⟨"alice", "alice", ⟨100, deipSymbol⟩⟩,
      .withdrawCommonTokens ⟨"alice", 26⟩, .withdrawCommonTokens ⟨"alice", 0⟩]).steps)
    (by decide +kernel)
  exact ⟨state, ran, run_nonnegative _ _ _ _ (by decide) (by decide) ran⟩

/-- A negative withdrawal leaves a negative rate. -/
theorem run_nonnegative_fails : ∃ state,
    run Sample.percentOf Sample.genesis (Sample.block 1
      [.transferToCommonTokens ⟨"alice", "alice", ⟨100, deipSymbol⟩⟩,
        .withdrawCommonTokens ⟨"alice", -1300⟩]).steps = .ok state ∧ ¬ state.Nonnegative := by
  obtain ⟨state, ran, negative⟩ := exists_ok_of_any
    (run Sample.percentOf Sample.genesis (Sample.block 1
      [.transferToCommonTokens ⟨"alice", "alice", ⟨100, deipSymbol⟩⟩,
        .withdrawCommonTokens ⟨"alice", -1300⟩]).steps)
    (fun state => state.accounts.any fun account => account.commonTokensWithdrawRate < 0)
    (by decide +kernel)
  refine ⟨state, ran, fun ⟨_, accounts⟩ => ?_⟩
  obtain ⟨account, member, below⟩ := List.any_eq_true.mp negative
  have above := (accounts account member).2.2
  simp only [decide_eq_true_eq] at below
  omega

/-! ## Supplies of issued assets -/

/-- The supply of each issued asset is what is held of it. -/
def State.Covered (state : State) : Prop :=
  ∀ asset ∈ state.assets, asset.symbol ≠ deipSymbol → asset.currentSupply = held state asset.symbol

/-- The step pays no request in an issued asset. -/
def Step.burnsNothing (state : State) : Step → Bool
  | operation (.payAwardWithdrawalRequest op) =>
    (state.requests.find? fun request => request.key == (op.awardNumber, op.paymentNumber)).all
      fun request => request.amount.symbol == deipSymbol
  | _ => true

theorem Step.burnless {step : Step} (burns : step.burnsNothing state = true) :
    step.Burnless state := by
  cases step with
  | operation op =>
    cases op with
    | payAwardWithdrawalRequest op =>
      intro request found
      simpa [burnsNothing, found] using burns
    | _ => trivial
  | _ => trivial

/-- With unique symbols, one asset object records the supply of an asset. -/
theorem outstanding_eq {asset : AssetObject} (sound : Sound state) (member : asset ∈ state.assets)
    (issued : asset.symbol ≠ deipSymbol) : outstanding state asset.symbol = asset.currentSupply := by
  rw [outstanding, if_neg issued,
    ← total_ite_key asset.currentSupply sound.assets.symbols (List.mem_map_of_mem member)]
  refine total_congr fun other listed => ?_
  unfold AssetObject.supplied
  by_cases same : other.symbol = asset.symbol
  · rw [List.inj_on_of_nodup_map sound.assets.symbols listed member same]
  · rw [if_neg same, if_neg same]

/-- As long as no request in an issued asset is paid, issued assets are covered. -/
theorem run_covered (percentOf : Int → Int → Int) (genesis : GenesisState) (steps : List Step)
    (state : State)
    (burns : RunFits percentOf (fun state step => step.burnsNothing state = true) genesis steps)
    (ran : run percentOf genesis steps = .ok state) : state.Covered := by
  have sound := run_sound ran
  obtain ⟨start, inited, ran⟩ := run_ok_iff.mp ran
  obtain ⟨begun, books, _⟩ := GenesisState.init_books inited
  have settled : ∀ symbol, symbol ≠ deipSymbol → surplus state symbol = 0 := by
    refine (foldlM_along (fun reached => Sound reached ∧
      ∀ symbol, symbol ≠ deipSymbol → surplus reached symbol = 0) ?_ (burns start inited)
      ⟨begun, fun symbol issued => ?_⟩ ran).2
    · rintro step state next burns ⟨sound, before⟩ applied
      obtain ⟨change, posted, _, nothing⟩ := Step.apply_posted (step.fits_nothing state) applied
      refine ⟨posted.sound sound, fun symbol issued => ?_⟩
      rw [posted.surplus sound, before symbol issued,
        nothing (Step.burnless burns) symbol issued, add_zero]
    · rw [books symbol]
      exact if_neg (Ne.symm issued)
  intro asset member issued
  have balanced := settled asset.symbol issued
  rw [surplus, outstanding_eq sound member issued] at balanced
  omega

/-- A grant is awarded, and a part of it is requested. -/
theorem run_covered_sample : ∃ state,
    run Sample.percentOf Sample.genesis (Sample.block 1 Sample.award).steps = .ok state ∧
      state.Covered := by
  obtain ⟨state, ran⟩ := exists_ok
    (run Sample.percentOf Sample.genesis (Sample.block 1 Sample.award).steps) (by decide +kernel)
  refine ⟨state, ran, run_covered _ _ _ _ ?_ ran⟩
  exact RunFits.of_passes (fun _ _ => id) (by decide +kernel)

/-- The payment of a request lowers the supply, and its tokens stay where they were. -/
theorem run_covered_fails : ∃ state,
    run Sample.percentOf Sample.genesis
      (Sample.block 1 (Sample.award ++ Sample.payment)).steps = .ok state ∧ ¬ state.Covered := by
  obtain ⟨state, ran, short⟩ := exists_ok_of_any
    (run Sample.percentOf Sample.genesis (Sample.block 1 (Sample.award ++ Sample.payment)).steps)
    (fun state => state.assets.any fun asset =>
      asset.symbol != deipSymbol && asset.currentSupply != held state asset.symbol)
    (by decide +kernel)
  refine ⟨state, ran, fun covered => ?_⟩
  obtain ⟨asset, member, differs⟩ := List.any_eq_true.mp short
  simp only [Bool.and_eq_true, bne_iff_ne, ne_eq] at differs
  exact differs.2 (covered asset member differs.1)

/-! ## Expert tokens -/

/-- No expert token is negative, each account counts its own ones, and the global properties
    count those of all accounts. -/
def State.ExpertiseCounted (state : State) : Prop :=
  (∀ token ∈ state.expertTokens, 0 ≤ token.amount) ∧
    (∀ account ∈ state.accounts, account.expertiseTokensBalance =
      total (ExpertToken.heldBy account.name) state.expertTokens) ∧
    state.props.totalExpertTokensAmount = total Account.expertiseTokensBalance state.accounts

/-- The step distributes no penalty that exceeds the tokens which it is taken from. -/
def Step.Bears (state : State) : Step → Prop
  | processFunds => RewardsFit Borne state
  | _ => True

theorem Step.fits_rated {step : Step} (bears : step.Bears state) : step.Fits (· = .rated) state := by
  cases step with
  | operation op => cases op <;> simp [Step.Fits, Operation.Fits]
  | processFunds => exact ⟨nofun, fun _ => bears⟩
  | _ => trivial

theorem run_expertise_counted (percentOf : Int → Int → Int) (genesis : GenesisState)
    (steps : List Step) (state : State) (positive : ∀ token ∈ genesis.expertTokens, 0 ≤ token.amount)
    (bears : RunFits percentOf (fun state step => step.Bears state) genesis steps)
    (ran : run percentOf genesis steps = .ok state) : state.ExpertiseCounted := by
  have rated : Holds .rated state := by
    refine run_holds .rated positive (fun start inited => ?_) ran
    exact (bears start inited).mono fun _ _ => Step.fits_rated
  exact ⟨rated.tokens, rated.owned, rated.counted⟩

/-- Decides whether the penalties of a step are borne. -/
def Step.bears (state : State) : Step → Bool
  | processFunds => (rewardAdjustments state.registry).toOption.all fun adjustments =>
      passes applyAdjustment (fun state adjustment => Borne state adjustment) state adjustments
  | _ => true

theorem Step.bears_of_test (state : State) (step : Step) (tested : step.bears state = true) :
    step.Bears state := by
  cases step with
  | processFunds =>
    intro adjustments computed
    rw [bears, computed] at tested
    exact Along.of_passes (fun _ _ => of_decide_eq_true) tested
  | _ => trivial

/-- A penalty that the author can bear. -/
theorem run_expertise_counted_sample : ∃ state,
    run Sample.percentOf Sample.genesis
      (Sample.block 1 [.assess (Sample.devalued 1000)]).steps = .ok state ∧
      state.ExpertiseCounted := by
  obtain ⟨state, ran⟩ := exists_ok (run Sample.percentOf Sample.genesis
    (Sample.block 1 [.assess (Sample.devalued 1000)]).steps) (by decide +kernel)
  refine ⟨state, ran, run_expertise_counted _ _ _ _ (by decide) ?_ ran⟩
  exact RunFits.of_passes Step.bears_of_test (by decide +kernel)

/-- A penalty beyond the tokens of the author leaves a negative token, and the counts of the
    account and of the global properties are cut off at different values. -/
theorem run_expertise_counted_fails : ∃ state,
    run Sample.percentOf Sample.genesis
      (Sample.block 1 [.assess (Sample.devalued 10000)]).steps = .ok state ∧
      ¬ state.ExpertiseCounted := by
  obtain ⟨state, ran, negative⟩ := exists_ok_of_any
    (run Sample.percentOf Sample.genesis
      (Sample.block 1 [.assess (Sample.devalued 10000)]).steps)
    (fun state => state.expertTokens.any fun token => token.amount < 0) (by decide +kernel)
  refine ⟨state, ran, fun ⟨tokens, _⟩ => ?_⟩
  obtain ⟨token, member, below⟩ := List.any_eq_true.mp negative
  have above := tokens token member
  simp only [decide_eq_true_eq] at below
  omega

end DeipChain.Ledger
