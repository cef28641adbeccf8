import DeipChain.Ledger.WithdrawalPasses

/-!
# When a pass over the withdrawals runs through

The walk visits an account more than once if more than one of its withdrawals is due. Each visit
moves the account behind in the index by a week, so the walk comes to an end. It runs through if
every visit that it comes to does.
-/
namespace DeipChain.Ledger

open DeipChain.Result DeipChain.Table

variable {percentOf : Int → Int → Int} {genesis : GenesisState} {steps : List Step}
  {state next : State} {account : Account} {id : Nat}

/-- A pass comes to an account that is due, in the state that it has brought about until then. -/
inductive Comes : State → Option Account → State → Account → Prop where
  | here {state : State} {due account : Account}
      (got : getAccountById state.accounts due.id = .ok account)
      (reached : account.nextCommonTokensWithdrawal ≤ state.props.time) :
      Comes state (some due) state account
  | later {state middle found : State} {due account other : Account}
      (got : getAccountById state.accounts due.id = .ok account)
      (reached : account.nextCommonTokensWithdrawal ≤ state.props.time)
      (withdrew : withdrawCommonTokens state account = .ok middle)
      (rest : Comes middle (firstDue (state.accounts.filter fun other => account.dueBefore other))
        found other) :
      Comes state (some due) found other

/-- Every visit that a pass comes to fits the state that it begins in. -/
def PassFits (state : State) : Prop :=
  ∀ found account, Comes state (firstDue state.accounts) found account → VisitFits found account

theorem Payouts.visited (payouts : Payouts state)
    (got : getAccountById state.accounts id = .ok account)
    (withdrew : withdrawCommonTokens state account = .ok next) : Payouts next := by
  obtain ⟨_, _, first⟩ := payouts.listed.row got
  obtain ⟨_, released⟩ := withdrawCommonTokens_released (grounds state) first withdrew
  have posted : Posted (fun _ => True) (fun _ => 0) state next := released.posted
  refine ⟨posted.sound payouts.sound, payouts.listed.visited got withdrew, ?_⟩
  exact payouts.routes.of_extended ((withdrawCommonTokens_untouched withdrew).routes rfl)
    (withdrawCommonTokens_extended withdrew) rfl

/-- Each visit of a walk did what it should. -/
theorem Walk.settles {due : Option Account} {visits : List Visit} (walk : Walk state due visits next)
    (payouts : Payouts state) : ∀ visit ∈ visits, visit.Settles := by
  induction walk with
  | ended state =>
    intro visit none
    cases none
  | waits got early =>
    intro visit none
    cases none
  | visits got reached computed withdrew rest hypothesis =>
    rw [List.forall_mem_cons]
    exact ⟨withdrawCommonTokens_settles payouts got computed withdrew,
      hypothesis (payouts.visited got withdrew)⟩

/-- What a walk that ran through has come to did fit. -/
theorem Walk.fits {due : Option Account} {visits : List Visit} (walk : Walk state due visits next)
    (payouts : Payouts state) {found : State} {other : Account}
    (comes : Comes state due found other) : VisitFits found other := by
  induction walk with
  | ended state => cases comes
  | waits got early =>
    cases comes with
    | here again reached =>
      obtain rfl := Except.ok.inj (again.symm.trans got)
      exact absurd reached early
    | later again reached =>
      obtain rfl := Except.ok.inj (again.symm.trans got)
      exact absurd reached early
  | visits got reached computed withdrew rest hypothesis =>
    cases comes with
    | here again =>
      obtain rfl := Except.ok.inj (again.symm.trans got)
      exact (withdrawCommonTokens_ok_iff payouts again).mp ⟨_, withdrew⟩
    | later again _ follows behind =>
      obtain rfl := Except.ok.inj (again.symm.trans got)
      obtain rfl := Except.ok.inj (follows.symm.trans withdrew)
      exact hypothesis (payouts.visited got withdrew) behind

/-! ## The end of the walk -/

/-- The place of a key among all keys up to some time. -/
def Account.rank (count : Nat) (account : Account) : Nat :=
  account.nextCommonTokensWithdrawal * count + account.id

theorem Account.rank_congr {count : Nat} {first second : Account}
    (same : first.dueKey = second.dueKey) : first.rank count = second.rank count := by
  have both := toLex.injective same
  simp only [Prod.mk.injEq] at both
  rw [rank, rank, both.1, both.2]

theorem Account.rank_lt {count : Nat} {first second : Account} (numbered : first.id < count)
    (before : first.dueKey < second.dueKey) : first.rank count < second.rank count := by
  rw [rank, rank]
  simp only [dueKey, Prod.Lex.toLex_lt_toLex] at before
  rcases before with earlier | ⟨same, less⟩
  · have weeks := Nat.mul_le_mul_right count (Nat.succ_le_of_lt earlier)
    rw [Nat.succ_mul] at weeks
    omega
  · rw [same]
    omega

theorem Account.rank_due {count : Nat} {account : Account} {time : Time}
    (numbered : account.id < count) (reached : account.nextCommonTokensWithdrawal ≤ time) :
    account.rank count < count * (time + 1) := by
  have weeks := Nat.mul_le_mul_right count reached
  rw [rank, Nat.mul_comm count, Nat.succ_mul]
  omega

/-- A walk runs through if there is a step for each key up to the time and its visits fit.

Proof: induction on the steps. The front of the walk has the key that the index had for it when
it was chosen, and the next front has a greater one, which no visit has changed. -/
theorem walkWithdrawals_runs {fuel : Nat} {due : Account} (payouts : Payouts state)
    (front : ∃ row, state.accounts[due.id]? = some row ∧ row.dueKey = due.dueKey)
    (enough : state.accounts.length * (state.props.time + 1) + 1 ≤
      fuel + due.rank state.accounts.length) (some_ : 1 ≤ fuel)
    (fits : ∀ found other, Comes state (some due) found other → VisitFits found other) :
    ∃ next, walkWithdrawals fuel state (some due) = .ok next := by
  induction fuel generalizing state due with
  | zero => omega
  | succ fuel hypothesis =>
    obtain ⟨row, found, key⟩ := front
    have got := payouts.listed.numbered.getAccountById_iff.mpr found
    have within : due.id < state.accounts.length := (List.getElem?_eq_some_iff.mp found).1
    rw [walkWithdrawals]
    refine exists_bind got ?_
    by_cases reached : row.nextCommonTokensWithdrawal ≤ state.props.time
    · rw [if_pos reached]
      obtain ⟨middle, withdrew⟩ :=
        (withdrawCommonTokens_ok_iff payouts got).mpr (fits state row (.here got reached))
      refine exists_bind withdrew ?_
      have fits' := fun found other rest => fits found other (.later got reached withdrew rest)
      have same : due.rank state.accounts.length = row.rank state.accounts.length :=
        Account.rank_congr key.symm
      have more := Account.rank_due (payouts.listed.numbered _ _ found ▸ within) reached
      cases follows : firstDue (state.accounts.filter fun other => row.dueBefore other) with
      | none =>
        obtain ⟨rest, rfl⟩ : ∃ rest, fuel = rest + 1 := ⟨fuel - 1, by omega⟩
        exact ⟨middle, rfl⟩
      | some following =>
        obtain ⟨member, _⟩ := firstDue_least follows
        obtain ⟨listedAt, after⟩ := List.mem_filter.mp member
        obtain ⟨spot, at_⟩ := List.mem_iff_getElem?.mp listedAt
        obtain rfl := payouts.listed.numbered _ _ at_
        have behind := Account.dueBefore_iff.mp after
        have moved : following.id ≠ due.id := by
          intro equal
          obtain rfl := Option.some.inj ((equal ▸ at_).symm.trans found)
          exact lt_irrefl _ behind
        obtain ⟨there, thereAt, _, thereKey⟩ := payouts.listed.keeps_key got withdrew at_ moved
        have length := (withdrawCommonTokens_settles payouts got
          (fits state row (.here got reached)).payable.computed withdrew).accounts.length
        have time := (withdrawCommonTokens_untouched withdrew).time rfl
        have grows := Account.rank_lt (payouts.listed.numbered _ _ found ▸ within) behind
        rw [follows] at fits'
        dsimp only at length
        refine hypothesis (payouts.visited got withdrew) ⟨there, thereAt, thereKey⟩ ?_ ?_ fits'
        · rw [length, time]
          omega
        · omega
    · rw [if_neg reached]
      exact ⟨state, rfl⟩

/-- A pass runs through if its visits fit. -/
theorem processCommonTokensWithdrawals_runs (payouts : Payouts state) (fits : PassFits state) :
    ∃ next, processCommonTokensWithdrawals state = .ok next := by
  rw [processCommonTokensWithdrawals]
  rw [PassFits] at fits
  cases begins : firstDue state.accounts with
  | none => exact ⟨state, rfl⟩
  | some due =>
    rw [begins] at fits
    obtain ⟨listedAt, _⟩ := firstDue_least begins
    obtain ⟨spot, at_⟩ := List.mem_iff_getElem?.mp listedAt
    obtain rfl := payouts.listed.numbered _ _ at_
    exact walkWithdrawals_runs payouts ⟨due, at_, rfl⟩ (by omega) (by omega) fits

/-- In every state that a chain reaches, the pass over the withdrawals runs through, and settles
each withdrawal, exactly if every visit that it comes to fits. -/
theorem run_settles (percentOf : Int → Int → Int) (genesis : GenesisState) (steps : List Step)
    (state : State) (ran : run percentOf genesis steps = .ok state) :
    ((∃ next, processCommonTokensWithdrawals state = .ok next) ∧
      ∀ visit ∈ processVisits state, visit.Settles) ↔ PassFits state := by
  have payouts := run_payouts ran
  constructor
  · rintro ⟨⟨next, processed⟩, _⟩ found account comes
    exact (walk_of_process processed).fits payouts comes
  · intro fits
    obtain ⟨next, processed⟩ := processCommonTokensWithdrawals_runs payouts fits
    exact ⟨⟨next, processed⟩, (walk_of_process processed).settles payouts⟩

/-- A week after a withdrawal begins, of which a third goes to another user and a third is locked
    again. -/
def Sample.routed : List Step :=
  [.operation (.transferToCommonTokens ⟨"alice", "alice", ⟨100, deipSymbol⟩⟩),
    .operation (.setWithdrawCommonTokensRoute ⟨"alice", "bob", 3333, false⟩),
    .operation (.setWithdrawCommonTokensRoute ⟨"alice", "alice", 3333, true⟩),
    .operation (.withdrawCommonTokens ⟨"alice", 99⟩),
    .update 2 (1 + withdrawIntervalSeconds)]

/-- Its pass has something to settle, and fits. -/
theorem run_settles_sample : ∃ state,
    run Sample.percentOf Sample.genesis Sample.routed = .ok state ∧
    (processVisits state).map Visit.amount = [7] ∧ PassFits state := by
  obtain ⟨state, ran, amounts, succeeds⟩ : ∃ state,
      run Sample.percentOf Sample.genesis Sample.routed = .ok state ∧
      (processVisits state).map Visit.amount = [7] ∧
      (processCommonTokensWithdrawals state).isOk = true := by
    obtain ⟨state, ran, tested⟩ := exists_ok_of_any (run Sample.percentOf Sample.genesis Sample.routed)
      (fun state => (processVisits state).map Visit.amount == [7] &&
        (processCommonTokensWithdrawals state).isOk) (by decide +kernel)
    rw [Bool.and_eq_true, beq_iff_eq] at tested
    exact ⟨state, ran, tested⟩
  obtain ⟨next, processed⟩ := exists_ok _ succeeds
  refine ⟨state, ran, amounts, (run_settles _ _ _ _ ran).mp ⟨⟨next, processed⟩, ?_⟩⟩
  exact (walk_of_process processed).settles (run_payouts ran)

/-- A withdrawal of a negative amount is accepted. Its rate leaves a negative rest, at which the
    pass throws a week later. -/
theorem run_settles_fails : ∃ state,
    run Sample.percentOf Sample.genesis
      [.operation (.transferToCommonTokens ⟨"alice", "alice", ⟨100, deipSymbol⟩⟩),
        .operation (.withdrawCommonTokens ⟨"alice", -27⟩),
        .update 2 (1 + withdrawIntervalSeconds)] = .ok state ∧
    processCommonTokensWithdrawals state =
      .error "Deposited more common_tokens than were supposed to be withdrawn" := by
  obtain ⟨state, ran, tested⟩ := exists_ok_of_any (run Sample.percentOf Sample.genesis
      [.operation (.transferToCommonTokens ⟨"alice", "alice", ⟨100, deipSymbol⟩⟩),
        .operation (.withdrawCommonTokens ⟨"alice", -27⟩),
        .update 2 (1 + withdrawIntervalSeconds)])
    (fun state => match processCommonTokensWithdrawals state with
      | .error error => error == "Deposited more common_tokens than were supposed to be withdrawn"
      | .ok _ => false) (by decide +kernel)
  refine ⟨state, ran, ?_⟩
  cases processed : processCommonTokensWithdrawals state with
  | error error =>
    rw [processed, beq_iff_eq] at tested
    rw [tested]
  | ok next =>
    rw [processed] at tested
    cases tested

end DeipChain.Ledger
