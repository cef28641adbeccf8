import DeipChain.Ledger.SaleShares
import DeipChain.Ledger.SaleTimes

/-!
# The terms of a vesting balance

A vesting balance is to be paid out in equal parts, one for each period, and nothing before
the cliff. The evaluator takes the part of what is left, from which the earlier withdrawals
are gone already, and subtracts these withdrawals once more. So the owner never gets too
much, and gets what is due at a time only if the earlier withdrawals do not lower it.
-/
namespace DeipChain.Ledger

open DeipChain.Result DeipChain.Table

/-- `share_type` has 64 bits and a sign. A result outside of it throws. -/
def FitsShare (amount : Int) : Prop :=
  -2 ^ 63 ≤ amount ∧ amount < 2 ^ 63

instance (amount : Int) : Decidable (FitsShare amount) :=
  inferInstanceAs (Decidable (_ ∧ _))

/-! ## Attempts -/

/-- A step that fails leaves the ledger as it was. -/
def Step.attempt (percentOf : Int → Int → Int) (state : State) (step : Step) :
    Except String State :=
  match step.apply percentOf state with
  | .ok next => return next
  | .error _ => return state

theorem Step.attempt_ok {percentOf : Int → Int → Int} {step : Step} {state next : State}
    (tried : step.attempt percentOf state = .ok next) :
    step.apply percentOf state = .ok next ∨ next = state := by
  rw [attempt] at tried
  split at tried
  · rename_i applied
    rw [pure_ok_iff] at tried
    exact .inl (tried ▸ applied)
  · rw [pure_ok_iff] at tried
    exact .inr tried.symm

/-! ## What is agreed -/

namespace CreateVestingBalanceOperation

/-- The vested part of the whole amount after some time. -/
def entitled (op : CreateVestingBalanceOperation) (elapsed : Nat) : Int :=
  if elapsed < op.vestingDurationSeconds then
    op.balance.amount * (elapsed / op.periodDurationSeconds : Nat) /
      (op.vestingDurationSeconds / op.periodDurationSeconds : Nat)
  else op.balance.amount

/-- The withdrawals up to now do not lower what is due now, and the product that the evaluator
    computes fits `share_type`. Where nothing is due, nothing is asked. -/
def Undiminished (op : CreateVestingBalanceOperation) (withdrawn : Int) (elapsed : Nat) : Prop :=
  op.vestingCliffSeconds ≤ elapsed → withdrawn < op.entitled elapsed →
    if elapsed < op.vestingDurationSeconds then
      withdrawn * (elapsed / op.periodDurationSeconds : Nat) ≤
          op.balance.amount * (elapsed / op.periodDurationSeconds : Nat) %
            (op.vestingDurationSeconds / op.periodDurationSeconds : Nat) ∧
        FitsShare ((op.balance.amount - withdrawn) * (elapsed / op.periodDurationSeconds : Nat))
    else withdrawn = 0

instance (op : CreateVestingBalanceOperation) (withdrawn : Int) (elapsed : Nat) :
    Decidable (op.Undiminished withdrawn elapsed) :=
  inferInstanceAs (Decidable (_ → _ → _))

end CreateVestingBalanceOperation

/-- What was withdrawn of a vesting balance. -/
def withdrawnOf (state : State) (id : Nat) : Int :=
  ((state.vestings.find? fun vesting => vesting.id == id).map
    fun vesting => vesting.withdrawn.amount).getD 0

/-- What is left of a vesting balance. -/
def leftOf (state : State) (id : Nat) : Int :=
  ((state.vestings.find? fun vesting => vesting.id == id).map
    fun vesting => vesting.balance.amount).getD 0

namespace WithdrawVestingBalanceOperation

/-- The product of the balance with the number of periods does not overflow. -/
def productFits (state : State) (op : WithdrawVestingBalanceOperation) : Bool :=
  (state.vestings.find? fun vesting => vesting.id == op.vestingBalanceId).all fun vesting =>
    decide (state.props.time - vesting.startTimestamp < vesting.vestingDurationSeconds →
      FitsShare (vesting.balance.amount *
        ((state.props.time - vesting.startTimestamp) / vesting.periodDurationSeconds : Nat)))

/-- The operation with the overflow that `apply` leaves out. -/
def applyChecked (state : State) (op : WithdrawVestingBalanceOperation) : Except String State := do
  op.validate
  require (op.productFits state = true) "Integer Overflow"
  op.apply state

end WithdrawVestingBalanceOperation

/-- The owner can withdraw the amount now. -/
def CanWithdraw (state : State) (id : Nat) (owner : Name) (amount : Int) : Prop :=
  ∃ next, WithdrawVestingBalanceOperation.applyChecked state ⟨id, owner, ⟨amount, deipSymbol⟩⟩ =
      .ok next ∧
    withdrawnOf next id = withdrawnOf state id + amount ∧
    free next.balances owner deipSymbol = free state.balances owner deipSymbol + amount

/-- The terms of a vesting balance hold in a state. -/
structure VestsAsAgreed (op : CreateVestingBalanceOperation) (start : Time) (id : Nat)
    (state : State) : Prop where
  conserved : leftOf state id + withdrawnOf state id = op.balance.amount
  bounded : withdrawnOf state id ≤ op.entitled (state.props.time - start)
  locked : state.props.time - start < op.vestingCliffSeconds → withdrawnOf state id = 0
  opened : op.vestingCliffSeconds ≤ state.props.time - start → ∀ amount, 0 < amount →
    withdrawnOf state id + amount ≤ op.entitled (state.props.time - start) →
      CanWithdraw state id op.owner amount
  whole : op.vestingDurationSeconds ≤ state.props.time - start → ∀ amount, 0 < amount →
    (CanWithdraw state id op.owner amount ↔ withdrawnOf state id + amount ≤ op.balance.amount)

/-! ## What has vested -/

section Entitlement

variable {op : CreateVestingBalanceOperation} {elapsed later : Nat} {withdrawn : Int}

/-- What `validate` accepts. -/
structure CreateVestingBalanceOperation.Accepted (op : CreateVestingBalanceOperation) : Prop where
  core : op.balance.symbol = deipSymbol
  positive : 0 < op.balance.amount
  cliff : op.vestingCliffSeconds < op.vestingDurationSeconds
  period : 0 < op.periodDurationSeconds
  whole : op.periodDurationSeconds ∣ op.vestingDurationSeconds

theorem CreateVestingBalanceOperation.accepted_of_validate (valid : op.validate = .ok ()) :
    op.Accepted := by
  simp only [validate, bind_ok_iff, require_ok_iff] at valid
  obtain ⟨_, compared, _, rfl, _, ⟨_, cliff⟩, _, period, whole⟩ := valid
  obtain ⟨core, positive⟩ := Asset.above_zero_iff.mp compared
  exact ⟨core, positive, cliff, period, Nat.dvd_of_mod_eq_zero whole⟩

namespace CreateVestingBalanceOperation.Accepted

/-- There is at least one period. -/
theorem periods_pos (accepted : op.Accepted) :
    0 < op.vestingDurationSeconds / op.periodDurationSeconds := by
  have duration : 0 < op.vestingDurationSeconds := Nat.zero_lt_of_lt accepted.cliff
  exact Nat.div_pos (Nat.le_of_dvd duration accepted.whole) accepted.period

theorem entitled_nonneg (accepted : op.Accepted) : 0 ≤ op.entitled elapsed := by
  have positive := accepted.positive
  rw [entitled]
  split
  · exact Int.ediv_nonneg (Int.mul_nonneg (by omega) (Int.natCast_nonneg _)) (Int.natCast_nonneg _)
  · omega

theorem entitled_le (accepted : op.Accepted) : op.entitled elapsed ≤ op.balance.amount := by
  have positive := accepted.positive
  rw [entitled]
  split
  · rename_i running
    have passed : elapsed / op.periodDurationSeconds ≤
        op.vestingDurationSeconds / op.periodDurationSeconds :=
      Nat.div_le_div_right (Nat.le_of_lt running)
    refine Int.ediv_le_of_le_mul (by exact_mod_cast accepted.periods_pos) ?_
    exact Int.mul_le_mul_of_nonneg_left (by exact_mod_cast passed) (by omega)
  · exact Int.le_refl _

theorem entitled_mono (accepted : op.Accepted) (order : elapsed ≤ later) :
    op.entitled elapsed ≤ op.entitled later := by
  by_cases running : later < op.vestingDurationSeconds
  · have positive := accepted.positive
    have passed : elapsed / op.periodDurationSeconds ≤ later / op.periodDurationSeconds :=
      Nat.div_le_div_right order
    rw [entitled, if_pos (Nat.lt_of_le_of_lt order running), entitled, if_pos running]
    refine Int.ediv_le_ediv (by exact_mod_cast accepted.periods_pos) ?_
    exact Int.mul_le_mul_of_nonneg_left (by exact_mod_cast passed) (by omega)
  · have ended : op.entitled later = op.balance.amount := if_neg running
    rw [ended]
    exact accepted.entitled_le

end CreateVestingBalanceOperation.Accepted

/-- A smaller product has the same quotient if it is smaller by no more than the remainder. -/
theorem sub_ediv_eq_iff {product less divisor : Int} (positive : 0 < divisor) (lower : 0 ≤ less) :
    (product - less) / divisor = product / divisor ↔ less ≤ product % divisor := by
  have split := Int.emod_add_mul_ediv product divisor
  have bound := Int.emod_lt_of_pos product positive
  have shifted : (product - less) / divisor =
      (product % divisor - less) / divisor + product / divisor := by
    rw [← Int.add_mul_ediv_left _ _ positive.ne']
    congr 1
    omega
  rw [shifted]
  constructor
  · intro same
    by_contra short
    have negative : (product % divisor - less) / divisor < 0 :=
      Int.ediv_neg_of_neg_of_pos (by omega) positive
    omega
  · intro enough
    rw [Int.ediv_eq_zero_of_lt (by omega) (by omega), Int.zero_add]

end Entitlement

/-- A vesting balance after a withdrawal. -/
def VestingBalance.less (vesting : VestingBalance) (amount : Int) : VestingBalance :=
  { vesting with
    balance := ⟨vesting.balance.amount - amount, deipSymbol⟩
    withdrawn := ⟨vesting.withdrawn.amount + amount, deipSymbol⟩ }

/-- The state after a withdrawal. -/
def State.withdrew (state : State) (vesting : VestingBalance) (amount : Int)
    (balances : List Balance) : State :=
  { state with
    balances
    vestings := modifyFirst (fun other => other.id == vesting.id)
      (fun other => { other with
        balance := (vesting.less amount).balance
        withdrawn := (vesting.less amount).withdrawn }) state.vestings }

/-! ## How a balance stands to its terms -/

/-- A vesting balance that was created at a time, in a later state. -/
structure Standing (op : CreateVestingBalanceOperation) (start : Time) (id : Nat) (state : State)
    (vesting : VestingBalance) : Prop where
  found : state.vestings.find? (fun vesting => vesting.id == id) = some vesting
  owner : vesting.owner = op.owner
  cliff : vesting.vestingCliffSeconds = op.vestingCliffSeconds
  duration : vesting.vestingDurationSeconds = op.vestingDurationSeconds
  period : vesting.periodDurationSeconds = op.periodDurationSeconds
  timestamp : vesting.startTimestamp = start
  balanceCore : vesting.balance.symbol = deipSymbol
  withdrawnCore : vesting.withdrawn.symbol = deipSymbol
  conserved : vesting.balance.amount + vesting.withdrawn.amount = op.balance.amount
  positive : 0 ≤ vesting.withdrawn.amount
  bounded : vesting.withdrawn.amount ≤ op.entitled (state.props.time - start)
  locked : state.props.time - start < op.vestingCliffSeconds → vesting.withdrawn.amount = 0
  begun : start ≤ state.props.time
  ownerExists : state.accountExists op.owner = true

namespace Standing

variable {op : CreateVestingBalanceOperation} {start : Time} {id : Nat} {state next : State}
  {vesting : VestingBalance}

theorem withdrawnOf_eq (standing : Standing op start id state vesting) :
    withdrawnOf state id = vesting.withdrawn.amount := by
  rw [withdrawnOf, standing.found]
  rfl

theorem leftOf_eq (standing : Standing op start id state vesting) :
    leftOf state id = vesting.balance.amount := by
  rw [leftOf, standing.found]
  rfl

theorem left_nonneg (standing : Standing op start id state vesting) (accepted : op.Accepted) :
    0 ≤ vesting.balance.amount := by
  have bounded := standing.bounded.trans accepted.entitled_le
  have conserved := standing.conserved
  omega

/-- What the evaluator takes for vested is what has vested of the rest. -/
theorem totalVested_eq (standing : Standing op start id state vesting) (accepted : op.Accepted)
    (elapsed : Nat) :
    totalVested vesting elapsed =
      if elapsed < op.vestingDurationSeconds then
        (op.balance.amount * (elapsed / op.periodDurationSeconds : Nat) -
            vesting.withdrawn.amount * (elapsed / op.periodDurationSeconds : Nat)) /
          (op.vestingDurationSeconds / op.periodDurationSeconds : Nat)
      else op.balance.amount - vesting.withdrawn.amount := by
  have left : vesting.balance.amount = op.balance.amount - vesting.withdrawn.amount := by
    have conserved := standing.conserved
    omega
  have positive := standing.left_nonneg accepted
  rw [totalVested, standing.duration, standing.period]
  by_cases running : elapsed < op.vestingDurationSeconds
  · rw [if_pos running, if_pos running, Int.tdiv_eq_ediv_of_nonneg, left, Int.sub_mul]
    exact Int.mul_nonneg positive (Int.natCast_nonneg _)
  · rw [if_neg running, if_neg running, left]

theorem totalVested_le (standing : Standing op start id state vesting) (accepted : op.Accepted)
    (elapsed : Nat) : totalVested vesting elapsed ≤ op.entitled elapsed := by
  have positive := standing.positive
  rw [standing.totalVested_eq accepted, CreateVestingBalanceOperation.entitled]
  split
  · refine Int.ediv_le_ediv (by exact_mod_cast accepted.periods_pos) ?_
    have product := Int.mul_nonneg positive
      (Int.natCast_nonneg (elapsed / op.periodDurationSeconds))
    omega
  · omega

/-- Nothing is missing from it exactly if the earlier withdrawals do not lower the quotient. -/
theorem totalVested_eq_entitled_iff (standing : Standing op start id state vesting)
    (accepted : op.Accepted) (elapsed : Nat) :
    totalVested vesting elapsed = op.entitled elapsed ↔
      if elapsed < op.vestingDurationSeconds then
        vesting.withdrawn.amount * (elapsed / op.periodDurationSeconds : Nat) ≤
          op.balance.amount * (elapsed / op.periodDurationSeconds : Nat) %
            (op.vestingDurationSeconds / op.periodDurationSeconds : Nat)
      else vesting.withdrawn.amount = 0 := by
  rw [standing.totalVested_eq accepted, CreateVestingBalanceOperation.entitled]
  split
  · exact sub_ediv_eq_iff (by exact_mod_cast accepted.periods_pos)
      (Int.mul_nonneg standing.positive (Int.natCast_nonneg _))
  · omega

/-- A new vesting balance stands to its terms. -/
theorem of_create {created : State} (accepted : op.Accepted)
    (applied : op.apply state = .ok created) : ∃ vesting,
      Standing op state.props.time state.vestings.length created vesting := by
  simp only [CreateVestingBalanceOperation.apply, bind_ok_iff, require_ok_iff, pure_ok_iff]
    at applied
  obtain ⟨_, _, _, ownerExists, _, _, _, _, _, _, balances, _, _, fresh, rfl⟩ := applied
  let vesting : VestingBalance :=
    { id := state.vestings.length
      owner := op.owner
      balance := op.balance
      withdrawn := ⟨0, deipSymbol⟩
      vestingCliffSeconds := op.vestingCliffSeconds
      vestingDurationSeconds := op.vestingDurationSeconds
      periodDurationSeconds := op.periodDurationSeconds
      startTimestamp := state.props.time }
  refine ⟨vesting, ?_, rfl, rfl, rfl, rfl, rfl, accepted.core, rfl, add_zero _, le_refl _, ?_,
    fun _ => rfl, le_refl _, ownerExists⟩
  · have absent : state.vestings.find? (fun vesting => vesting.id == state.vestings.length) =
        none := by
      rw [List.find?_eq_none]
      intro vesting member
      simpa using fresh vesting member
    rw [List.find?_append, absent, Option.none_or]
    exact List.find?_cons_of_pos (by exact beq_self_eq_true vesting.id)
  · exact accepted.entitled_nonneg

/-- Other things may happen, and time may pass. -/
theorem later (standing : Standing op start id state vesting) (accepted : op.Accepted)
    (found : next.vestings.find? (fun vesting => vesting.id == id) = some vesting)
    (onward : state.props.time ≤ next.props.time)
    (ownerExists : next.accountExists op.owner = true) : Standing op start id next vesting where
  found := found
  owner := standing.owner
  cliff := standing.cliff
  duration := standing.duration
  period := standing.period
  timestamp := standing.timestamp
  balanceCore := standing.balanceCore
  withdrawnCore := standing.withdrawnCore
  conserved := standing.conserved
  positive := standing.positive
  bounded := standing.bounded.trans (accepted.entitled_mono (Nat.sub_le_sub_right onward start))
  locked early := standing.locked (Nat.lt_of_le_of_lt (Nat.sub_le_sub_right onward start) early)
  begun := standing.begun.trans onward
  ownerExists := ownerExists

/-- A withdrawal from another vesting balance. -/
theorem withdraw_other (standing : Standing op start id state vesting) (accepted : op.Accepted)
    {withdraw : WithdrawVestingBalanceOperation} (other : withdraw.vestingBalanceId ≠ id)
    (applied : withdraw.apply state = .ok next) : Standing op start id next vesting := by
  simp only [WithdrawVestingBalanceOperation.apply, bind_ok_iff, require_ok_iff,
    expect_ok_iff] at applied
  obtain ⟨_, _, named, foundNamed, _, _, applied⟩ := applied
  split at applied
  · simp only [withdrawVesting, bind_ok_iff, pure_ok_iff] at applied
    obtain ⟨_, _, _, _, _, _, vestings, ⟨_, _, _, _, _, _, _, _, rfl⟩, balances, _, rfl⟩ := applied
    have own : named.id = withdraw.vestingBalanceId := by simpa using List.find?_some foundNamed
    have apart : id ≠ named.id := fun same => other (own.symm.trans same.symm)
    refine standing.later accepted ?_ (le_refl _) standing.ownerExists
    exact (find?_modifyFirst_ne apart (by exact fun _ => rfl) _).trans standing.found
  · obtain rfl := pure_ok_iff.mp applied
    exact standing

/-- A withdrawal from this one: it is open, and takes no more than is allowed. -/
theorem withdraw_own (standing : Standing op start id state vesting)
    {withdraw : WithdrawVestingBalanceOperation} (own : withdraw.vestingBalanceId = id)
    (applied : withdraw.apply state = .ok next) :
    next = state ∨ op.vestingCliffSeconds ≤ state.props.time - start ∧
      withdraw.amount.symbol = deipSymbol ∧
      withdraw.amount.amount ≤
        totalVested vesting (state.props.time - start) - vesting.withdrawn.amount ∧
      ∃ balances, adjustAccountBalance state.assets state.balances withdraw.owner withdraw.amount =
          .ok balances ∧
        next = state.withdrew vesting withdraw.amount.amount balances := by
  simp only [WithdrawVestingBalanceOperation.apply, bind_ok_iff, require_ok_iff,
    expect_ok_iff] at applied
  obtain ⟨_, _, named, foundNamed, _, _, applied⟩ := applied
  obtain rfl : named = vesting := Option.some.inj (foundNamed.symm.trans (own ▸ standing.found))
  split at applied
  · rename_i opened
    simp only [withdrawVesting, bind_ok_iff, require_ok_iff, pure_ok_iff, Asset.sub_ok_iff,
      Asset.add_ok_iff] at applied
    obtain ⟨_, _, _, _, _, allowed, vestings, ⟨_, _, _, _, _, ⟨same, rfl⟩, _, ⟨_, rfl⟩, rfl⟩,
      balances, adjusted, rfl⟩ := applied
    rw [standing.timestamp, standing.cliff] at opened
    rw [standing.timestamp] at allowed
    refine .inr ⟨opened.2, same.symm.trans standing.balanceCore, allowed, balances, adjusted, ?_⟩
    rw [standing.balanceCore, standing.withdrawnCore]
    rfl
  · exact .inl (pure_ok_iff.mp applied).symm

/-- What a withdrawal from this one leaves. -/
theorem withdraw (standing : Standing op start id state vesting) (accepted : op.Accepted)
    {amount : Int} (positive : 0 ≤ amount)
    (opened : op.vestingCliffSeconds ≤ state.props.time - start)
    (allowed : amount ≤ totalVested vesting (state.props.time - start) - vesting.withdrawn.amount)
    (balances : List Balance) :
    Standing op start id (state.withdrew vesting amount balances) (vesting.less amount) := by
  obtain rfl : vesting.id = id := by simpa using List.find?_some standing.found
  have vested := standing.totalVested_le accepted (state.props.time - start)
  have conserved := standing.conserved
  have before := standing.positive
  refine ⟨?_, standing.owner, standing.cliff, standing.duration, standing.period,
    standing.timestamp, rfl, rfl, ?_, ?_, ?_, ?_, standing.begun, standing.ownerExists⟩
  · rw [State.withdrew, find?_modifyFirst standing.found]
    · rfl
    · exact beq_self_eq_true vesting.id
  · dsimp only [VestingBalance.less]
    omega
  · dsimp only [VestingBalance.less]
    omega
  · dsimp only [VestingBalance.less, State.withdrew]
    omega
  · exact fun early => absurd opened (Nat.not_le.mpr early)

end Standing

section Runs

variable {percentOf : Int → Int → Int} {op : CreateVestingBalanceOperation} {start : Time}
  {id : Nat} {state next : State} {vesting : VestingBalance}

/-- Whatever is attempted, the balance stands to its terms. -/
theorem Standing.step {step : Step} (standing : Standing op start id state vesting)
    (accepted : op.Accepted) (onward : step.Onward state)
    (applied : step.apply percentOf state = .ok next) :
    ∃ later, Standing op start id next later := by
  have kept := Step.untouched applied
  have owner := (Step.extended applied).accountExists standing.ownerExists
  have still (vestings : step.writes .vestings = false) (time : step.writes .time = false) :
      ∃ later, Standing op start id next later := by
    refine ⟨vesting, standing.later accepted ?_ (kept.time time).ge owner⟩
    rw [kept.vestings vestings]
    exact standing.found
  cases step with
  | update headBlockNumber time =>
    refine ⟨vesting, standing.later accepted ?_ ?_ owner⟩
    · rw [kept.vestings rfl]
      exact standing.found
    · exact pure_ok_iff.mp applied ▸ onward
  | operation operation =>
    cases operation with
    | createVestingBalance create =>
      simp only [Step.apply, Operation.apply, Operation.evaluate,
        CreateVestingBalanceOperation.apply, bind_ok_iff, pure_ok_iff] at applied
      obtain ⟨_, _, _, _, _, _, _, _, _, _, _, _, _, _, balances, _, _, _, rfl⟩ := applied
      refine ⟨vesting, standing.later accepted ?_ (le_refl _) owner⟩
      rw [List.find?_append, standing.found]
      rfl
    | withdrawVestingBalance withdraw =>
      simp only [Step.apply, Operation.apply, bind_ok_iff] at applied
      obtain ⟨_, valid, _, _, evaluated⟩ := applied
      by_cases own : withdraw.vestingBalanceId = id
      · rcases standing.withdraw_own own evaluated with rfl | ⟨opened, _, allowed, balances, _, rfl⟩
        · exact ⟨vesting, standing⟩
        · simp only [Operation.validate, WithdrawVestingBalanceOperation.validate, bind_ok_iff,
            require_ok_iff] at valid
          obtain ⟨_, compared, rfl⟩ := valid
          have positive := (Asset.above_zero_iff.mp compared).2
          exact ⟨_, standing.withdraw accepted positive.le opened allowed balances⟩
      · exact ⟨vesting, standing.withdraw_other accepted own evaluated⟩
    | _ => exact still rfl rfl
  | _ => exact still rfl rfl

theorem Standing.run {later : List Step} {final : State}
    (standing : Standing op start id state vesting) (accepted : op.Accepted)
    (onward : Along (Step.attempt percentOf) (fun state step => step.Onward state) state later)
    (continued : later.foldlM (Step.attempt percentOf) state = .ok final) :
    ∃ vesting, Standing op start id final vesting := by
  refine foldlM_along (fun reached => ∃ vesting, Standing op start id reached vesting) ?_ onward
    ⟨vesting, standing⟩ continued
  rintro step reached next onward ⟨vesting, standing⟩ tried
  rcases Step.attempt_ok tried with applied | rfl
  · exact standing.step accepted onward applied
  · exact ⟨vesting, standing⟩

/-! ## What the owner can withdraw -/

theorem Standing.productFits_iff (standing : Standing op start id state vesting)
    (owner : Name) (amount : Asset) :
    WithdrawVestingBalanceOperation.productFits state ⟨id, owner, amount⟩ = true ↔
      (state.props.time - start < op.vestingDurationSeconds →
        FitsShare ((op.balance.amount - vesting.withdrawn.amount) *
          ((state.props.time - start) / op.periodDurationSeconds : Nat))) := by
  have left : vesting.balance.amount = op.balance.amount - vesting.withdrawn.amount := by
    have conserved := standing.conserved
    omega
  rw [WithdrawVestingBalanceOperation.productFits, standing.found, Option.all_some,
    decide_eq_true_iff, standing.timestamp, standing.duration, standing.period, left]

/-- The evaluator pays what it allows. -/
theorem Standing.applyChecked_ok (standing : Standing op start id state vesting)
    (accepted : op.Accepted) (opened : op.vestingCliffSeconds ≤ state.props.time - start)
    {amount : Int} (positive : 0 < amount)
    (fits : state.props.time - start < op.vestingDurationSeconds →
      FitsShare ((op.balance.amount - vesting.withdrawn.amount) *
        ((state.props.time - start) / op.periodDurationSeconds : Nat)))
    (allowed : amount ≤ totalVested vesting (state.props.time - start) - vesting.withdrawn.amount)
    {balances : List Balance}
    (adjusted : adjustAccountBalance state.assets state.balances op.owner ⟨amount, deipSymbol⟩ =
      .ok balances) :
    WithdrawVestingBalanceOperation.applyChecked state ⟨id, op.owner, ⟨amount, deipSymbol⟩⟩ =
      .ok (state.withdrew vesting amount balances) := by
  have vested := standing.totalVested_le accepted (state.props.time - start)
  have entitled : op.entitled (state.props.time - start) ≤ op.balance.amount :=
    accepted.entitled_le
  have conserved := standing.conserved
  have before := standing.positive
  simp only [WithdrawVestingBalanceOperation.applyChecked, WithdrawVestingBalanceOperation.validate,
    WithdrawVestingBalanceOperation.apply, bind_ok_iff, require_ok_iff, expect_ok_iff]
  refine ⟨(), ⟨true, Asset.above_zero_iff.mpr ⟨rfl, positive⟩, rfl⟩, (),
    (standing.productFits_iff _ _).mpr fits, (), standing.ownerExists, vesting, standing.found, (),
    standing.owner.symm, ?_⟩
  rw [standing.timestamp, standing.cliff, if_pos ⟨standing.begun, opened⟩]
  simp only [withdrawVesting, bind_ok_iff, require_ok_iff, pure_ok_iff, Asset.sub_ok_iff,
    Asset.add_ok_iff, Asset.atLeast_ok_iff]
  refine ⟨(), by omega, (), by omega, (), allowed, _, ⟨true, ⟨standing.balanceCore, ?_⟩, (), rfl, _,
    ⟨standing.balanceCore, rfl⟩, _, ⟨standing.withdrawnCore, rfl⟩, rfl⟩, balances, adjusted, ?_⟩
  · have covered : ¬ vesting.balance.amount < amount := by omega
    rw [decide_eq_false covered]
    rfl
  · rw [standing.balanceCore, standing.withdrawnCore]
    rfl

/-- A positive amount can be withdrawn after the cliff exactly if the product fits and the
    amount is covered by what the evaluator takes for vested. -/
theorem Standing.canWithdraw_iff (standing : Standing op start id state vesting)
    (accepted : op.Accepted)
    (listed : (state.assets.any fun asset => asset.symbol == deipSymbol) = true)
    (opened : op.vestingCliffSeconds ≤ state.props.time - start) {amount : Int}
    (positive : 0 < amount) :
    CanWithdraw state id op.owner amount ↔
      (state.props.time - start < op.vestingDurationSeconds →
        FitsShare ((op.balance.amount - vesting.withdrawn.amount) *
          ((state.props.time - start) / op.periodDurationSeconds : Nat))) ∧
      amount ≤ totalVested vesting (state.props.time - start) - vesting.withdrawn.amount := by
  constructor
  · rintro ⟨next, applied, taken, _⟩
    simp only [WithdrawVestingBalanceOperation.applyChecked, bind_ok_iff, require_ok_iff] at applied
    obtain ⟨_, _, _, fits, applied⟩ := applied
    refine ⟨(standing.productFits_iff _ _).mp fits, ?_⟩
    rcases standing.withdraw_own rfl applied with rfl | ⟨_, _, allowed, _⟩
    · omega
    · exact allowed
  · rintro ⟨fits, allowed⟩
    have credit (debit : amount < 0) : -amount ≤ free state.balances op.owner deipSymbol := by
      omega
    obtain ⟨balances, adjusted⟩ : ∃ balances, adjustAccountBalance state.assets state.balances
        op.owner ⟨amount, deipSymbol⟩ = .ok balances := adjustAccountBalance_succeeds listed credit
    have after := standing.withdraw accepted positive.le opened allowed balances
    refine ⟨_, standing.applyChecked_ok accepted opened positive fits allowed adjusted, ?_, ?_⟩
    · rw [after.withdrawnOf_eq, standing.withdrawnOf_eq]
      rfl
    · have paid := ((adjustAccountBalance_free adjusted).2 op.owner deipSymbol).1
      rwa [entry, if_pos ⟨rfl, rfl⟩] at paid

/-- The terms hold in a state exactly if the earlier withdrawals do not lower what is due. -/
theorem Standing.vestsAsAgreed_iff (standing : Standing op start id state vesting)
    (accepted : op.Accepted)
    (listed : (state.assets.any fun asset => asset.symbol == deipSymbol) = true) :
    VestsAsAgreed op start id state ↔
      op.Undiminished (withdrawnOf state id) (state.props.time - start) := by
  have taken := standing.withdrawnOf_eq
  have vested := standing.totalVested_le accepted (state.props.time - start)
  have full := standing.totalVested_eq_entitled_iff accepted (state.props.time - start)
  constructor
  · intro agreed opened due
    rw [taken] at due ⊢
    have possible := agreed.opened opened (op.entitled (state.props.time - start) -
      vesting.withdrawn.amount) (by omega) (by omega)
    obtain ⟨fits, allowed⟩ := (standing.canWithdraw_iff accepted listed opened (by omega)).mp possible
    have whole := full.mp (by omega)
    by_cases running : state.props.time - start < op.vestingDurationSeconds
    · rw [if_pos running] at whole ⊢
      exact ⟨whole, fits running⟩
    · rwa [if_neg running] at whole ⊢
  · intro undiminished
    have opened : op.vestingCliffSeconds ≤ state.props.time - start → ∀ amount, 0 < amount →
        withdrawnOf state id + amount ≤ op.entitled (state.props.time - start) →
          CanWithdraw state id op.owner amount := by
      intro opened amount positive due
      have condition := undiminished opened (by omega)
      rw [taken] at condition due
      rw [standing.canWithdraw_iff accepted listed opened positive]
      by_cases running : state.props.time - start < op.vestingDurationSeconds
      · rw [if_pos running] at condition full
        have whole := full.mpr condition.1
        exact ⟨fun _ => condition.2, by omega⟩
      · rw [if_neg running] at condition full
        have whole := full.mpr condition
        exact ⟨fun ends => absurd ends running, by omega⟩
    refine ⟨?_, taken ▸ standing.bounded, fun early => taken.trans (standing.locked early), opened,
      fun ended amount positive => ?_⟩
    · rw [taken, standing.leftOf_eq]
      exact standing.conserved
    · have after : op.vestingCliffSeconds ≤ state.props.time - start :=
        (accepted.cliff.trans_le ended).le
      have all : op.entitled (state.props.time - start) = op.balance.amount :=
        if_neg (Nat.not_lt.mpr ended)
      constructor
      · intro possible
        have allowed := ((standing.canWithdraw_iff accepted listed after positive).mp possible).2
        omega
      · intro covered
        exact opened after amount positive (by omega)

theorem attempts_sound {later : List Step} {final : State} (sound : Sound state)
    (continued : later.foldlM (Step.attempt percentOf) state = .ok final) : Sound final := by
  refine foldlM_invariant (fun _ reached => Sound reached) ?_ sound continued
  intro step rest reached next before tried
  rcases Step.attempt_ok tried with applied | rfl
  · exact (Step.apply_sound applied).sound before
  · exact before

end Runs

/-! ## Runs -/

/-- After any history of withdrawals and other steps, failed ones included, the terms of a
    vesting balance hold exactly if the withdrawals up to then do not lower what is due. -/
theorem run_vestsAsAgreed_iff (percentOf : Int → Int → Int) (genesis : GenesisState)
    (steps later : List Step) (state created final : State) (op : CreateVestingBalanceOperation)
    (ran : run percentOf genesis steps = .ok state) (valid : op.validate = .ok ())
    (applied : op.apply state = .ok created)
    (onward : Along (Step.attempt percentOf) (fun state step => step.Onward state) created later)
    (continued : later.foldlM (Step.attempt percentOf) created = .ok final) :
    VestsAsAgreed op state.props.time state.vestings.length final ↔
      op.Undiminished (withdrawnOf final state.vestings.length)
        (final.props.time - state.props.time) := by
  have accepted := CreateVestingBalanceOperation.accepted_of_validate valid
  obtain ⟨begun, standing⟩ := Standing.of_create accepted applied
  obtain ⟨vesting, reached⟩ := standing.run accepted onward continued
  have creates : Step.apply percentOf state (.operation (.createVestingBalance op)) =
      .ok created := by
    simp only [Step.apply, Operation.apply, bind_ok_iff]
    exact ⟨(), valid, (), rfl, applied⟩
  have sound := attempts_sound ((Step.apply_sound creates).sound (run_sound ran)) continued
  refine reached.vestsAsAgreed_iff accepted (List.any_eq_true.mpr ?_)
  obtain ⟨asset, member, core⟩ := List.mem_map.mp sound.assets.listed
  exact ⟨asset, member, beq_iff_eq.mpr core⟩

namespace Sample

/-- A hundred tokens in ten periods of ten seconds. -/
def vest : CreateVestingBalanceOperation where
  creator := "alice"
  owner := "bob"
  balance := ⟨100, deipSymbol⟩
  vestingDurationSeconds := 100
  vestingCliffSeconds := 0
  periodDurationSeconds := 10

/-- A part is withdrawn after five periods, and the time goes on to the end. -/
def withdrawPart (part : Int) : List Step :=
  [.update 1 51, .operation (.withdrawVestingBalance ⟨0, "bob", ⟨part, deipSymbol⟩⟩), .update 2 101]

/-- The balance as it is before the end, after a withdrawal that failed. -/
theorem vest_agreed : ∃ state created final,
    run percentOf genesis [] = .ok state ∧ vest.apply state = .ok created ∧
      (withdrawPart 60).foldlM (Step.attempt percentOf) created = .ok final ∧
      VestsAsAgreed vest state.props.time state.vestings.length final := by
  obtain ⟨⟨⟨state, created⟩, final⟩, computed, tested⟩ := exists_ok_of_any (do
      let state ← run percentOf genesis []
      let created ← vest.apply state
      let final ← (withdrawPart 60).foldlM (Step.attempt percentOf) created
      return ((state, created), final))
    (fun result => passes (Step.attempt percentOf) onward result.1.2 (withdrawPart 60) &&
      decide (vest.Undiminished (withdrawnOf result.2 result.1.1.vestings.length)
        (result.2.props.time - result.1.1.props.time))) (by decide +kernel)
  simp only [bind_ok_iff, pure_ok_iff, Prod.mk.injEq] at computed
  obtain ⟨_, ran, _, applied, _, continued, ⟨rfl, rfl⟩, rfl⟩ := computed
  rw [Bool.and_eq_true] at tested
  refine ⟨_, _, _, ran, applied, continued, ?_⟩
  exact (run_vestsAsAgreed_iff percentOf genesis [] _ _ _ _ vest ran (by decide) applied
    (Along.of_passes onward_of_test tested.1) continued).mpr (of_decide_eq_true tested.2)

/-- Who has withdrawn thirty of a hundred tokens cannot withdraw the others at the end. -/
theorem vest_short : ∃ state created final,
    run percentOf genesis [] = .ok state ∧ vest.validate = .ok () ∧
      vest.apply state = .ok created ∧
      Along (Step.attempt percentOf) (fun state step => step.Onward state) created
        (withdrawPart 30) ∧
      (withdrawPart 30).foldlM (Step.attempt percentOf) created = .ok final ∧
      ¬ VestsAsAgreed vest state.props.time state.vestings.length final := by
  obtain ⟨⟨⟨state, created⟩, final⟩, computed, tested⟩ := exists_ok_of_any (do
      let state ← run percentOf genesis []
      let created ← vest.apply state
      let final ← (withdrawPart 30).foldlM (Step.attempt percentOf) created
      return ((state, created), final))
    (fun result => passes (Step.attempt percentOf) onward result.1.2 (withdrawPart 30) &&
      (decide (100 ≤ result.2.props.time - result.1.1.props.time ∧
        withdrawnOf result.2 result.1.1.vestings.length = 30) &&
      !(WithdrawVestingBalanceOperation.applyChecked result.2
        ⟨result.1.1.vestings.length, "bob", ⟨70, deipSymbol⟩⟩).isOk)) (by decide +kernel)
  simp only [bind_ok_iff, pure_ok_iff, Prod.mk.injEq] at computed
  obtain ⟨_, ran, _, applied, _, continued, ⟨rfl, rfl⟩, rfl⟩ := computed
  simp only [Bool.and_eq_true, decide_eq_true_eq, Bool.not_eq_true'] at tested
  obtain ⟨along, ⟨ended, taken⟩, refused⟩ := tested
  refine ⟨_, _, _, ran, by decide, applied, Along.of_passes onward_of_test along, continued, ?_⟩
  intro agreed
  obtain ⟨next, withdrew, _⟩ := (agreed.whole ended 70 (by decide)).mpr (by rw [taken]; decide)
  rw [show vest.owner = "bob" from rfl] at withdrew
  rw [withdrew] at refused
  cases refused

end Sample

end DeipChain.Ledger
