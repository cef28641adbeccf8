import DeipChain.Ledger.WithdrawalWalks
import DeipChain.Lib.Installments

/-!
# The parts of a withdrawal

An operation schedules the withdrawal of a total in weekly parts. The parts come to the
total whatever the account gets in the meantime, and when the last one is withdrawn the
schedule is empty.
-/
namespace DeipChain.Ledger

open DeipChain.Result DeipChain.Table

/-! ## The schedule of an operation -/

namespace WithdrawCommonTokensOperation

/-- The number of weekly parts. -/
def parts (op : WithdrawCommonTokensOperation) : Nat :=
  Installments.count op.totalCommonTokensAmount op.rate

/-- When a withdrawal is due, and what it takes, for an operation at a given time. Behind the
    parts the schedule is empty. -/
def withdrawal (op : WithdrawCommonTokensOperation) (start : Time) (index : Nat) : Time × Int :=
  if index < op.parts then
    (start + (index + 1) * withdrawIntervalSeconds,
      Installments.part op.totalCommonTokensAmount op.rate index)
  else (maximumTime, 0)

/-- The account of the operation after some of its withdrawals. -/
structure Reached (op : WithdrawCommonTokensOperation) (start : Time) (done : Nat)
    (account : Account) : Prop where
  toWithdraw : account.toWithdraw = op.totalCommonTokensAmount
  withdrawn : account.withdrawn = min op.totalCommonTokensAmount (done * op.rate)
  rate : account.commonTokensWithdrawRate = if done < op.parts then op.rate else 0
  due : account.nextCommonTokensWithdrawal = (op.withdrawal start done).1
  covered : op.totalCommonTokensAmount - account.withdrawn ≤ account.commonTokensBalance

variable {op : WithdrawCommonTokensOperation} {start : Time} {done : Nat}

theorem rate_eq (positive : 0 < op.totalCommonTokensAmount) :
    op.rate = max 1 (op.totalCommonTokensAmount / withdrawIntervals) := by
  have weekly := Int.tdiv_eq_ediv_of_nonneg (b := withdrawIntervals) positive.le
  have sign : 0 ≤ op.totalCommonTokensAmount / withdrawIntervals :=
    Int.ediv_nonneg positive.le (by decide)
  rw [rate, weekly]
  split <;> omega

theorem rate_pos (positive : 0 < op.totalCommonTokensAmount) : 0 < op.rate := by
  rw [rate_eq positive]
  omega

theorem lt_parts_iff (positive : 0 < op.totalCommonTokensAmount) (index : Nat) :
    index < op.parts ↔ index * op.rate < op.totalCommonTokensAmount :=
  Installments.lt_count_iff (rate_pos positive)

namespace Reached

variable {account grown : Account}

theorem kept (reached : op.Reached start done account) (kept : account.Kept unscheduled grown) :
    op.Reached start done grown := by
  have schedule := kept.schedule rfl
  simp only [Prod.mk.injEq] at schedule
  obtain ⟨rate, next, withdrawn, toWithdraw⟩ := schedule
  have common := kept.common rfl
  refine ⟨toWithdraw.trans reached.toWithdraw, withdrawn.trans reached.withdrawn,
    rate.trans reached.rate, next.trans reached.due, ?_⟩
  rw [withdrawn]
  exact reached.covered.trans common

/-- What the pass computes is the part that is due. -/
theorem withdrawalAmount_eq (positive : 0 < op.totalCommonTokensAmount)
    (reached : op.Reached start done account) :
    withdrawalAmount account = .ok (op.withdrawal start done).2 := by
  obtain ⟨toWithdraw, withdrawn, rate, _, covered⟩ := reached
  have size := rate_pos positive
  have within := lt_parts_iff positive done
  rw [withdrawalAmount, withdrawal, toWithdraw, rate]
  by_cases more : done < op.parts
  · have rest := within.mp more
    rw [if_pos more, if_pos more, Installments.part]
    by_cases last : op.totalCommonTokensAmount - account.withdrawn < op.rate
    · have rest : op.totalCommonTokensAmount.tmod op.rate =
          op.totalCommonTokensAmount - done * op.rate :=
        Installments.tmod_eq_rest size (by omega) (by omega)
      rw [if_pos last, rest]
      simp only [bind_ok_iff, require_ok_iff, pure_ok_iff]
      exact ⟨(), by omega, by omega⟩
    · rw [if_neg last, pure_ok_iff]
      dsimp only
      omega
  · have exceeds := mt within.mpr more
    rw [if_neg more, if_neg more, if_neg (by omega), pure_ok_iff]
    dsimp only
    omega

/-- The withdrawal of a part reaches the next one. -/
theorem completed (positive : 0 < op.totalCommonTokensAmount)
    (reached : op.Reached start done account) :
    op.Reached start (done + 1) (completeWithdrawal (op.withdrawal start done).2 account) := by
  obtain ⟨toWithdraw, withdrawn, rate, due, covered⟩ := reached
  have size := rate_pos positive
  have within := lt_parts_iff positive done
  have beyond := lt_parts_iff positive (done + 1)
  push_cast at beyond
  rw [add_mul, one_mul] at beyond
  have taken : account.withdrawn + (op.withdrawal start done).2 =
      min op.totalCommonTokensAmount (done * op.rate + op.rate) := by
    rw [withdrawal]
    by_cases more : done < op.parts
    · have rest := within.mp more
      rw [if_pos more, Installments.part]
      dsimp only
      omega
    · have exceeds := mt within.mpr more
      rw [if_neg more]
      dsimp only
      omega
  have ends : withdrawalEnds (op.withdrawal start done).2 account = true ↔
      ¬ done + 1 < op.parts := by
    rw [withdrawalEnds, Bool.or_eq_true, decide_eq_true_iff, beq_iff_eq, beyond, toWithdraw, taken]
    omega
  refine ⟨toWithdraw, ?_, ?_, ?_, ?_⟩
  · push_cast
    rw [add_mul, one_mul]
    exact taken
  · dsimp only [completeWithdrawal]
    by_cases more : done + 1 < op.parts
    · rw [if_neg (mt ends.mp (not_not.mpr more)), if_pos more, rate, if_pos (by omega)]
    · rw [if_pos (ends.mpr more), if_neg more]
  · dsimp only [completeWithdrawal]
    by_cases more : done + 1 < op.parts
    · rw [if_neg (mt ends.mp (not_not.mpr more)), due, withdrawal, withdrawal, if_pos more,
        if_pos (by omega)]
      dsimp only
      rw [Nat.add_mul (done + 1), one_mul, add_assoc]
    · rw [if_pos (ends.mpr more), withdrawal, if_neg more]
  · dsimp only [completeWithdrawal]
    omega

end Reached

end WithdrawCommonTokensOperation

/-! ## Recorded withdrawals -/

/-- The visits of a step. -/
def Step.visits (state : State) : Step → List Visit
  | processCommonTokensWithdrawals => processVisits state
  | _ => []

/-- The visits of steps in a row. -/
def visitsAlong (percentOf : Int → Int → Int) : State → List Step → List Visit
  | _, [] => []
  | state, step :: rest => step.visits state ++
      match step.apply percentOf state with
      | .ok next => visitsAlong percentOf next rest
      | .error _ => []

/-- The withdrawals from one account: when each of them was due, and its amount. -/
def withdrawalsFrom (name : Name) (visits : List Visit) : List (Time × Int) :=
  (visits.filter fun visit => visit.account.name == name).map fun visit =>
    (visit.account.nextCommonTokensWithdrawal, visit.amount)

theorem withdrawalsFrom_append (name : Name) (first second : List Visit) :
    withdrawalsFrom name (first ++ second) =
      withdrawalsFrom name first ++ withdrawalsFrom name second := by
  rw [withdrawalsFrom, List.filter_append, List.map_append]
  rfl

section Runs

variable {percentOf : Int → Int → Int} {op : WithdrawCommonTokensOperation} {start : Time}
  {done place : Nat} {row : Account} {state next : State}

/-- The account of the operation has come so far, in its place of the table. -/
structure Underway (op : WithdrawCommonTokensOperation) (start : Time) (place done : Nat)
    (state : State) : Prop where
  row : ∃ row, state.accounts[place]? = some row ∧ row.name = op.account ∧
    op.Reached start done row

theorem Underway.of_extended {written : Part → Bool} (underway : Underway op start place done state)
    (extended : Extended written state.accounts next.accounts)
    (unwritten : written .schedules = false) : Underway op start place done next := by
  obtain ⟨row, found, own, reached⟩ := underway.row
  obtain ⟨later, met, kept⟩ := extended.rows place row found
  have weaker : row.Kept unscheduled later := kept.weaken fun part same => by
    obtain rfl : part = .schedules := by simpa [unscheduled] using same
    exact unwritten
  exact ⟨later, met, kept.name.trans own, reached.kept weaker⟩

/-- A walk takes the parts of the operation in their order.

Proof: induction on the walk. A visit of the account takes the part that is due, and a visit
of another account leaves the row as far as the operation depends on it. -/
theorem Walk.takes_parts (positive : 0 < op.totalCommonTokensAmount) {due : Option Account}
    {visits : List Visit} (walk : Walk state due visits next) (listed : Listed state.accounts)
    (underway : Underway op start place done state) :
    ∃ more, withdrawalsFrom op.account visits =
      (List.range' done more).map (op.withdrawal start) ∧
      Underway op start place (done + more) next := by
  induction walk generalizing done with
  | ended state => exact ⟨0, rfl, underway⟩
  | waits got early => exact ⟨0, rfl, underway⟩
  | @visits state middle next due account amount later got reached computed withdrew rest hypothesis =>
    obtain ⟨row, found, own, begun⟩ := underway.row
    obtain ⟨grown, after, kept, met, stays⟩ :=
      withdrawCommonTokens_row listed.named computed withdrew found
    have onward := listed.visited got withdrew
    by_cases same : account.name = op.account
    · obtain rfl : row = account := by
        obtain ⟨at_, _, _⟩ := listed.row got
        obtain rfl := listed.named.row_unique found at_ (own.trans same.symm)
        exact Option.some.inj (found.symm.trans at_)
      rw [if_pos rfl] at stays
      have part : amount = (op.withdrawal start done).2 :=
        Except.ok.inj (computed.symm.trans (begun.withdrawalAmount_eq positive))
      have completes : op.Reached start (done + 1) after := by
        rw [part] at stays
        exact ((begun.kept kept).completed positive).kept stays
      have named : after.name = op.account := stays.name.trans (kept.name.trans own)
      obtain ⟨more, taken, ends⟩ := hypothesis onward ⟨after, met, named, completes⟩
      refine ⟨more + 1, ?_, ?_⟩
      · have head : withdrawalsFrom op.account [⟨state, row, amount, middle⟩] =
            [op.withdrawal start done] := by
          simp only [withdrawalsFrom, List.filter_cons, same, beq_self_eq_true, if_true,
            List.filter_nil, List.map_cons, List.map_nil]
          exact congrArg (· :: []) (Prod.ext begun.due part)
        rw [List.range'_succ, List.map_cons, ← taken, ← List.singleton_append,
          withdrawalsFrom_append, head, List.singleton_append]
      · rwa [Nat.add_assoc, Nat.add_comm 1] at ends
    · rw [if_neg (own ▸ Ne.symm same)] at stays
      have still : op.Reached start done after := begun.kept (kept.trans stays)
      have named : after.name = op.account := stays.name.trans (kept.name.trans own)
      obtain ⟨more, taken, ends⟩ := hypothesis onward ⟨after, met, named, still⟩
      refine ⟨more, ?_, ends⟩
      have head : withdrawalsFrom op.account [⟨state, account, amount, middle⟩] = [] := by
        simp [withdrawalsFrom, same]
      rw [← taken, ← List.singleton_append, withdrawalsFrom_append, head, List.nil_append]

/-- An operation writes the schedule of its own account. -/
theorem WithdrawCommonTokensOperation.apply_written (applied : op.apply state = .ok next) :
    ∃ account, state.getAccount op.account = .ok account ∧
      op.totalCommonTokensAmount ≤ account.commonTokensBalance ∧
      ∃ rate time, next = updateWithdraw state op.account rate time op.totalCommonTokensAmount ∧
        (op.totalCommonTokensAmount ≠ 0 →
          rate = op.rate ∧ time = state.props.time + withdrawIntervalSeconds) := by
  simp only [apply, bind_ok_iff, require_ok_iff] at applied
  obtain ⟨account, got, _, _, _, enough, _, _, applied⟩ := applied
  have own : account.name = op.account := by
    simpa using List.find?_some (expect_ok_iff.mp got)
  refine ⟨account, got, enough, ?_⟩
  by_cases none : op.totalCommonTokensAmount = 0
  · simp only [if_pos none, bind_ok_iff, pure_ok_iff] at applied
    obtain ⟨_, _, rfl⟩ := applied
    exact ⟨0, maximumTime, by rw [own, none], absurd none⟩
  · simp only [if_neg none, bind_ok_iff, pure_ok_iff] at applied
    obtain ⟨_, _, rfl⟩ := applied
    exact ⟨op.rate, _, by rw [own], fun _ => ⟨rfl, rfl⟩⟩

/-- The operation begins its schedule. -/
theorem WithdrawCommonTokensOperation.apply_begins (positive : 0 < op.totalCommonTokensAmount)
    (named : Named state.accounts) (applied : op.apply state = .ok next) :
    ∃ place, Underway op state.props.time place 0 next := by
  obtain ⟨account, got, enough, _, _, rfl, scheduled⟩ := apply_written applied
  obtain ⟨rfl, rfl⟩ := scheduled positive.ne'
  have located := expect_ok_iff.mp got
  have own : account.name = op.account := by simpa using List.find?_some located
  obtain ⟨place, found⟩ := List.mem_iff_getElem?.mp (List.mem_of_find?_eq_some located)
  have more : 0 < op.parts := by
    rw [lt_parts_iff positive]
    simpa using positive
  refine ⟨place, _, getElem?_modifyAccount named found, ?_⟩
  rw [if_pos own]
  refine ⟨own, rfl, ?_, (if_pos more).symm, ?_, ?_⟩
  · rw [Nat.cast_zero, zero_mul]
    exact (min_eq_right positive.le).symm
  · rw [withdrawal, if_pos more, Nat.zero_add, one_mul]
  · dsimp only
    omega

/-- The step is no other withdrawal operation of the account. -/
def Step.undisturbed (name : Name) : Step → Bool
  | operation (.withdrawCommonTokens op) => op.account != name
  | _ => true

theorem Step.takes_parts {step : Step} (positive : 0 < op.totalCommonTokensAmount)
    (undisturbed : step.undisturbed op.account = true) (listed : Listed state.accounts)
    (applied : step.apply percentOf state = .ok next)
    (underway : Underway op start place done state) :
    ∃ more, withdrawalsFrom op.account (step.visits state) =
      (List.range' done more).map (op.withdrawal start) ∧
      Underway op start place (done + more) next := by
  have nothing (unwritten : step.writes .schedules = false) (none : step.visits state = []) :
      ∃ more, withdrawalsFrom op.account (step.visits state) =
        (List.range' done more).map (op.withdrawal start) ∧
        Underway op start place (done + more) next :=
    ⟨0, by rw [none]; rfl, underway.of_extended (Step.extended applied) unwritten⟩
  cases step with
  | processCommonTokensWithdrawals =>
    exact (walk_of_process applied).takes_parts positive listed underway
  | operation other =>
    cases other with
    | withdrawCommonTokens other =>
      refine ⟨0, rfl, ?_⟩
      simp only [apply, Operation.apply, Operation.evaluate, bind_ok_iff] at applied
      obtain ⟨_, _, _, _, applied⟩ := applied
      obtain ⟨_, _, _, rate, time, rfl, _⟩ := other.apply_written applied
      obtain ⟨row, found, own, reached⟩ := underway.row
      have apart : row.name ≠ other.account := own ▸ (bne_iff_ne.mp undisturbed).symm
      refine ⟨row, (getElem?_modifyAccount listed.named found).trans ?_, own, reached⟩
      rw [if_neg apart]
    | _ => exact nothing rfl rfl
  | _ => exact nothing rfl rfl

theorem run_listed {genesis : GenesisState} {steps : List Step}
    (ran : run percentOf genesis steps = .ok state) : Listed state.accounts :=
  ⟨(run_sound ran).named, run_numbered ran⟩

theorem Step.listed {step : Step} (sound : Sound state) (listed : Listed state.accounts)
    (applied : step.apply percentOf state = .ok next) : Listed next.accounts :=
  ⟨((Step.apply_sound applied).sound sound).named, (Step.extended applied).numbered listed.numbered⟩

/-- Steps in a row take the parts of the operation in their order. -/
theorem steps_take_parts {steps : List Step} (positive : 0 < op.totalCommonTokensAmount)
    (undisturbed : ∀ step ∈ steps, step.undisturbed op.account = true) (sound : Sound state)
    (listed : Listed state.accounts) (ran : steps.foldlM (Step.apply percentOf) state = .ok next)
    (underway : Underway op start place done state) :
    ∃ more, withdrawalsFrom op.account (visitsAlong percentOf state steps) =
      (List.range' done more).map (op.withdrawal start) ∧
      Underway op start place (done + more) next ∧ Listed next.accounts := by
  induction steps generalizing state done with
  | nil =>
    rw [List.foldlM_nil, pure_ok_iff] at ran
    exact ⟨0, rfl, ran ▸ underway, ran ▸ listed⟩
  | cons step rest hypothesis =>
    rw [List.foldlM_cons, bind_ok_iff] at ran
    obtain ⟨middle, applied, later⟩ := ran
    rw [List.forall_mem_cons] at undisturbed
    obtain ⟨some, taken, onward⟩ := step.takes_parts positive undisturbed.1 listed applied underway
    obtain ⟨more, takes, ends, lists⟩ := hypothesis undisturbed.2
      ((Step.apply_sound applied).sound sound) (Step.listed sound listed applied) later onward
    refine ⟨some + more, ?_, ?_, lists⟩
    · rw [visitsAlong, applied, withdrawalsFrom_append, taken]
      dsimp only
      rw [takes, ← List.map_append, List.range'_append_1]
    · rwa [← Nat.add_assoc]

/-- The withdrawal of a total from an account that is not disturbed by another operation. Its
visits take the parts of the total in their order, a week apart, and each of them is due when
it is taken; a part that is due is taken by the next pass. The parts come to the total, and
behind them nothing is scheduled. -/
theorem run_withdrawals (percentOf : Int → Int → Int) (genesis : GenesisState)
    (steps later : List Step) (op : WithdrawCommonTokensOperation) (state begun final : State)
    (ran : run percentOf genesis steps = .ok state) (positive : 0 < op.totalCommonTokensAmount)
    (started : Step.apply percentOf state (.operation (.withdrawCommonTokens op)) = .ok begun)
    (undisturbed : ∀ step ∈ later, step.undisturbed op.account = true)
    (continued : later.foldlM (Step.apply percentOf) begun = .ok final) :
    op.rate = max 1 (op.totalCommonTokensAmount / withdrawIntervals) ∧
    ((List.range op.parts).map (Prod.snd ∘ op.withdrawal state.props.time)).sum =
      op.totalCommonTokensAmount ∧
    ∃ done, withdrawalsFrom op.account (visitsAlong percentOf begun later) =
        (List.range done).map (op.withdrawal state.props.time) ∧
      ∃ account, final.getAccount op.account = .ok account ∧
        account.nextCommonTokensWithdrawal = (op.withdrawal state.props.time done).1 ∧
        account.commonTokensWithdrawRate = (if done < op.parts then op.rate else 0) ∧
        ((op.withdrawal state.props.time done).1 ≤ final.props.time →
          ∀ after, processCommonTokensWithdrawals final = .ok after →
            withdrawalsFrom op.account (processVisits final) ≠ []) := by
  have size := WithdrawCommonTokensOperation.rate_pos positive
  have sound := run_sound ran
  have listed := run_listed ran
  have soundBegun := (Step.apply_sound started).sound sound
  have listedBegun := Step.listed sound listed started
  obtain ⟨place, begins⟩ : ∃ place, Underway op state.props.time place 0 begun := by
    obtain ⟨_, _, _, _, applied⟩ := by
      simpa only [Step.apply, Operation.apply, bind_ok_iff] using started
    exact op.apply_begins positive listed.named applied
  obtain ⟨done, taken, ends, lists⟩ :=
    steps_take_parts positive undisturbed soundBegun listedBegun continued begins
  rw [Nat.zero_add] at ends
  obtain ⟨account, found, own, reached⟩ := ends.row
  have member := List.mem_of_getElem? found
  refine ⟨op.rate_eq positive, ?_, done, by rw [taken, List.range_eq_range'], account, ?_,
    reached.due, reached.rate, fun due after processed => ?_⟩
  · rw [← Installments.sum_all size positive.le]
    refine congrArg List.sum (List.map_congr_left fun index within => ?_)
    exact congrArg Prod.snd (if_pos (List.mem_range.mp within))
  · rw [State.getAccount, expect_ok_iff, ← own]
    exact find?_of_nodup lists.named member
  · obtain ⟨visit, visited, named⟩ :=
      processVisits_due lists processed member (reached.due.trans_le due)
    refine List.ne_nil_of_mem (List.mem_map_of_mem (List.mem_filter.mpr ⟨visited, ?_⟩))
    exact beq_iff_eq.mpr (named.trans own)

/-- The passes of some weeks. -/
def Sample.weeks (count : Nat) : List Step :=
  (List.range count).flatMap fun week =>
    [.update (week + 2) (1 + (week + 1) * withdrawIntervalSeconds), .processCommonTokensWithdrawals]

/-- Three tokens are withdrawn in as many weeks. -/
theorem run_withdrawals_sample : ∃ state begun final done,
    run Sample.percentOf Sample.genesis
      [.operation (.transferToCommonTokens ⟨"alice", "alice", ⟨100, deipSymbol⟩⟩)] = .ok state ∧
    Step.apply Sample.percentOf state (.operation (.withdrawCommonTokens ⟨"alice", 3⟩)) =
      .ok begun ∧
    (Sample.weeks 3).foldlM (Step.apply Sample.percentOf) begun = .ok final ∧
    withdrawalsFrom "alice" (visitsAlong Sample.percentOf begun (Sample.weeks 3)) =
      (List.range done).map
        ((WithdrawCommonTokensOperation.mk "alice" 3).withdrawal state.props.time) := by
  obtain ⟨final, ran⟩ : ∃ final, (do
      let state ← run Sample.percentOf Sample.genesis
        [.operation (.transferToCommonTokens ⟨"alice", "alice", ⟨100, deipSymbol⟩⟩)]
      let begun ← Step.apply Sample.percentOf state (.operation (.withdrawCommonTokens ⟨"alice", 3⟩))
      (Sample.weeks 3).foldlM (Step.apply Sample.percentOf) begun) = .ok final :=
    exists_ok _ (by decide +kernel)
  obtain ⟨state, ran, rest⟩ := bind_ok_iff.mp ran
  obtain ⟨begun, started, continued⟩ := bind_ok_iff.mp rest
  obtain ⟨_, _, done, taken, _⟩ := run_withdrawals _ _ _ _ _ _ _ _ ran (by decide) started
    (by decide) continued
  exact ⟨state, begun, final, done, ran, started, continued, taken⟩

end Runs

end DeipChain.Ledger
