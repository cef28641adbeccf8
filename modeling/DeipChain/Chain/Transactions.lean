import DeipChain.Chain.Invariance
import DeipChain.Chain.Irreversible
import DeipChain.Lib.Result
import Mathlib.Data.List.TakeWhile

/-!
# Transactions and the index of those already applied

`_apply_transaction` remembers every transaction in an index until it has expired, and
refuses one that is in the index or that has expired. `Body` names the two parts of the
object store this needs, the time of the head block and the index; the rest is of any
type, and `Evaluators` holds the programs on it. `processing` puts them together to what
`_apply_block` runs, under the skip flags of the call.

Whether an id can come back depends on three comparisons: a transaction is applied only
while the time of the head is below its expiration, it is forgotten only when that time
is above it, and the time of every block is above that of the block below. Before the
first block no time is checked, and nothing has been forgotten. `Guarded` is what they
keep, along a chain and along every run of the node.
-/
namespace DeipChain.Chain

open Snapshots Result

/-- `DEIP_MAX_TIME_UNTIL_EXPIRATION` -/
def maxTimeUntilExpiration : Nat := 60 * 60

/-- `transaction_object` -/
structure TransactionObject (TxId Tx : Type) where
  trxId : TxId
  expiration : Nat
  packedTrx : Tx
  deriving DecidableEq

/-- The objects besides the core: `head_block_time()`, the index of transactions in the
order of `by_expiration`, and all others. -/
structure Body (TxId Tx Rest : Type) where
  time : Nat
  transactions : List (TransactionObject TxId Tx)
  rest : Rest
  deriving DecidableEq

/-- The skip flags that `_apply_block` and `_apply_transaction` look at. -/
structure SkipFlags where
  witnessSignature : Bool
  transactionSignatures : Bool
  transactionDupeCheck : Bool
  taposCheck : Bool
  authorityCheck : Bool
  merkleCheck : Bool
  witnessScheduleCheck : Bool
  validate : Bool

/-- `skip_nothing` -/
def SkipFlags.nothing : SkipFlags :=
  { witnessSignature := false, transactionSignatures := false, transactionDupeCheck := false,
    taposCheck := false, authorityCheck := false, merkleCheck := false,
    witnessScheduleCheck := false, validate := false }

/-- A program on the rest of the objects that may read the core and the time. -/
abbrev RestStep (Id Rest : Type) := Core Id → Nat → Rest → Script Rest ChainError

/-- A check of the rest of the objects. -/
abbrev RestCheck (Id Rest : Type) := Core Id → Nat → Rest → Except ChainError Unit

/-- The fields of blocks and transactions that are read here, and the parts of
`_apply_block` and `_apply_transaction` that act on the rest of the objects. -/
structure Evaluators (Id Tx H TxId Rest : Type) where
  trxId : Tx → TxId
  trxId_injective : Function.Injective trxId
  expiration : Tx → Nat
  refBlockNum : Tx → Nat
  refBlockPrefix : Tx → Nat
  idPrefix : Id → Nat
  timestamp : H → Nat
  merkleMatches : Block Id Tx H → Bool
  validateSignee : Block Id Tx H → RestCheck Id Rest
  scheduledWitness : Block Id Tx H → RestCheck Id Rest
  beginBlock : Block Id Tx H → RestStep Id Rest
  validate : Tx → Except ChainError Unit
  verifyAuthority : Tx → RestCheck Id Rest
  operations : Tx → RestStep Id Rest
  updateSlots : Block Id Tx H → RestStep Id Rest
  updateSigningWitness : Block Id Tx H → RestStep Id Rest
  currentShuffledWitnesses : Rest → List String
  clearExpiredRecentEntities : Block Id Tx H → RestStep Id Rest
  clearExpiredProposals : RestStep Id Rest
  clearExpiredDisciplineSupplies : RestStep Id Rest
  updateWitnessSchedule : RestStep Id Rest
  processResearchTokenSales : RestStep Id Rest
  processFunds : RestStep Id Rest
  processCommonTokensWithdrawals : RestStep Id Rest
  processAccountRecovery : RestStep Id Rest
  processHardforks : RestStep Id Rest
  processDisciplineSupplies : RestStep Id Rest
  processExpertiseAllocationProposals : RestStep Id Rest
  processNdaContracts : RestStep Id Rest
  notifyAppliedBlock : Block Id Tx H → RestStep Id Rest

variable {Id Tx H TxId Rest : Type}

/-- A program on the rest as one on the body. -/
def restStep (step : RestStep Id Rest) : BodyStep Id (Body TxId Tx Rest) :=
  fun core body =>
    (step core body.time body.rest).onto (fun rest => { body with rest := rest })

/-- A check that a skip flag leaves out. -/
def unlessSkipped (flag : Bool) (check : Except ChainError Unit) : Except ChainError Unit :=
  if flag then .ok () else check

/-- A check and what comes after it. -/
def guarding {S : Type} (check : Except ChainError Unit) (next : Script S ChainError) :
    Script S ChainError :=
  match check with
  | .ok _ => next
  | .error thrown => .throw thrown

/-- The place of a new object in the order of `by_expiration`: after those that expire
no later. -/
def insertByExpiration (object : TransactionObject TxId Tx) :
    List (TransactionObject TxId Tx) → List (TransactionObject TxId Tx)
  | [] => [object]
  | first :: more =>
    if object.expiration < first.expiration then object :: first :: more
    else first :: insertByExpiration object more

/-- The objects left by `clear_expired_transactions`. -/
def unexpired (time : Nat) (objects : List (TransactionObject TxId Tx)) :
    List (TransactionObject TxId Tx) :=
  objects.dropWhile (fun object => decide (time > object.expiration))

namespace Evaluators

variable [DecidableEq TxId] (hashing : Hashing Id Tx H) (evaluators : Evaluators Id Tx H TxId Rest)
  (skip : SkipFlags)

/-- `is_known_transaction` -/
def isKnownTransaction (transaction : Tx) (body : Body TxId Tx Rest) : Bool :=
  body.transactions.any (fun object => object.trxId = evaluators.trxId transaction)

/-- The checks of `_apply_transaction` against the head block; on block 1 there are
none. -/
def checkAgainstHead (transaction : Tx) (core : Core Id) (body : Body TxId Tx Rest) :
    Except ChainError Unit :=
  if core.headBlockNumber > 0 then do
    let summary := core.blockSummary[evaluators.refBlockNum transaction]?.getD hashing.null
    unlessSkipped skip.taposCheck
      (require (evaluators.refBlockPrefix transaction = evaluators.idPrefix summary)
        (.rejected "transaction_tapos_exception"))
    require (evaluators.expiration transaction ≤ body.time + maxTimeUntilExpiration)
      (.rejected "transaction_expiration_exception")
    require (body.time < evaluators.expiration transaction)
      (.rejected "transaction_expiration_exception")
  else pure ()

/-- The checks of `_apply_transaction`. -/
def checkTransaction (transaction : Tx) (core : Core Id) (body : Body TxId Tx Rest) :
    Except ChainError Unit := do
  unlessSkipped skip.validate (evaluators.validate transaction)
  unlessSkipped skip.transactionDupeCheck
    (require (evaluators.isKnownTransaction transaction body = false)
      (.rejected "Duplicate transaction check failed"))
  unlessSkipped (skip.transactionSignatures || skip.authorityCheck)
    (evaluators.verifyAuthority transaction core body.time body.rest)
  evaluators.checkAgainstHead hashing skip transaction core body

/-- `create<transaction_object>`, left out with the duplicate check. -/
def remember (transaction : Tx) (body : Body TxId Tx Rest) : Body TxId Tx Rest :=
  if skip.transactionDupeCheck then body
  else { body with
    transactions := insertByExpiration
      { trxId := evaluators.trxId transaction
        expiration := evaluators.expiration transaction
        packedTrx := transaction } body.transactions }

/-- `_apply_transaction` -/
def applyTransaction (transaction : Tx) : BodyStep Id (Body TxId Tx Rest) :=
  fun core body =>
    guarding (evaluators.checkTransaction hashing skip transaction core body)
      (let remembered := evaluators.remember skip transaction body
       .write remembered (restStep (evaluators.operations transaction) core remembered))

/-- The body's part of `validate_block_header`, then `_apply_block` up to the
transactions. -/
def openBlock (block : Block Id Tx H) : BodyStep Id (Body TxId Tx Rest) :=
  fun core body =>
    guarding (do
        require (body.time < evaluators.timestamp block.header)
          (.rejected "head_block_time() < next_block.timestamp")
        unlessSkipped skip.witnessSignature
          (evaluators.validateSignee block core body.time body.rest)
        unlessSkipped skip.witnessScheduleCheck
          (evaluators.scheduledWitness block core body.time body.rest))
      (restStep (evaluators.beginBlock block) core body)

/-- The body's part of `update_global_dynamic_data`. The slots are counted from the old
time. -/
def updateTime (block : Block Id Tx H) : BodyStep Id (Body TxId Tx Rest) :=
  fun core body =>
    let timed := { body with time := evaluators.timestamp block.header }
    .write timed ((evaluators.updateSlots block core body.time body.rest).onto
      (fun rest => { timed with rest := rest }))

/-- `clear_expired_transactions` -/
def clearExpiredTransactions : BodyStep Id (Body TxId Tx Rest) :=
  fun _ body => .write { body with transactions := unexpired body.time body.transactions } .done

/-- What `_apply_block` runs under the skip flags. -/
def processing : Processing Id Tx H (Body TxId Tx Rest) where
  merkleMatches block := skip.merkleCheck || evaluators.merkleMatches block
  beginBlock := evaluators.openBlock skip
  applyTransaction := evaluators.applyTransaction hashing skip
  updateGlobalDynamicData := evaluators.updateTime
  updateSigningWitness block := restStep (evaluators.updateSigningWitness block)
  currentShuffledWitnesses body := evaluators.currentShuffledWitnesses body.rest
  clearExpiredTransactions := clearExpiredTransactions
  clearExpiredRecentEntities block := restStep (evaluators.clearExpiredRecentEntities block)
  clearExpiredProposals := restStep evaluators.clearExpiredProposals
  clearExpiredDisciplineSupplies := restStep evaluators.clearExpiredDisciplineSupplies
  updateWitnessSchedule := restStep evaluators.updateWitnessSchedule
  processResearchTokenSales := restStep evaluators.processResearchTokenSales
  processFunds := restStep evaluators.processFunds
  processCommonTokensWithdrawals := restStep evaluators.processCommonTokensWithdrawals
  processAccountRecovery := restStep evaluators.processAccountRecovery
  processHardforks := restStep evaluators.processHardforks
  processDisciplineSupplies := restStep evaluators.processDisciplineSupplies
  processExpertiseAllocationProposals := restStep evaluators.processExpertiseAllocationProposals
  processNdaContracts := restStep evaluators.processNdaContracts
  notifyAppliedBlock block := restStep (evaluators.notifyAppliedBlock block)
  isKnownTransaction := evaluators.isKnownTransaction

end Evaluators

section Laws

variable {state reached : ChainState Id (Body TxId Tx Rest)}

theorem outcomeMap_ok {R S : Type} {embed : R → S} {result : Snapshots.Outcome ChainError R}
    {reached : S} :
    outcomeMap embed result = .ok () reached ↔
      ∃ part, result = .ok () part ∧ reached = embed part := by
  cases result with
  | ok _ part => simp [outcomeMap, eq_comm]
  | error thrown part => simp [outcomeMap]

theorem eval_guarding {S : Type} {check : Except ChainError Unit} {next : Script S ChainError}
    {state reached : S} :
    (guarding check next).eval state = .ok () reached ↔
      check = .ok () ∧ next.eval state = .ok () reached := by
  cases check with
  | ok _ => simp [guarding]
  | error thrown => simp [guarding, Script.eval]

theorem eval_restStep (step : RestStep Id Rest) (core : Core Id) (body : Body TxId Tx Rest) :
    (restStep step core body).eval body =
      outcomeMap (fun rest => { body with rest := rest })
        ((step core body.time body.rest).eval body.rest) :=
  Script.eval_onto (fun rest => ({ body with rest := rest } : Body TxId Tx Rest))
    (step core body.time body.rest) body.rest

/-- A program on the body of a state. -/
theorem bodyStep_ok {step : BodyStep Id (Body TxId Tx Rest)} :
    (bodyStep step state).eval state = .ok () reached ↔
      ∃ body, (step state.core state.body).eval state.body = .ok () body ∧
        reached = { state with body := body } := by
  rw [eval_bodyStep, outcomeMap_ok]

/-- A program on the rest of a state. -/
theorem restStep_ok {step : RestStep Id Rest} :
    (bodyStep (restStep step) state).eval state = .ok () reached ↔
      ∃ rest, (step state.core state.body.time state.body.rest).eval state.body.rest =
          .ok () rest ∧
        reached = { state with body := { state.body with rest := rest } } := by
  rw [bodyStep_ok]
  simp only [eval_restStep, outcomeMap_ok]
  constructor
  · rintro ⟨body, ⟨rest, done, rfl⟩, rfl⟩
    exact ⟨rest, done, rfl⟩
  · rintro ⟨rest, done, rfl⟩
    exact ⟨_, ⟨rest, done, rfl⟩, rfl⟩

/-- What the programs on the rest leave alone. -/
def timeAndIndex (state : ChainState Id (Body TxId Tx Rest)) :
    Nat × Nat × List (TransactionObject TxId Tx) :=
  (state.core.headBlockNumber, state.body.time, state.body.transactions)

theorem restStep_keeps (step : RestStep Id Rest) :
    Keeps timeAndIndex
      (bodyStep (restStep step) : Step (ChainState Id (Body TxId Tx Rest)) ChainError) := by
  intro state
  rw [eval_bodyStep, eval_restStep]
  cases (step state.core state.body.time state.body.rest).eval state.body.rest <;> rfl

theorem mem_insertByExpiration {object other : TransactionObject TxId Tx}
    {objects : List (TransactionObject TxId Tx)} :
    other ∈ insertByExpiration object objects ↔ other = object ∨ other ∈ objects := by
  induction objects with
  | nil => simp [insertByExpiration]
  | cons first more inductionHypothesis =>
    unfold insertByExpiration
    split
    · simp
    · simp only [List.mem_cons, inductionHypothesis]
      tauto

/-- An object that has not expired is not forgotten. -/
theorem mem_unexpired {object : TransactionObject TxId Tx}
    {objects : List (TransactionObject TxId Tx)} {time : Nat} (member : object ∈ objects)
    (later : time ≤ object.expiration) : object ∈ unexpired time objects := by
  rw [← List.takeWhile_append_dropWhile (p := fun object => decide (time > object.expiration))
    (l := objects), List.mem_append] at member
  rcases member with dropped | kept
  · have expired := List.mem_takeWhile_imp dropped
    simp only [decide_eq_true_eq] at expired
    omega
  · exact kept

variable {hashing : Hashing Id Tx H} {evaluators : Evaluators Id Tx H TxId Rest}
  {skip : SkipFlags} {transaction : Tx} {block : Block Id Tx H}

/-- What the slots of a block have done. -/
theorem updateTime_ok :
    (bodyStep (evaluators.updateTime block) state).eval state = .ok () reached ↔
      ∃ rest, (evaluators.updateSlots block state.core state.body.time
          state.body.rest).eval state.body.rest = .ok () rest ∧
        reached = { state with
          body := { state.body with time := evaluators.timestamp block.header, rest := rest } } := by
  rw [bodyStep_ok]
  have onto := Script.eval_onto
    (fun rest => ({ state.body with time := evaluators.timestamp block.header, rest := rest } :
      Body TxId Tx Rest))
    (evaluators.updateSlots block state.core state.body.time state.body.rest) state.body.rest
  simp only [Evaluators.updateTime, Script.eval]
  rw [show ({ state.body with time := evaluators.timestamp block.header } : Body TxId Tx Rest) =
    { state.body with time := evaluators.timestamp block.header, rest := state.body.rest } from rfl,
    onto]
  simp only [outcomeMap_ok]
  constructor
  · rintro ⟨body, ⟨rest, done, rfl⟩, rfl⟩
    exact ⟨rest, done, rfl⟩
  · rintro ⟨rest, done, rfl⟩
    exact ⟨_, ⟨rest, done, rfl⟩, rfl⟩

/-- What the header of a block has passed and done. -/
theorem openBlock_ok :
    (bodyStep (evaluators.openBlock skip block) state).eval state = .ok () reached ↔
      (state.body.time < evaluators.timestamp block.header ∧
        unlessSkipped skip.witnessSignature (evaluators.validateSignee block state.core
          state.body.time state.body.rest) = .ok () ∧
        unlessSkipped skip.witnessScheduleCheck (evaluators.scheduledWitness block state.core
          state.body.time state.body.rest) = .ok ()) ∧
        ∃ rest, (evaluators.beginBlock block state.core state.body.time
            state.body.rest).eval state.body.rest = .ok () rest ∧
          reached = { state with body := { state.body with rest := rest } } := by
  rw [bodyStep_ok]
  simp only [Evaluators.openBlock, eval_guarding, eval_restStep, outcomeMap_ok, bind_ok_iff,
    require_ok_iff, exists_const]
  constructor
  · rintro ⟨body, ⟨⟨early, _, signed, scheduled⟩, rest, done, rfl⟩, rfl⟩
    exact ⟨⟨early, signed, scheduled⟩, rest, done, rfl⟩
  · rintro ⟨⟨early, signed, scheduled⟩, rest, done, rfl⟩
    exact ⟨_, ⟨⟨early, (), signed, scheduled⟩, rest, done, rfl⟩, rfl⟩

variable [DecidableEq TxId]

/-- What an applied transaction has passed and done. -/
theorem applyTransaction_ok :
    (bodyStep (evaluators.applyTransaction hashing skip transaction) state).eval state =
        .ok () reached ↔
      evaluators.checkTransaction hashing skip transaction state.core state.body = .ok () ∧
        ∃ rest, (evaluators.operations transaction state.core state.body.time
            state.body.rest).eval state.body.rest = .ok () rest ∧
          reached = { state with
            body := { evaluators.remember skip transaction state.body with rest := rest } } := by
  have time : (evaluators.remember skip transaction state.body).time = state.body.time := by
    unfold Evaluators.remember
    split <;> rfl
  have same : (evaluators.remember skip transaction state.body).rest = state.body.rest := by
    unfold Evaluators.remember
    split <;> rfl
  rw [bodyStep_ok]
  simp only [Evaluators.applyTransaction, eval_guarding, Script.eval, eval_restStep, outcomeMap_ok,
    time, same]
  constructor
  · rintro ⟨body, ⟨passed, rest, done, rfl⟩, rfl⟩
    exact ⟨passed, rest, done, rfl⟩
  · rintro ⟨passed, rest, done, rfl⟩
    exact ⟨_, ⟨passed, rest, done, rfl⟩, rfl⟩

/-- What the checks of an applied transaction say, with nothing skipped. -/
theorem checkTransaction_fresh {core : Core Id} {body : Body TxId Tx Rest}
    (passed : evaluators.checkTransaction hashing .nothing transaction core body = .ok ()) :
    (∀ object ∈ body.transactions, object.trxId ≠ evaluators.trxId transaction) ∧
      (0 < core.headBlockNumber → body.time < evaluators.expiration transaction) := by
  simp only [Evaluators.checkTransaction, SkipFlags.nothing, unlessSkipped, Bool.or_false,
    Bool.false_eq_true, if_false, bind_ok_iff, require_ok_iff, exists_const] at passed
  obtain ⟨_, _, unknown, _, _, timely⟩ := passed
  constructor
  · intro object member same
    simp only [Evaluators.isKnownTransaction, List.any_eq_false, decide_eq_true_eq] at unknown
    exact unknown object member same
  · intro started
    simp only [Evaluators.checkAgainstHead, started, if_true, bind_ok_iff, require_ok_iff,
      exists_const] at timely
    obtain ⟨_, _, _, early⟩ := timely
    exact early

end Laws

section Guarded

variable (evaluators : Evaluators Id Tx H TxId Rest)

/-- The transactions that have been applied are all different, and each is either still
remembered or has expired since. -/
structure Guarded (taken : List Tx) (state : ChainState Id (Body TxId Tx Rest)) : Prop where
  distinct : (taken.map evaluators.trxId).Nodup
  remembered : ∀ transaction ∈ taken,
    (∃ object ∈ state.body.transactions, object.trxId = evaluators.trxId transaction ∧
      object.expiration = evaluators.expiration transaction) ∨
    0 < state.core.headBlockNumber ∧ evaluators.expiration transaction < state.body.time

variable {evaluators} {hashing : Hashing Id Tx H} {taken : List Tx} {transaction : Tx}
  {block : Block Id Tx H} {state reached : ChainState Id (Body TxId Tx Rest)}

/-- Only the head, the time and the index matter, and head and time may grow. -/
theorem Guarded.mono (guarded : Guarded evaluators taken state)
    (head : 0 < state.core.headBlockNumber → 0 < reached.core.headBlockNumber)
    (time : state.body.time ≤ reached.body.time)
    (index : reached.body.transactions = state.body.transactions) :
    Guarded evaluators taken reached := by
  refine ⟨guarded.distinct, fun transaction member => ?_⟩
  rw [index]
  rcases guarded.remembered transaction member with kept | ⟨started, expired⟩
  · exact .inl kept
  · exact .inr ⟨head started, by omega⟩

/-- Forgetting the expired transactions once a block has been applied. -/
theorem Guarded.clear (guarded : Guarded evaluators taken state)
    (started : 0 < reached.core.headBlockNumber) (time : reached.body.time = state.body.time)
    (index : reached.body.transactions = unexpired state.body.time state.body.transactions) :
    Guarded evaluators taken reached := by
  refine ⟨guarded.distinct, fun transaction member => ?_⟩
  rw [index, time]
  rcases guarded.remembered transaction member with ⟨object, kept, named, expires⟩ | ⟨_, expired⟩
  · by_cases later : state.body.time ≤ object.expiration
    · exact .inl ⟨object, mem_unexpired kept later, named, expires⟩
    · exact .inr ⟨started, by omega⟩
  · exact .inr ⟨started, expired⟩

variable [DecidableEq TxId]

/-- An applied transaction was not applied before. -/
theorem Guarded.apply (guarded : Guarded evaluators taken state)
    (done : (bodyStep (evaluators.applyTransaction hashing .nothing transaction) state).eval state =
      .ok () reached) :
    Guarded evaluators (transaction :: taken) reached := by
  obtain ⟨passed, rest, _, rfl⟩ := applyTransaction_ok.mp done
  obtain ⟨unknown, timely⟩ := checkTransaction_fresh passed
  have fresh : evaluators.trxId transaction ∉ taken.map evaluators.trxId := by
    intro again
    obtain ⟨earlier, member, same⟩ := List.mem_map.mp again
    rw [evaluators.trxId_injective same] at member
    rcases guarded.remembered transaction member with ⟨object, kept, named, _⟩ | ⟨started, expired⟩
    · exact unknown object kept named
    · exact absurd (timely started) (by omega)
  refine ⟨List.nodup_cons.mpr ⟨fresh, guarded.distinct⟩, fun other member => ?_⟩
  simp only [Evaluators.remember, SkipFlags.nothing, Bool.false_eq_true, if_false,
    mem_insertByExpiration]
  rcases List.mem_cons.mp member with rfl | earlier
  · exact .inl ⟨_, .inl rfl, rfl, rfl⟩
  · rcases guarded.remembered other earlier with ⟨object, kept, named⟩ | expired
    · exact .inl ⟨object, .inr kept, named⟩
    · exact .inr expired

/-- The transactions of a block one after the other. -/
theorem Guarded.applyAll {transactions : List Tx} (guarded : Guarded evaluators taken state)
    (done : evalAll (transactions.map (fun transaction =>
      bodyStep (evaluators.applyTransaction hashing .nothing transaction))) state =
        .ok () reached) :
    Guarded evaluators (transactions.reverse ++ taken) reached ∧
      reached.core = state.core ∧ reached.body.time = state.body.time := by
  induction transactions generalizing taken state with
  | nil =>
    simp only [List.map_nil, evalAll, EStateM.Result.ok.injEq, true_and] at done
    subst done
    exact ⟨guarded, rfl, rfl⟩
  | cons transaction rest inductionHypothesis =>
    obtain ⟨middle, first, later⟩ := evalAll_cons_ok.mp done
    obtain ⟨final, core, time⟩ := inductionHypothesis (guarded.apply first) later
    obtain ⟨_, _, _, rfl⟩ := applyTransaction_ok.mp first
    refine ⟨?_, core, time.trans ?_⟩
    · rwa [List.reverse_cons, List.append_assoc]
    · simp only [Evaluators.remember]
      split <;> rfl

/-- The state once `clear_expired_transactions` has run. -/
def cleared (hashing : Hashing Id Tx H) (block : Block Id Tx H)
    (state : ChainState Id (Body TxId Tx Rest)) : ChainState Id (Body TxId Tx Rest) :=
  { core := { state.core with
      blockSummary := state.core.blockSummary.insert (hashing.num block % summarySize)
        (hashing.id block) }
    body := { state.body with
      transactions := unexpired state.body.time state.body.transactions } }

omit [DecidableEq TxId] in
theorem evalAll_cleared (hashing : Hashing Id Tx H) (block : Block Id Tx H)
    (state : ChainState Id (Body TxId Tx Rest))
    (more : List (Step (ChainState Id (Body TxId Tx Rest)) ChainError)) :
    evalAll (coreStep (createBlockSummary hashing block) ::
        bodyStep Evaluators.clearExpiredTransactions :: more) state =
      evalAll more (cleared hashing block state) := rfl

/-- The programs on the rest that are run once the index is cleared. -/
def Evaluators.finishing (evaluators : Evaluators Id Tx H TxId Rest) (block : Block Id Tx H) :
    List (RestStep Id Rest) :=
  [evaluators.clearExpiredRecentEntities block, evaluators.clearExpiredProposals,
    evaluators.clearExpiredDisciplineSupplies, evaluators.updateWitnessSchedule,
    evaluators.processResearchTokenSales, evaluators.processFunds,
    evaluators.processCommonTokensWithdrawals, evaluators.processAccountRecovery,
    evaluators.processHardforks, evaluators.processDisciplineSupplies,
    evaluators.processExpertiseAllocationProposals, evaluators.processNdaContracts,
    evaluators.notifyAppliedBlock block]

theorem finished_cleared (hashing : Hashing Id Tx H) (evaluators : Evaluators Id Tx H TxId Rest)
    (skip : SkipFlags) (block : Block Id Tx H) (state : ChainState Id (Body TxId Tx Rest)) :
    finished hashing (evaluators.processing hashing skip) block state =
      evalAll ((evaluators.finishing block).map (fun step => bodyStep (restStep step)))
        (cleared hashing block state) := by
  have steps : finishSteps hashing (evaluators.processing hashing skip) block =
      coreStep (createBlockSummary hashing block) ::
        bodyStep Evaluators.clearExpiredTransactions ::
          (evaluators.finishing block).map (fun step => bodyStep (restStep step)) := rfl
  unfold finished
  rw [steps, evalAll_cleared]

/-- What the programs on the rest keep is kept after the index is cleared. -/
theorem finished_keeps {V : Type} {view : ChainState Id (Body TxId Tx Rest) → V}
    (evaluators : Evaluators Id Tx H TxId Rest) (skip : SkipFlags)
    (keeps : ∀ step ∈ evaluators.finishing block, Keeps view (bodyStep (restStep step))) :
    view (left (finished hashing (evaluators.processing hashing skip) block state)) =
      view (cleared hashing block state) := by
  rw [finished_cleared]
  refine evalAll_keeps (fun step member => ?_) _
  obtain ⟨part, among, rfl⟩ := List.mem_map.mp member
  exact keeps part among

/-- The time and the index after the steps that follow the commit, however they end. -/
theorem finished_timeAndIndex (hashing : Hashing Id Tx H)
    (evaluators : Evaluators Id Tx H TxId Rest) (skip : SkipFlags) (block : Block Id Tx H)
    (state : ChainState Id (Body TxId Tx Rest)) :
    timeAndIndex (left (finished hashing (evaluators.processing hashing skip) block state)) =
      (state.core.headBlockNumber, state.body.time,
        unexpired state.body.time state.body.transactions) :=
  finished_keeps evaluators skip (fun step _ => restStep_keeps step)

/-- A block after its commit, however it ends. -/
theorem Guarded.finish (guarded : Guarded evaluators taken state)
    (started : 0 < state.core.headBlockNumber) :
    Guarded evaluators taken
      (left (finished hashing (evaluators.processing hashing .nothing) block state)) := by
  have view := finished_timeAndIndex hashing evaluators .nothing block state
  simp only [timeAndIndex, Prod.mk.injEq] at view
  obtain ⟨number, time, index⟩ := view
  exact guarded.clear (number ▸ started) time index

variable [DecidableEq Id] {middle : ChainState Id (Body TxId Tx Rest)}

/-- The programs a block has run through when it commits. -/
theorem prepared_parts {skip : SkipFlags}
    (done : prepared hashing (evaluators.processing hashing skip) block state = .ok () middle) :
    ∃ opened after slots,
      state.body.time < evaluators.timestamp block.header ∧
      (evaluators.beginBlock block state.core state.body.time state.body.rest).eval
        state.body.rest = .ok () opened ∧
      evalAll (block.transactions.map (fun transaction =>
          bodyStep (evaluators.applyTransaction hashing skip transaction)))
        { state with body := { state.body with rest := opened } } = .ok () after ∧
      (evaluators.updateSlots block after.core after.body.time after.body.rest).eval
        after.body.rest = .ok () slots ∧
      (∃ core, (evaluators.updateSigningWitness block core
        (evaluators.timestamp block.header) slots).eval slots = .ok () middle.body.rest) ∧
      middle.core.headBlockNumber = hashing.num block ∧
      middle.body.time = evaluators.timestamp block.header ∧
      middle.body.transactions = after.body.transactions := by
  obtain ⟨_, _, _, num, _, raised⟩ := prepared_ok done
  obtain ⟨slotted, opening, heading⟩ := evalAll_append_ok.mp done
  obtain ⟨matched, merkle, afterMerkle⟩ := evalAll_cons_ok.mp opening
  obtain ⟨linked, previous, afterLink⟩ := evalAll_cons_ok.mp afterMerkle
  obtain ⟨begun, begins, afterBegin⟩ := evalAll_cons_ok.mp afterLink
  obtain ⟨after, applies, afterApply⟩ := evalAll_append_ok.mp afterBegin
  obtain ⟨timed, slots, opened_⟩ := evalAll_cons_ok.mp afterApply
  obtain ⟨headed, head, afterHead⟩ := evalAll_cons_ok.mp heading
  obtain ⟨signed, signing, afterSign⟩ := evalAll_cons_ok.mp afterHead
  obtain ⟨confirmed, confirm, afterConfirm⟩ := evalAll_cons_ok.mp afterSign
  obtain ⟨final, raise, raised_⟩ := evalAll_cons_ok.mp afterConfirm
  simp only [evalAll, EStateM.Result.ok.injEq, true_and] at opened_ raised_
  obtain ⟨matchedCore, matches_, rfl⟩ := eval_coreStep_ok.mp merkle
  obtain ⟨linkedCore, names, rfl⟩ := eval_coreStep_ok.mp previous
  obtain ⟨⟨early, _⟩, opened, beginning, rfl⟩ := openBlock_ok.mp begins
  obtain ⟨slotsRest, counted, rfl⟩ := updateTime_ok.mp slots
  obtain ⟨headCore, _, rfl⟩ := eval_coreStep_ok.mp head
  obtain ⟨signedRest, signs, rfl⟩ := restStep_ok.mp signing
  obtain ⟨confirmedCore, _, rfl⟩ := eval_coreStep_ok.mp confirm
  obtain ⟨raisedCore, _, rfl⟩ := eval_coreStep_ok.mp raise
  have unmatched : matchedCore = state.core := by
    split at matches_
    · exact (Except.ok.inj matches_).symm
    · cases matches_
  have unlinked : linkedCore = matchedCore := by
    unfold checkPrevious at names
    split at names
    · exact (Except.ok.inj names).symm
    · cases names
  subst unmatched unlinked opened_ raised_
  exact ⟨opened, after, slotsRest, early, beginning, applies, counted, ⟨headCore, signs⟩,
    by rw [raised]; rfl, rfl, rfl⟩

/-- A block up to its commit. -/
theorem Guarded.prepare (guarded : Guarded evaluators taken state)
    (done : prepared hashing (evaluators.processing hashing .nothing) block state =
      .ok () middle) :
    Guarded evaluators (block.transactions.reverse ++ taken) middle := by
  obtain ⟨opened, after, slots, early, _, applies, _, _, number, time, index⟩ := prepared_parts done
  have begun : Guarded evaluators taken
      { state with body := { state.body with rest := opened } } :=
    guarded.mono id (Nat.le_refl _) rfl
  obtain ⟨final, core, sameTime⟩ := begun.applyAll applies
  refine final.mono (fun _ => ?_) ?_ index
  · rw [number]
    exact Nat.succ_pos _
  · rw [sameTime, time]
    exact Nat.le_of_lt early

/-- Every state of a chain guards the transactions of the chain. -/
theorem stateAfter_guarded {genesis : Body TxId Tx Rest} {chain : List (Block Id Tx H)}
    (replayed : stateAfter hashing (evaluators.processing hashing .nothing) genesis chain =
      some state) :
    Guarded evaluators (chain.flatMap (fun block => block.transactions.reverse)) state := by
  induction chain generalizing state with
  | nil => exact ⟨List.nodup_nil, by simp⟩
  | cons block rest inductionHypothesis =>
    obtain ⟨before, replayedBefore, done⟩ := stateAfter_cons.mp replayed
    obtain ⟨middle, prepares, finishes, _⟩ := applied_ok done
    obtain ⟨_, _, _, _, _, _, _, _, number, _, _⟩ := prepared_parts prepares
    have started : 0 < middle.core.headBlockNumber := by
      rw [number]
      exact Nat.succ_pos _
    have guarded := (inductionHypothesis replayedBefore).prepare prepares
    have final : Guarded evaluators _
        (left (finished hashing (evaluators.processing hashing .nothing) block middle)) :=
      guarded.finish started
    rwa [finishes] at final

end Guarded

section Recorded

/-- A program that leaves the record alone. -/
def recordedStep (step : RestStep Id Rest) : RestStep Id (List Tx × Rest) :=
  fun core time state => (step core time state.2).onto (Prod.mk state.1)

/-- The same evaluators with a record of the transactions whose operations have been run,
newest first. The record is part of the objects, so undoing a session takes it back. -/
def Evaluators.recorded (evaluators : Evaluators Id Tx H TxId Rest) :
    Evaluators Id Tx H TxId (List Tx × Rest) where
  trxId := evaluators.trxId
  trxId_injective := evaluators.trxId_injective
  expiration := evaluators.expiration
  refBlockNum := evaluators.refBlockNum
  refBlockPrefix := evaluators.refBlockPrefix
  idPrefix := evaluators.idPrefix
  timestamp := evaluators.timestamp
  merkleMatches := evaluators.merkleMatches
  validateSignee block core time state := evaluators.validateSignee block core time state.2
  scheduledWitness block core time state := evaluators.scheduledWitness block core time state.2
  beginBlock block := recordedStep (evaluators.beginBlock block)
  validate := evaluators.validate
  verifyAuthority transaction core time state :=
    evaluators.verifyAuthority transaction core time state.2
  operations transaction core time state :=
    .write (transaction :: state.1, state.2)
      ((evaluators.operations transaction core time state.2).onto (Prod.mk (transaction :: state.1)))
  updateSlots block := recordedStep (evaluators.updateSlots block)
  updateSigningWitness block := recordedStep (evaluators.updateSigningWitness block)
  currentShuffledWitnesses state := evaluators.currentShuffledWitnesses state.2
  clearExpiredRecentEntities block := recordedStep (evaluators.clearExpiredRecentEntities block)
  clearExpiredProposals := recordedStep evaluators.clearExpiredProposals
  clearExpiredDisciplineSupplies := recordedStep evaluators.clearExpiredDisciplineSupplies
  updateWitnessSchedule := recordedStep evaluators.updateWitnessSchedule
  processResearchTokenSales := recordedStep evaluators.processResearchTokenSales
  processFunds := recordedStep evaluators.processFunds
  processCommonTokensWithdrawals := recordedStep evaluators.processCommonTokensWithdrawals
  processAccountRecovery := recordedStep evaluators.processAccountRecovery
  processHardforks := recordedStep evaluators.processHardforks
  processDisciplineSupplies := recordedStep evaluators.processDisciplineSupplies
  processExpertiseAllocationProposals :=
    recordedStep evaluators.processExpertiseAllocationProposals
  processNdaContracts := recordedStep evaluators.processNdaContracts
  notifyAppliedBlock block := recordedStep (evaluators.notifyAppliedBlock block)

theorem eval_recordedStep (step : RestStep Id Rest) (core : Core Id) (time : Nat)
    (state : List Tx × Rest) :
    (recordedStep step core time state).eval state =
      outcomeMap (Prod.mk state.1) ((step core time state.2).eval state.2) :=
  Script.eval_onto (Prod.mk state.1) (step core time state.2) state.2

theorem recordedStep_record {step : RestStep Id Rest} {core : Core Id} {time : Nat}
    {state reached : List Tx × Rest}
    (done : (recordedStep step core time state).eval state = .ok () reached) :
    reached.1 = state.1 := by
  rw [eval_recordedStep] at done
  obtain ⟨part, _, rfl⟩ := outcomeMap_ok.mp done
  rfl

/-- The record of a state. -/
def record (state : ChainState Id (Body TxId Tx (List Tx × Rest))) : List Tx :=
  state.body.rest.1

theorem recordedStep_keeps (step : RestStep Id Rest) :
    Keeps record (bodyStep (restStep (recordedStep step)) :
      Step (ChainState Id (Body TxId Tx (List Tx × Rest))) ChainError) := by
  intro state
  rw [eval_bodyStep, eval_restStep, eval_recordedStep]
  cases (step state.core state.body.time state.body.rest.2).eval state.body.rest.2 <;> rfl

variable [DecidableEq TxId] {hashing : Hashing Id Tx H} {evaluators : Evaluators Id Tx H TxId Rest}
  {transaction : Tx} {block : Block Id Tx H}
  {state reached : ChainState Id (Body TxId Tx (List Tx × Rest))}

theorem applyTransaction_record {skip : SkipFlags}
    (done : (bodyStep (evaluators.recorded.applyTransaction hashing skip transaction) state).eval
      state = .ok () reached) : record reached = transaction :: record state := by
  obtain ⟨_, rest, operates, rfl⟩ := applyTransaction_ok.mp done
  have onto := Script.eval_onto (Prod.mk (transaction :: state.body.rest.1))
    (evaluators.operations transaction state.core state.body.time state.body.rest.2)
    state.body.rest.2
  simp only [Evaluators.recorded, Script.eval] at operates
  rw [onto] at operates
  obtain ⟨part, _, rfl⟩ := outcomeMap_ok.mp operates
  rfl

theorem applyTransactions_record {skip : SkipFlags} {transactions : List Tx}
    (done : evalAll (transactions.map (fun transaction =>
      bodyStep (evaluators.recorded.applyTransaction hashing skip transaction))) state =
        .ok () reached) : record reached = transactions.reverse ++ record state := by
  induction transactions generalizing state with
  | nil =>
    simp only [List.map_nil, evalAll, EStateM.Result.ok.injEq, true_and] at done
    rw [done]
    rfl
  | cons transaction rest inductionHypothesis =>
    obtain ⟨middle, first, later⟩ := evalAll_cons_ok.mp done
    rw [inductionHypothesis later, applyTransaction_record first]
    simp

/-- The steps after the commit run no transaction. -/
theorem finished_record (hashing : Hashing Id Tx H) (evaluators : Evaluators Id Tx H TxId Rest)
    (skip : SkipFlags) (block : Block Id Tx H)
    (state : ChainState Id (Body TxId Tx (List Tx × Rest))) :
    record (left (finished hashing (evaluators.recorded.processing hashing skip) block state)) =
      record state := by
  refine finished_keeps evaluators.recorded skip (fun step member => ?_)
  have steps : evaluators.recorded.finishing block =
      (evaluators.finishing block).map recordedStep := rfl
  rw [steps] at member
  obtain ⟨part, _, rfl⟩ := List.mem_map.mp member
  exact recordedStep_keeps part

variable [DecidableEq Id]

/-- The record of a state is guarded by it. -/
theorem recorded_preserves (hashing : Hashing Id Tx H)
    (evaluators : Evaluators Id Tx H TxId Rest) :
    Preserves hashing (evaluators.recorded.processing hashing .nothing)
      (fun state => Guarded evaluators.recorded (record state) state) := by
  have prepares : ∀ block state middle, Guarded evaluators.recorded (record state) state →
      prepared hashing (evaluators.recorded.processing hashing .nothing) block state =
        .ok () middle →
      Guarded evaluators.recorded (record middle) middle ∧ 0 < middle.core.headBlockNumber := by
    intro block state middle guarded done
    obtain ⟨opened, after, slots, _, begins, applies, counts, ⟨_, signs⟩, number, _, _⟩ :=
      prepared_parts done
    have opens : opened.1 = record state := recordedStep_record begins
    have taken : record after = block.transactions.reverse ++ opened.1 :=
      applyTransactions_record applies
    have counted : slots.1 = record after := recordedStep_record counts
    have signed : record middle = slots.1 := recordedStep_record signs
    refine ⟨?_, ?_⟩
    · rw [signed, counted, taken, opens]
      exact guarded.prepare done
    · rw [number]
      exact Nat.succ_pos _
  refine ⟨fun block state middle guarded done => (prepares block state middle guarded done).1,
    fun block state middle guarded done => ?_, fun transaction state reached guarded done => ?_⟩
  · obtain ⟨kept, started⟩ := prepares block state middle guarded done
    rw [finished_record]
    exact kept.finish started
  · rw [applyTransaction_record done]
    exact guarded.apply done

end Recorded

section Once

variable [DecidableEq Id] [DecidableEq TxId]

open Database in
/-- No transaction takes effect twice. After any calls on the node, the transactions whose
operations have been run to reach its state, or a state it can be taken back to, all have
different ids; and so have the transactions of every applied chain.

Proof: the record of a state is guarded by its index and its time, and so are the
transactions of a chain. A transaction with an old id is either still remembered, and
refused as a duplicate, or has expired, and is refused for that. -/
theorem transactions_apply_once (hashing : Hashing Id Tx H)
    (evaluators : Evaluators Id Tx H TxId Rest) (time : Nat) (genesis : Rest)
    (calls : List (Call Id Tx H)) :
    StoreHolds (fun state => ((record state).map evaluators.trxId).Nodup)
        (afterCalls (evaluators.recorded.processing hashing .nothing) calls
          (Database.genesis hashing ⟨time, [], ([], genesis)⟩)).store ∧
      ∀ chain, AppliedChain (evaluators.processing hashing .nothing) ⟨time, [], genesis⟩ chain
          (afterCalls (evaluators.processing hashing .nothing) calls
            (Database.genesis hashing ⟨time, [], genesis⟩)) →
        ((chain.reverse.flatMap Block.transactions).map evaluators.trxId).Nodup := by
  constructor
  · have start : StoreHolds (fun state => Guarded evaluators.recorded (record state) state)
        (Database.genesis hashing (⟨time, [], ([], genesis)⟩ : Body TxId Tx (List Tx × Rest))).store :=
      ⟨⟨List.nodup_nil, List.forall_mem_nil _⟩, List.forall_mem_nil _⟩
    have final := afterCalls_holds (recorded_preserves hashing evaluators) calls start
    exact ⟨final.current.distinct, fun state member => (final.saved state member).distinct⟩
  · intro chain applied
    have distinct := (stateAfter_guarded applied).distinct
    rw [← List.nodup_reverse, ← List.map_reverse, List.reverse_flatMap] at distinct
    simpa [Function.comp_def] using distinct

end Once

/-!
## A chain on which only the transactions are checked

A transaction is the number of the second at which it expires, and the header of a block
is its time.
-/

namespace TimedChain

/-- Evaluators that do nothing. -/
def evaluators : Evaluators (List (Entry Nat Nat)) Nat Nat Nat Unit where
  trxId := id
  trxId_injective := Function.injective_id
  expiration := id
  refBlockNum _ := 0
  refBlockPrefix _ := 0
  idPrefix _ := 0
  timestamp := id
  merkleMatches _ := true
  validateSignee _ _ _ _ := .ok ()
  scheduledWitness _ _ _ _ := .ok ()
  beginBlock _ _ _ _ := .done
  validate _ := .ok ()
  verifyAuthority _ _ _ _ := .ok ()
  operations _ _ _ _ := .done
  updateSlots _ _ _ _ := .done
  updateSigningWitness _ _ _ _ := .done
  currentShuffledWitnesses _ := ["alice", "bob"]
  clearExpiredRecentEntities _ _ _ _ := .done
  clearExpiredProposals _ _ _ := .done
  clearExpiredDisciplineSupplies _ _ _ := .done
  updateWitnessSchedule _ _ _ := .done
  processResearchTokenSales _ _ _ := .done
  processFunds _ _ _ := .done
  processCommonTokensWithdrawals _ _ _ := .done
  processAccountRecovery _ _ _ := .done
  processHardforks _ _ _ := .done
  processDisciplineSupplies _ _ _ := .done
  processExpertiseAllocationProposals _ _ _ := .done
  processNdaContracts _ _ _ := .done
  notifyAppliedBlock _ _ _ _ := .done

/-- Two blocks of bob. The transaction of the second is the one of alice's block. -/
def bobsChain : List (Entry Nat Nat) :=
  [("bob", [100], 7), ("bob", [90], 4)]

/-- Alice's block 1, then bob's two blocks, the second of which makes the node switch. -/
def switch : List (Database.Call (List (Entry Nat Nat)) Nat Nat) :=
  .pushBlock (Entry.block ("alice", [100], 3) []) ::
    (Entry.blocks bobsChain).map Database.Call.pushBlock

/-- The node after the switch. -/
def switched : Database (Hashing.spelled Nat Nat) (Body Nat Nat Unit) :=
  Database.afterCalls (evaluators.processing (Hashing.spelled Nat Nat) .nothing) switch
    (Database.genesis (Hashing.spelled Nat Nat) ⟨0, [], ()⟩)

/-- After the switch the transaction of the popped block is applied once. -/
theorem switched_transactions_once :
    Database.AppliedChain (evaluators.processing (Hashing.spelled Nat Nat) .nothing) ⟨0, [], ()⟩
        (Entry.blocks bobsChain).reverse switched ∧
      (((Entry.blocks bobsChain).reverse.reverse.flatMap Block.transactions).map
        evaluators.trxId).Nodup := by
  have applied : Database.AppliedChain (evaluators.processing (Hashing.spelled Nat Nat) .nothing)
      ⟨0, [], ()⟩ (Entry.blocks bobsChain).reverse switched := by
    rfl
  have once := (transactions_apply_once (Hashing.spelled Nat Nat) evaluators 0 () switch).2
  rw [← switched] at once
  exact ⟨applied, once _ applied⟩

end TimedChain

end DeipChain.Chain
