import DeipChain.Lib.OrderedMap
import DeipChain.Lib.Snapshots
import Mathlib.Data.List.Sort

/-!
# Blocks and what a block does to the chain state

The chain state is split in two. `Core` holds what the node's own bookkeeping
reads: the head block, the last irreversible block, the block each witness confirmed
last, and the buffer of recent block ids. Everything else is the body, of any type.
The evaluators of the operations and the processes that run once per block are the
fields of `Processing`, arbitrary programs on the body that may read the core, throw
and execute proposals in sessions of their own. Only the steps of `_apply_block`
written out here change the core.

`_apply_block` is cut where it reaches outside the object store. `headSteps` ends with
the new value of `last_irreversible_block_num`; between `headSteps` and `finishSteps`
the undo history is committed and the block log is written.
-/
namespace DeipChain.Chain

open Snapshots Std

/-- `DEIP_MAX_WITNESSES` -/
def maxWitnesses : Nat := 21

/-- `DEIP_START_MINER_VOTING_BLOCK` -/
def startMinerVotingBlock : Nat := 28800 * 30

/-- `DEIP_100_PERCENT` -/
def hundredPercent : Nat := 10000

/-- `DEIP_IRREVERSIBLE_THRESHOLD` -/
def irreversibleThreshold : Nat := 7500

/-- `DEIP_MAX_UNDO_HISTORY` -/
def maxUndoHistory : Nat := 10000

/-- The size of the buffer of recent block ids. -/
def summarySize : Nat := 0x10000

/-- `signed_block`: the header fields that the steps below do not read are one
field. -/
structure Block (Id Tx H : Type) where
  previous : Id
  witness : String
  transactions : List Tx
  header : H
  deriving DecidableEq

/-- The block ids: no two blocks share one, and the number of a block is one more
than the number in the id it names as previous. -/
structure Hashing (Id Tx H : Type) where
  id : Block Id Tx H → Id
  numFromId : Id → Nat
  null : Id
  injective : Function.Injective id
  numFromId_null : numFromId null = 0
  numFromId_id : ∀ block, numFromId (id block) = numFromId block.previous + 1

/-- The exceptions of the node, and those of its evaluators and processes. -/
inductive ChainError where
  | merkleCheck
  | previousMismatch
  | undoHistory
  | emptySchedule
  | missingIrreversible
  | logPosition
  | tooOld
  | unlinkable
  | branchMissing
  | popEmptyChain
  | popEmptyForkDb
  | rejected (reason : String)
  deriving DecidableEq

/-- What the node's bookkeeping reads of the object store. A witness without an entry
has confirmed block 0, and an entry of the buffer without a value is the null id. -/
structure Core (Id : Type) where
  headBlockNumber : Nat
  headBlockId : Id
  lastIrreversibleBlockNum : Nat
  lastConfirmedBlockNum : ExtTreeMap String Nat
  blockSummary : ExtTreeMap Nat Id
  deriving DecidableEq

/-- The objects of the store. -/
structure ChainState (Id R : Type) where
  core : Core Id
  body : R
  deriving DecidableEq

variable {Id Tx H R : Type}

/-- `block_num` -/
def Hashing.num (hashing : Hashing Id Tx H) (block : Block Id Tx H) : Nat :=
  hashing.numFromId block.previous + 1

/-- The contents of a block besides its previous id. -/
abbrev Entry (Tx H : Type) := String × List Tx × H

/-- Ids that spell out the whole chain below and with the block. -/
def Hashing.spelled (Tx H : Type) : Hashing (List (Entry Tx H)) Tx H where
  id block := (block.witness, block.transactions, block.header) :: block.previous
  numFromId := List.length
  null := []
  injective := by
    rintro ⟨previous, witness, transactions, header⟩ ⟨previous', witness', transactions', header'⟩
    simp
    tauto
  numFromId_null := rfl
  numFromId_id _ := rfl

/-- The block with a spelled id. -/
def Entry.block (entry : Entry Tx H) (below : List (Entry Tx H)) :
    Block (List (Entry Tx H)) Tx H :=
  { previous := below, witness := entry.1, transactions := entry.2.1, header := entry.2.2 }

/-- The blocks of a chain, oldest first, from their contents, newest first. -/
def Entry.blocks : List (Entry Tx H) → List (Block (List (Entry Tx H)) Tx H)
  | [] => []
  | entry :: below => Entry.blocks below ++ [entry.block below]

/-- A program on the body that may read the core. -/
abbrev BodyStep (Id R : Type) := Core Id → R → Script R ChainError

/-- The parts of `_apply_block` and `_apply_transaction` that act on the body. -/
structure Processing (Id Tx H R : Type) where
  merkleMatches : Block Id Tx H → Bool
  beginBlock : Block Id Tx H → BodyStep Id R
  applyTransaction : Tx → BodyStep Id R
  updateGlobalDynamicData : Block Id Tx H → BodyStep Id R
  updateSigningWitness : Block Id Tx H → BodyStep Id R
  currentShuffledWitnesses : R → List String
  clearExpiredTransactions : BodyStep Id R
  clearExpiredRecentEntities : Block Id Tx H → BodyStep Id R
  clearExpiredProposals : BodyStep Id R
  clearExpiredDisciplineSupplies : BodyStep Id R
  updateWitnessSchedule : BodyStep Id R
  processResearchTokenSales : BodyStep Id R
  processFunds : BodyStep Id R
  processCommonTokensWithdrawals : BodyStep Id R
  processAccountRecovery : BodyStep Id R
  processHardforks : BodyStep Id R
  processDisciplineSupplies : BodyStep Id R
  processExpertiseAllocationProposals : BodyStep Id R
  processNdaContracts : BodyStep Id R
  notifyAppliedBlock : Block Id Tx H → BodyStep Id R
  isKnownTransaction : Tx → R → Bool

/-- A program on the body as one on the state. -/
def bodyStep (step : BodyStep Id R) : Step (ChainState Id R) ChainError :=
  fun state => (step state.core state.body).onto (fun body => { state with body := body })

/-- A change of the core. -/
def coreStep (change : Core Id → Except ChainError (Core Id)) : Step (ChainState Id R) ChainError :=
  fun state =>
    match change state.core with
    | .ok core => .write { state with core := core } .done
    | .error thrown => .throw thrown

section Steps

variable [DecidableEq Id] (hashing : Hashing Id Tx H)

/-- `FC_ASSERT(head_block_id() == next_block.previous)` of `validate_block_header`. -/
def checkPrevious (block : Block Id Tx H) (core : Core Id) : Except ChainError (Core Id) :=
  if core.headBlockId = block.previous then .ok core else .error .previousMismatch

/-- The head of `update_global_dynamic_data`, with the check of the undo history on
the new head. -/
def updateHead (block : Block Id Tx H) (core : Core Id) : Except ChainError (Core Id) :=
  if core.lastIrreversibleBlockNum ≤ hashing.num block ∧
      hashing.num block - core.lastIrreversibleBlockNum < maxUndoHistory then
    .ok { core with headBlockNumber := hashing.num block, headBlockId := hashing.id block }
  else .error .undoHistory

/-- The confirmation of `update_signing_witness`. -/
def confirmBlock (block : Block Id Tx H) (core : Core Id) : Except ChainError (Core Id) :=
  .ok { core with
    lastConfirmedBlockNum := core.lastConfirmedBlockNum.insert block.witness (hashing.num block) }

/-- The new `last_irreversible_block_num`: `nth_element` puts at `offset` what a sort
would. An empty schedule has no element there. -/
def irreversibleBlockNum (core : Core Id) (scheduled : List String) : Option Nat :=
  if core.headBlockNumber < startMinerVotingBlock then
    some (if core.headBlockNumber > maxWitnesses then core.headBlockNumber - maxWitnesses
      else core.lastIrreversibleBlockNum)
  else
    let confirmed := scheduled.map (fun witness => core.lastConfirmedBlockNum[witness]?.getD 0)
    let offset := (hundredPercent - irreversibleThreshold) * confirmed.length / hundredPercent
    (confirmed.insertionSort (· ≤ ·))[offset]?.map (max core.lastIrreversibleBlockNum)

/-- The first half of `update_last_irreversible_block`. -/
def raiseIrreversible (scheduled : List String) (core : Core Id) : Except ChainError (Core Id) :=
  match irreversibleBlockNum core scheduled with
  | some num => .ok { core with lastIrreversibleBlockNum := num }
  | none => .error .emptySchedule

/-- `create_block_summary` -/
def createBlockSummary (block : Block Id Tx H) (core : Core Id) : Except ChainError (Core Id) :=
  .ok { core with
    blockSummary :=
      core.blockSummary.insert (hashing.num block % summarySize) (hashing.id block) }

variable (processing : Processing Id Tx H R)

/-- `_apply_block` up to the head: the checks of the header, the transactions, and the
slots of `update_global_dynamic_data`. -/
def openingSteps (block : Block Id Tx H) : List (Step (ChainState Id R) ChainError) :=
  coreStep (fun core =>
      if processing.merkleMatches block then .ok core else .error .merkleCheck) ::
    coreStep (checkPrevious block) ::
    bodyStep (processing.beginBlock block) ::
    (block.transactions.map (fun transaction =>
        bodyStep (processing.applyTransaction transaction)) ++
      [bodyStep (processing.updateGlobalDynamicData block)])

/-- `_apply_block` from the new head to the new last irreversible block. -/
def headSteps (block : Block Id Tx H) : List (Step (ChainState Id R) ChainError) :=
  [coreStep (updateHead hashing block),
    bodyStep (processing.updateSigningWitness block),
    coreStep (confirmBlock hashing block),
    fun state =>
      coreStep (raiseIrreversible (processing.currentShuffledWitnesses state.body)) state]

/-- `_apply_block` after the last irreversible block is updated. -/
def finishSteps (block : Block Id Tx H) : List (Step (ChainState Id R) ChainError) :=
  [coreStep (createBlockSummary hashing block),
    bodyStep processing.clearExpiredTransactions,
    bodyStep (processing.clearExpiredRecentEntities block),
    bodyStep processing.clearExpiredProposals,
    bodyStep processing.clearExpiredDisciplineSupplies,
    bodyStep processing.updateWitnessSchedule,
    bodyStep processing.processResearchTokenSales,
    bodyStep processing.processFunds,
    bodyStep processing.processCommonTokensWithdrawals,
    bodyStep processing.processAccountRecovery,
    bodyStep processing.processHardforks,
    bodyStep processing.processDisciplineSupplies,
    bodyStep processing.processExpertiseAllocationProposals,
    bodyStep processing.processNdaContracts,
    bodyStep (processing.notifyAppliedBlock block)]

/-- The state `_apply_block` has when it commits and writes the log, from a state
alone. -/
def prepared (block : Block Id Tx H) (state : ChainState Id R) :
    Snapshots.Outcome ChainError (ChainState Id R) :=
  evalAll (openingSteps processing block ++ headSteps hashing processing block) state

/-- The rest of `_apply_block`, from a state alone. -/
def finished (block : Block Id Tx H) (state : ChainState Id R) :
    Snapshots.Outcome ChainError (ChainState Id R) :=
  evalAll (finishSteps hashing processing block) state

/-- A block's effect on the objects. -/
def applied (block : Block Id Tx H) (state : ChainState Id R) :
    Snapshots.Outcome ChainError (ChainState Id R) :=
  andThen (prepared hashing processing block state) (finished hashing processing block)

end Steps

end DeipChain.Chain
