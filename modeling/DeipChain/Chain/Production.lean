import DeipChain.Chain.Revision
import DeipChain.Chain.Transactions
import DeipChain.Chain.WitnessSchedule

/-!
# The production of blocks

Every second the witness plugin asks the node whether one of its witnesses is due, and has
the node build, sign and push a block. It keeps no record of what it has signed: what it
does depends on its clock, on the time of the head block and on the schedule alone.

`Producing` holds what the two read of blocks and objects that the other modules do not
name, and `Node` the database with the plugin's flag. The node runs without
`--enable-stale-production`, so its blocks are pushed with nothing skipped.
-/
namespace DeipChain.Chain

open Snapshots
open DeipChain.WitnessSchedule (blockInterval)

variable {Id Tx H TxId Rest Key : Type}

/-- The seconds of `fc::time_point_sec` have 32 bits. -/
def secondsRange : Nat := 2 ^ 32

/-- `DEIP_MAX_BLOCK_SIZE` -/
def maxBlockSize : Nat := 1024 * 64 * blockInterval * 2000

/-- `get_slot_time` -/
def getSlotTime (slot : Nat) (core : Core Id) (time : Nat) : Nat :=
  if slot = 0 then 0
  else if core.headBlockNumber = 0 then (time + slot * blockInterval) % secondsRange
  else (time / blockInterval * blockInterval + slot * blockInterval) % secondsRange

/-- `get_slot_at_time` -/
def getSlotAtTime (due : Nat) (core : Core Id) (time : Nat) : Nat :=
  if due < getSlotTime 1 core time then 0
  else (due - getSlotTime 1 core time) / blockInterval + 1

/-- What producing a block reads of the objects and of sizes, and the header it writes. -/
structure Producing (evaluators : Evaluators Id Tx H TxId Rest) (Key : Type) where
  packSize : Tx → Nat
  blockSize : Block Id Tx H → Nat
  maxBlockHeaderSize : Nat
  maximumBlockSize : Rest → Nat
  currentAslot : Rest → Nat
  signingKey : Rest → String → Key
  witnessParticipationRate : Rest → Nat
  header : Nat → String → Key → List Tx → Core Id → Rest → H
  timestamp_header : ∀ due owner key transactions core rest,
    evaluators.timestamp (header due owner key transactions core rest) = due

/-- The options of the witness plugin. A private key is known by its public key. -/
structure WitnessPlugin (Key : Type) where
  witnesses : List String
  privateKeys : List Key
  requiredWitnessParticipation : Nat
  genesisTime : Nat

/-- `block_production_condition_enum`, with the block that is produced. -/
inductive BlockProductionCondition (Id Tx H : Type) where
  | produced (block : Block Id Tx H)
  | notSynced
  | notMyTurn
  | notTimeYet
  | noPrivateKey
  | lowParticipation
  | lag
  | consecutive
  | exceptionProducingBlock
  | waitForGenesis

/-- The block of a condition. -/
def BlockProductionCondition.block : BlockProductionCondition Id Tx H → Option (Block Id Tx H)
  | .produced block => some block
  | _ => none

theorem BlockProductionCondition.block_eq_some {condition : BlockProductionCondition Id Tx H}
    {block : Block Id Tx H} : condition.block = some block ↔ condition = .produced block := by
  cases condition <;> simp [BlockProductionCondition.block]

/-- The node with the plugin's `_production_enabled`. -/
structure Node (hashing : Hashing Id Tx H) (R : Type) where
  productionEnabled : Bool
  database : Database hashing R

/-- Production is enabled, or the next slot is not over: the node is synced. -/
def Node.synced {hashing : Hashing Id Tx H} (now : Nat) (node : Node hashing (Body TxId Tx Rest)) :
    Bool :=
  node.productionEnabled ||
    decide (getSlotTime 1 node.database.store.current.core node.database.store.current.body.time ≥
      now)

/-- A call from the network, or a wake-up of the production loop with the two readings of
the clock, in microseconds. -/
inductive Occurrence (Id Tx H : Type) where
  | call (skip : SkipFlags) (call : Database.Call Id Tx H)
  | wakeUp (first second : Nat)

/-- The readings of the clock. -/
def Occurrence.readings : Occurrence Id Tx H → List Nat
  | .call _ _ => []
  | .wakeUp first second => [first, second]

/-- A reading of the clock plus half a second, in whole seconds. -/
def roundedSecond (reading : Nat) : Nat := (reading + 500000) / 1000000 % secondsRange

/-- `llabs((scheduled_time - now).count()) > fc::milliseconds(500).count()` -/
def lagging (scheduled now : Nat) : Bool :=
  (((scheduled : Int) - now) * 1000000).natAbs > 500000

namespace Producing

variable [DecidableEq TxId] [DecidableEq Id] [DecidableEq Key] {hashing : Hashing Id Tx H}
  {evaluators : Evaluators Id Tx H TxId Rest} (producing : Producing evaluators Key)

/-- `get_scheduled_witness` -/
def getScheduledWitness (slot : Nat) (rest : Rest) : String :=
  let shuffled := evaluators.currentShuffledWitnesses rest
  shuffled[(producing.currentAslot rest + slot) % shuffled.length]?.getD ""

/-- The loop of `_generate_block` over the pending transactions, each in a session of its
own, with the size of the block so far: the transactions it takes, and the store it
leaves. -/
def includePending (hashing : Hashing Id Tx H) (due maximum : Nat) : Nat → List Tx →
    UndoStore (ChainState Id (Body TxId Tx Rest)) →
      List Tx × UndoStore (ChainState Id (Body TxId Tx Rest))
  | _, [], store => ([], store)
  | size, transaction :: rest, store =>
    if evaluators.expiration transaction < due then
      includePending hashing due maximum size rest store
    else if size + producing.packSize transaction ≥ maximum then
      includePending hashing due maximum size rest store
    else
      let script := bodyStep (evaluators.applyTransaction hashing .nothing transaction)
      match (script store.current).run store.start with
      | .ok _ reached =>
        let (included, final) :=
          includePending hashing due maximum (size + producing.packSize transaction) rest
            reached.squash
        (transaction :: included, final)
      | .error _ reached => includePending hashing due maximum size rest reached.undo

/-- The block of `_generate_block`, on the state of the head. -/
def buildBlock (due : Nat) (owner : String) (key : Key) (transactions : List Tx)
    (state : ChainState Id (Body TxId Tx Rest)) : Block Id Tx H :=
  { previous := state.core.headBlockId
    witness := owner
    transactions := transactions
    header := producing.header due owner key transactions state.core state.body.rest }

/-- `_generate_block` up to `push_block`. An exception leaves the pending transactions
where they are, even once their session is gone. -/
def assembleBlock (due : Nat) (owner : String) (key : Key)
    (database : Database hashing (Body TxId Tx Rest)) :
    EStateM.Result ChainError (Database hashing (Body TxId Tx Rest)) (Block Id Tx H) :=
  let state := database.store.current
  let slot := getSlotAtTime due state.core state.body.time
  if slot = 0 then .error (.rejected "slot_num > 0") database
  else if producing.getScheduledWitness slot state.body.rest ≠ owner then
    .error (.rejected "scheduled_witness == witness_owner") database
  else if producing.signingKey state.body.rest owner ≠ key then
    .error (.rejected "witness_obj.signing_key == block_signing_private_key.get_public_key()")
      database
  else
    let reset := database.resetPendingSession
    let (included, store) := producing.includePending hashing due
      (producing.maximumBlockSize state.body.rest) producing.maxBlockHeaderSize reset.pendingTx
      reset.store.start
    let built := { reset with store := store.undo }
    let block := producing.buildBlock due owner key included built.store.current
    if producing.blockSize block > maxBlockSize then
      .error (.rejected "fc::raw::pack_size(pending_block) <= DEIP_MAX_BLOCK_SIZE") built
    else .ok block built

/-- `_generate_block` -/
def generateBlock (due : Nat) (owner : String) (key : Key)
    (database : Database hashing (Body TxId Tx Rest)) :
    EStateM.Result ChainError (Database hashing (Body TxId Tx Rest)) (Block Id Tx H) :=
  match producing.assembleBlock due owner key database with
  | .error thrown reached => .error thrown reached
  | .ok block built =>
    match Database.pushBlock (evaluators.processing hashing .nothing) block built with
    | .ok _ pushed => .ok block pushed
    | .error thrown reached => .error thrown reached

/-- The retries of `maybe_produce_block`: after an exception the pending transactions are
cleared. -/
def tryToProduce (due : Nat) (owner : String) (key : Key) :
    Nat → Database hashing (Body TxId Tx Rest) →
      BlockProductionCondition Id Tx H × Database hashing (Body TxId Tx Rest)
  | 0, database => (.exceptionProducingBlock, database)
  | tries + 1, database =>
    match producing.generateBlock due owner key database with
    | .ok block pushed => (.produced block, pushed)
    | .error _ reached => tryToProduce due owner key tries reached.clearPending

variable (plugin : WitnessPlugin Key)

/-- The checks of `maybe_produce_block` at a second, once production is enabled: the time,
the witness and the key of the block to produce. -/
def duty (now : Nat) (database : Database hashing (Body TxId Tx Rest)) :
    Except (BlockProductionCondition Id Tx H) (Nat × String × Key) :=
  let state := database.store.current
  let slot := getSlotAtTime now state.core state.body.time
  let scheduledWitness := producing.getScheduledWitness slot state.body.rest
  let scheduledTime := getSlotTime slot state.core state.body.time
  let scheduledKey := producing.signingKey state.body.rest scheduledWitness
  if slot = 0 then .error .notTimeYet
  else if scheduledWitness ∉ plugin.witnesses then .error .notMyTurn
  else if scheduledKey ∉ plugin.privateKeys then .error .noPrivateKey
  else if producing.witnessParticipationRate state.body.rest <
      plugin.requiredWitnessParticipation then .error .lowParticipation
  else if lagging scheduledTime now then .error .lag
  else .ok (scheduledTime, scheduledWitness, scheduledKey)

/-- `maybe_produce_block` -/
def maybeProduceBlock (reading : Nat) (node : Node hashing (Body TxId Tx Rest)) :
    BlockProductionCondition Id Tx H × Node hashing (Body TxId Tx Rest) :=
  if node.synced (roundedSecond reading) then
    match producing.duty plugin (roundedSecond reading) node.database with
    | .error condition => (condition, { node with productionEnabled := true })
    | .ok (due, owner, key) =>
      let (condition, database) := producing.tryToProduce due owner key 2 node.database
      (condition, ⟨true, database⟩)
  else (.notSynced, node)

/-- `block_production_loop` -/
def blockProductionLoop (first second : Nat) (node : Node hashing (Body TxId Tx Rest)) :
    BlockProductionCondition Id Tx H × Node hashing (Body TxId Tx Rest) :=
  if first < plugin.genesisTime * 1000000 then (.waitForGenesis, node)
  else producing.maybeProduceBlock plugin second node

/-- The node after an occurrence, with the block the plugin has produced in it. -/
def step : Occurrence Id Tx H → Node hashing (Body TxId Tx Rest) →
    Option (Block Id Tx H) × Node hashing (Body TxId Tx Rest)
  | .call skip call, node =>
    (none, { node with
      database := Database.afterCall (evaluators.processing hashing skip) call node.database })
  | .wakeUp first second, node =>
    ((producing.blockProductionLoop plugin first second node).1.block,
      (producing.blockProductionLoop plugin first second node).2)

/-- The node after a run. -/
def run : List (Occurrence Id Tx H) → Node hashing (Body TxId Tx Rest) →
    Node hashing (Body TxId Tx Rest)
  | [], node => node
  | occurrence :: rest, node => run rest (producing.step plugin occurrence node).2

/-- The blocks the plugin produces in a run, oldest first. -/
def production : List (Occurrence Id Tx H) → Node hashing (Body TxId Tx Rest) →
    List (Block Id Tx H)
  | [], _ => []
  | occurrence :: rest, node =>
    (producing.step plugin occurrence node).1.toList ++
      production rest (producing.step plugin occurrence node).2

end Producing

end DeipChain.Chain
