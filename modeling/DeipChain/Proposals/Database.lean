import DeipChain.Lib.Outcome
import DeipChain.Lib.Table
import DeipChain.Proposals.Operations
import Mathlib.Data.List.Sort

/-!
# The execution of proposals

`push_proposal` applies the operations of a proposal in an undo session and removes the
proposal. It is called when an update has given a proposal all the approvals it needs, and for
every approved proposal that has expired. As an operation can update a proposal, executions
nest, and a failure inside an update is swallowed there.

The database here has the object store, which a session can undo, and beside it what no
session undoes: the reference block of the current transaction, the proposed transaction that
is being executed, and the proposals `push_proposal` is at. It holds references to these. One
that is removed, or whose object an undo has put back, leaves a dangling reference to its
operations, and what the program does from there on is not defined.
-/
namespace DeipChain.Proposals

open Result

/-- `DEIP_MAX_PROPOSAL_LIFETIME_SEC` -/
def maxProposalLifetimeSec : Nat := 60 * 60 * 24 * 365 * 3

/-- `DEIP_MAX_PROPOSAL_NESTED_STAGE` -/
def maxProposalNestedStage : Nat := 3

/-- `DEIP_BLOCK_INTERVAL` -/
def blockInterval : Nat := 3

/-- `DEIP_MAX_VOTED_WITNESSES` -/
def maxVotedWitnesses : Nat := 20

/-- `proposal_object`. The revision counts the calls of `modify` on the object. -/
structure Proposal (Payload : Type) where
  id : Nat
  externalId : String
  expirationTime : Nat
  reviewPeriodTime : Option Nat
  proposedTransaction : Transaction Payload
  requiredActiveApprovals : Finset String
  availableActiveApprovals : Finset String
  requiredOwnerApprovals : Finset String
  availableOwnerApprovals : Finset String
  availableKeyApprovals : Finset String
  proposer : String
  failReason : Option ProposalError
  createdAt : Nat
  revision : Nat

/-- `recent_entity_object` -/
structure RecentEntity where
  externalId : String
  reference : RefBlock
  createdAt : Nat
  deriving DecidableEq

/-- The object store: what a session undoes. Two records of the history are kept with it, the
ids of the proposals that were executed and those of the entities that operations created. -/
structure Store (Payload Rest : Type) where
  proposals : List (Proposal Payload)
  nextProposal : Nat
  recentEntities : List RecentEntity
  entities : List (EntityKind × String)
  blockSummary : Nat → Nat
  headBlockNum : Nat
  headBlockTime : Nat
  rest : Rest
  executed : List Nat
  effects : List String

/-- A moment of the run: an operation is about to be applied, with those that come after it
in its transaction, or a proposal is about to be executed. -/
inductive Event (Payload Rest : Type) where
  | operation (operation : Operation Payload) (behind : List (Operation Payload))
    (store : Store Payload Rest) (executing : List (Proposal Payload))
    (currentProposedTrx : Option (Transaction Payload)) (currentTrxReference : RefBlock)
  | execution (proposal : Proposal Payload) (store : Store Payload Rest)
    (executing : List (Proposal Payload))

/-- The database. `_push_proposal_nesting_depth` is the number of proposals being executed,
of which the innermost is the first. The trace is a record of the run. -/
structure Database (Payload Rest : Type) where
  store : Store Payload Rest
  currentTrxReference : RefBlock
  currentProposedTrx : Option (Transaction Payload)
  executing : List (Proposal Payload)
  trace : List (Event Payload Rest)

/-- How a call ends. An undefined outcome is that of a reference which is left dangling and
used next. -/
abbrev Result (Payload Rest : Type) := Outcome ProposalError (Database Payload Rest)

/-- The evaluators of the other operations and the rest of `_apply_block`. -/
structure Evaluators (Payload Rest : Type) extends Protocol Payload where
  apply : Payload → Nat → Rest → Except ProposalError Rest
  isAuthorizedToExecute : Rest → Proposal Payload → Bool
  activeWitnesses : Rest → Nat
  activeWitnesses_le : ∀ rest, activeWitnesses rest ≤ maxVotedWitnesses
  beginBlock : Nat → Rest → Rest
  finishBlock : Nat → Rest → Rest

variable {Payload Rest : Type}

/-!
## The services
-/

/-- `get_proposal` -/
def Store.findProposal (externalId : String) (store : Store Payload Rest) : Option (Proposal Payload) :=
  store.proposals.find? (fun proposal => proposal.externalId == externalId)

/-- `modify` of a proposal. -/
def Store.modifyProposal (id : Nat) (change : Proposal Payload → Proposal Payload)
    (store : Store Payload Rest) : Store Payload Rest :=
  { store with
    proposals := Table.modifyFirst (fun proposal => proposal.id == id)
      (fun proposal => { change proposal with revision := proposal.revision + 1 }) store.proposals }

/-- `remove_proposal` -/
def Store.removeProposal (id : Nat) (store : Store Payload Rest) : Store Payload Rest :=
  { store with proposals := store.proposals.eraseP (fun proposal => proposal.id == id) }

/-- `entity_exists` -/
def Store.entityExists (store : Store Payload Rest) (id : String) : Bool :=
  store.recentEntities.any (fun entity => entity.externalId == id)

/-- `duplicated_entity_guard` -/
def Store.duplicatedEntityGuard (store : Store Payload Rest) (operation : Operation Payload) :
    Except ProposalError Unit :=
  operation.entityIds.forM (fun id => require (store.entityExists id = false) (.duplicatedEntity id))

/-- `create_recent_entity` -/
def Store.createRecentEntity (externalId : String) (reference : RefBlock)
    (store : Store Payload Rest) : Except ProposalError (Store Payload Rest) := do
  require (store.entityExists externalId = false) (.uniqueness externalId)
  pure { store with
    recentEntities := store.recentEntities ++
      [{ externalId := externalId, reference := reference, createdAt := store.headBlockTime }] }

/-- `clear_expired_recent_entities`. The age is compared with
`DEIP_RECENT_ENTITY_LIFETIME_SEC`, a sum without brackets: the interval is not taken off the
time of the block but added to it. -/
def Store.clearExpiredRecentEntities (number idPrefix : Nat) (store : Store Payload Rest) :
    Store Payload Rest :=
  { store with
    recentEntities := store.recentEntities.filter (fun entity =>
      !(decide (entity.reference.number = number % 65536) &&
        decide (entity.reference.idPrefix ≠ idPrefix) &&
        decide (entity.createdAt + maxProposalNestedStage * maxProposalLifetimeSec ≤
          store.headBlockTime + blockInterval))) }

/-- `dbs_proposal::create_proposal` -/
def Store.createProposal (externalId : String) (trx : Transaction Payload) (expirationTime : Nat)
    (proposer : String) (reviewPeriodSeconds : Option Nat) (requiredOwner requiredActive : Finset String)
    (reference : RefBlock) (store : Store Payload Rest) :
    Except ProposalError (Store Payload Rest) := do
  require (requiredOwner ∩ requiredActive = ∅) .ambiguousAuthorities
  require (store.findProposal externalId).isNone (.uniqueness externalId)
  let created : Store Payload Rest := { store with
    nextProposal := store.nextProposal + 1
    proposals := store.proposals ++
      [{ id := store.nextProposal
         externalId := externalId
         expirationTime := expirationTime
         reviewPeriodTime := reviewPeriodSeconds.map (fun seconds => expirationTime - seconds)
         proposedTransaction := trx
         requiredActiveApprovals := requiredActive
         availableActiveApprovals := ∅
         requiredOwnerApprovals := requiredOwner
         availableOwnerApprovals := ∅
         availableKeyApprovals := ∅
         proposer := proposer
         failReason := none
         createdAt := store.headBlockTime
         revision := 0 }] }
  created.createRecentEntity externalId reference

/-- `dbs_proposal::update_proposal` -/
def Proposal.approve (update : ProposalUpdate) (proposal : Proposal Payload) : Proposal Payload :=
  { proposal with
    availableActiveApprovals :=
      (proposal.availableActiveApprovals ∪ update.activeApprovalsToAdd) \ update.activeApprovalsToRemove
    availableOwnerApprovals :=
      (proposal.availableOwnerApprovals ∪ update.ownerApprovalsToAdd) \ update.ownerApprovalsToRemove
    availableKeyApprovals :=
      (proposal.availableKeyApprovals ∪ update.keyApprovalsToAdd) \ update.keyApprovalsToRemove }

/-- The change of a proposal whose execution has failed. -/
def Proposal.fail (error : ProposalError) (proposal : Proposal Payload) : Proposal Payload :=
  { proposal with failReason := some error }

/-- The reference block that is recorded with what is created: that of the proposed
transaction that is executed, or else that of the transaction. -/
def recordedReference (currentProposedTrx : Option (Transaction Payload))
    (currentTrxReference : RefBlock) : RefBlock :=
  match currentProposedTrx with
  | some trx => trx.reference
  | none => currentTrxReference

def Database.reference (database : Database Payload Rest) : RefBlock :=
  recordedReference database.currentProposedTrx database.currentTrxReference

/-!
## The evaluators
-/

/-- `create_proposal_evaluator` -/
def Database.createProposal (evaluators : Evaluators Payload Rest) (externalId creator : String)
    (proposedOps : List (Operation Payload)) (expirationTime : Nat)
    (reviewPeriodSeconds : Option Nat) (database : Database Payload Rest) :
    Except ProposalError (Store Payload Rest) := do
  let store := database.store
  store.duplicatedEntityGuard
    (.createProposal externalId creator proposedOps expirationTime reviewPeriodSeconds)
  require (store.headBlockTime < expirationTime) .expiredOnCreation
  require (expirationTime ≤ store.headBlockTime + maxProposalLifetimeSec) .expirationTooFar
  require (∀ seconds ∈ reviewPeriodSeconds, seconds < expirationTime - store.headBlockTime)
    .reviewPeriodTooLong
  let requiredActive := requiredBy (Operation.requiredActive evaluators.toProtocol) proposedOps
  let requiredOwner := requiredBy (Operation.requiredOwner evaluators.toProtocol) proposedOps
  require (∀ operation ∈ proposedOps, operation.requiresOther evaluators.toProtocol = false)
    .otherAuthorities
  let trx :=
    { reference := database.reference, expiration := expirationTime, operations := proposedOps }
  trx.validate evaluators.toProtocol
  let created ← store.createProposal externalId trx expirationTime creator reviewPeriodSeconds
    requiredOwner (requiredActive \ requiredOwner) database.reference
  pure { created with effects := created.effects ++ [externalId] }

/-- The evaluators of the operations that create another entity. -/
def Database.createEntity (evaluators : Evaluators Payload Rest) (kind : EntityKind)
    (externalId : String) (payload : Payload) (database : Database Payload Rest) :
    Except ProposalError (Store Payload Rest) := do
  let store := database.store
  store.duplicatedEntityGuard (.createEntity kind externalId payload)
  let rest ← evaluators.apply payload store.headBlockTime store.rest
  require ((kind.table, externalId) ∉ store.entities) (.uniqueness externalId)
  let created := { store with
    rest := rest
    entities := store.entities ++ [(kind.table, externalId)]
    effects := store.effects ++ [externalId] }
  if kind.recorded then created.createRecentEntity externalId database.reference else pure created

/-- `delete_proposal_evaluator` up to the removal. -/
def Store.checkDelete (store : Store Payload Rest) (externalId account : String) (authority : Nat) :
    Except ProposalError (Proposal Payload) := do
  let proposal ← expect (store.findProposal externalId) (.unknownProposal externalId)
  require (account ∈ (if authority = 1 then proposal.requiredOwnerApprovals
    else if authority = 2 then proposal.requiredActiveApprovals else ∅)) .notAuthoritative
  pure proposal

/-- `update_proposal_evaluator` up to the update. -/
def Store.checkUpdate (store : Store Payload Rest) (update : ProposalUpdate) :
    Except ProposalError (Proposal Payload) := do
  let proposal ← expect (store.findProposal update.externalId) (.unknownProposal update.externalId)
  require (∀ time ∈ proposal.reviewPeriodTime, time ≤ store.headBlockTime →
    update.ownerApprovalsToAdd = ∅ ∧ update.activeApprovalsToAdd = ∅ ∧
      update.keyApprovalsToAdd = ∅) .inReviewPeriod
  require (update.ownerApprovalsToAdd ∩ proposal.availableOwnerApprovals = ∅) .approvalsGiven
  require (update.activeApprovalsToAdd ∩ proposal.availableActiveApprovals = ∅) .approvalsGiven
  require (update.ownerApprovalsToRemove ⊆ proposal.availableOwnerApprovals) .approvalsMissing
  require (update.activeApprovalsToRemove ⊆ proposal.availableActiveApprovals) .approvalsMissing
  pure proposal

/-- What a proposal is executed with: the call of `push_proposal` that the operations of the
next inner level make. -/
abbrev Push (Payload Rest : Type) :=
  Database Payload Rest → Proposal Payload → Result Payload Rest

/-- The evaluators that change the object store only. -/
def Database.settle (database : Database Payload Rest)
    (result : Except ProposalError (Store Payload Rest)) : Result Payload Rest :=
  match result with
  | .ok store => .returned { database with store := store }
  | .error error => .thrown error database

/-- The proposal as an update leaves it. -/
def Proposal.updated (update : ProposalUpdate) (proposal : Proposal Payload) : Proposal Payload :=
  { proposal.approve update with revision := proposal.revision + 1 }

/-- The handler of a failure in `update_proposal_evaluator`. -/
def Database.swallow (id : Nat) : Result Payload Rest → Result Payload Rest
  | .thrown error failed => .returned { failed with
      currentProposedTrx := none
      store := failed.store.modifyProposal id (Proposal.fail error) }
  | .returned done => .returned done
  | .undefined failed => .undefined failed
  | .unfinished failed => .unfinished failed

/-- `update_proposal_evaluator`. A proposal with a review period is not executed here. -/
def Database.updateProposal (evaluators : Evaluators Payload Rest) (push : Push Payload Rest)
    (update : ProposalUpdate) (database : Database Payload Rest) : Result Payload Rest :=
  match database.store.checkUpdate update with
  | .error error => .thrown error database
  | .ok proposal =>
    let updated := { database with
      store := database.store.modifyProposal proposal.id (Proposal.approve update) }
    let current := proposal.updated update
    if proposal.reviewPeriodTime.isSome then .returned updated
    else if evaluators.isAuthorizedToExecute database.store.rest current then
      Database.swallow proposal.id (push updated current)
    else .returned updated

/-- `delete_proposal_evaluator`. A proposal that is being executed leaves its reference
behind. -/
def Database.deleteProposal (externalId account : String) (authority : Nat)
    (database : Database Payload Rest) : Result Payload Rest :=
  match database.store.checkDelete externalId account authority with
  | .error error => .thrown error database
  | .ok proposal =>
    let removed := { database with store := database.store.removeProposal proposal.id }
    if proposal.id ∈ database.executing.map Proposal.id then .undefined removed else .returned removed

/-- The moment at which an operation is about to be applied. -/
def Database.event (behind : List (Operation Payload)) (operation : Operation Payload)
    (database : Database Payload Rest) : Event Payload Rest :=
  .operation operation behind database.store database.executing database.currentProposedTrx
    database.currentTrxReference

/-- The record of it. -/
def Database.note (behind : List (Operation Payload)) (operation : Operation Payload)
    (database : Database Payload Rest) : Database Payload Rest :=
  { database with trace := database.trace ++ [database.event behind operation] }

/-- `apply_operation` -/
def Database.applyOperation (evaluators : Evaluators Payload Rest) (push : Push Payload Rest)
    (behind : List (Operation Payload)) (database : Database Payload Rest)
    (operation : Operation Payload) : Result Payload Rest :=
  let noted := database.note behind operation
  match operation with
  | .createProposal externalId creator proposedOps expirationTime reviewPeriodSeconds =>
    noted.settle (noted.createProposal evaluators externalId creator proposedOps expirationTime
      reviewPeriodSeconds)
  | .updateProposal update => noted.updateProposal evaluators push update
  | .deleteProposal externalId account authority => noted.deleteProposal externalId account authority
  | .createEntity kind externalId payload =>
    noted.settle (noted.createEntity evaluators kind externalId payload)
  | .other payload => noted.settle do
    let rest ← evaluators.apply payload noted.store.headBlockTime noted.store.rest
    pure { noted.store with rest := rest }

/-- The operations of a transaction, one after the other. -/
def Database.applyOperations (evaluators : Evaluators Payload Rest) (push : Push Payload Rest)
    (database : Database Payload Rest) (operations : List (Operation Payload)) :
    Result Payload Rest :=
  Outcome.each (Database.applyOperation evaluators push) database operations

/-- Whether an object is not what it was at the start of a session. -/
def Store.touched (before after : Store Payload Rest) (id : Nat) : Bool :=
  (before.proposals.find? (fun proposal => proposal.id == id)).map Proposal.revision !=
    (after.proposals.find? (fun proposal => proposal.id == id)).map Proposal.revision

/-- The end of a failed execution: the undone session, and the handler. -/
def Database.failProposal (entered failed : Database Payload Rest) (proposal : Proposal Payload)
    (error : ProposalError) : Result Payload Rest :=
  let handled := { failed with
    store := entered.store.modifyProposal proposal.id (Proposal.fail error)
    currentProposedTrx := none
    executing := entered.executing }
  if (entered.executing.map Proposal.id).any (entered.store.touched failed.store) then
    .undefined handled
  else .thrown error handled

/-- The end of an execution that went through. -/
def Database.finishProposal (entered done : Database Payload Rest) (proposal : Proposal Payload) :
    Result Payload Rest :=
  let removed := done.store.removeProposal proposal.id
  let finished := { done with
    store := { removed with executed := removed.executed ++ [proposal.id] }
    currentProposedTrx := none
    executing := entered.executing }
  if proposal.id ∈ entered.executing.map Proposal.id then .undefined finished else .returned finished

/-- The start of an execution. -/
def Database.enter (database : Database Payload Rest) (proposal : Proposal Payload) :
    Database Payload Rest :=
  { database with
    executing := proposal :: database.executing
    currentProposedTrx := some proposal.proposedTransaction
    trace := database.trace ++ [.execution proposal database.store database.executing] }

/-- `push_proposal`, with the one that an operation in it calls. The guard lets at most twice
as many executions nest as there are active witnesses. -/
def Database.executeProposal (evaluators : Evaluators Payload Rest) (push : Push Payload Rest) :
    Push Payload Rest := fun database proposal =>
  if database.executing.length < evaluators.activeWitnesses database.store.rest * 2 then
    let entered := database.enter proposal
    match entered.applyOperations evaluators push proposal.proposedTransaction.operations with
    | .returned done => database.finishProposal done proposal
    | .thrown error failed => database.failProposal failed proposal error
    | .undefined failed => .undefined failed
    | .unfinished failed => .unfinished failed
  else database.failProposal database proposal .nestingDepth

/-- `push_proposal`. The first argument is how deep executions can still nest. -/
def Database.pushProposal (evaluators : Evaluators Payload Rest) : Nat → Push Payload Rest
  | 0 => fun database proposal => database.failProposal database proposal .nestingDepth
  | depth + 1 => Database.executeProposal evaluators (pushProposal evaluators depth)

/-- The depth that the guard never lets an execution reach. -/
def maxNesting : Nat := maxVotedWitnesses * 2

/-!
## Blocks
-/

/-- The first proposal in the order of `by_expiration`. -/
def Store.firstToExpire (store : Store Payload Rest) : Option (Proposal Payload) :=
  (store.proposals.insertionSort (fun one other => one.expirationTime < other.expirationTime ∨
    one.expirationTime = other.expirationTime ∧ one.id ≤ other.id)).head?

/-- `clear_expired_proposals`, for some rounds. -/
def Database.clearExpiredProposals (evaluators : Evaluators Payload Rest) :
    Nat → Database Payload Rest → Result Payload Rest
  | 0, database => .unfinished database
  | rounds + 1, database =>
    match database.store.firstToExpire with
    | none => .returned database
    | some proposal =>
      if proposal.expirationTime ≤ database.store.headBlockTime then
        if evaluators.isAuthorizedToExecute database.store.rest proposal then
          match database.pushProposal evaluators maxNesting proposal with
          | .returned done => done.clearExpiredProposals evaluators rounds
          | .thrown _ failed =>
            Database.clearExpiredProposals evaluators rounds { failed with
              currentProposedTrx := none
              store := failed.store.removeProposal proposal.id }
          | .undefined failed => .undefined failed
          | .unfinished failed => .unfinished failed
        else Database.clearExpiredProposals evaluators rounds { database with
          store := database.store.removeProposal proposal.id }
      else .returned database

/-- The check of the reference block in `_apply_transaction`: there is none before the first
block. -/
def Store.tapos (store : Store Payload Rest) (reference : RefBlock) : Prop :=
  0 < store.headBlockNum → store.blockSummary reference.number = reference.idPrefix

instance (store : Store Payload Rest) (reference : RefBlock) : Decidable (store.tapos reference) :=
  inferInstanceAs (Decidable (_ → _))

/-- The checks of `_apply_transaction`. -/
def Store.checkTransaction (evaluators : Evaluators Payload Rest) (store : Store Payload Rest)
    (trx : Transaction Payload) : Except ProposalError Unit := do
  trx.validate evaluators.toProtocol
  require (store.tapos trx.reference) .tapos

/-- `_apply_transaction` -/
def Database.applyTransaction (evaluators : Evaluators Payload Rest)
    (database : Database Payload Rest) (trx : Transaction Payload) : Result Payload Rest :=
  let opened := { database with currentTrxReference := trx.reference }
  match database.store.checkTransaction evaluators trx with
  | .error error => .thrown error opened
  | .ok _ =>
    (opened.applyOperations evaluators (Database.pushProposal evaluators maxNesting)
      trx.operations).andThen fun done =>
        .returned { done with currentTrxReference := ⟨0, 0⟩ }

/-- A block, with the part of its id that transactions refer to. -/
structure Block (Payload : Type) where
  timestamp : Nat
  idPrefix : Nat
  transactions : List (Transaction Payload)

/-- The new head with its summary, and the entities that are no longer recent. -/
def Store.advance (evaluators : Evaluators Payload Rest) (block : Block Payload)
    (store : Store Payload Rest) : Store Payload Rest :=
  let number := store.headBlockNum + 1
  Store.clearExpiredRecentEntities number block.idPrefix { store with
    headBlockNum := number
    headBlockTime := block.timestamp
    blockSummary := Function.update store.blockSummary (number % 65536) block.idPrefix
    rest := evaluators.beginBlock block.timestamp store.rest }

/-- `_apply_block` -/
def Database.applyBlock (evaluators : Evaluators Payload Rest) (database : Database Payload Rest)
    (block : Block Payload) : Result Payload Rest :=
  if database.store.headBlockTime < block.timestamp then
    (Outcome.each (fun _ => Database.applyTransaction evaluators) database
      block.transactions).andThen fun applied =>
      let advanced := { applied with store := applied.store.advance evaluators block }
      (advanced.clearExpiredProposals evaluators (advanced.store.proposals.length + 1)).andThen
        fun cleared => .returned { cleared with
          store := { cleared.store with
            rest := evaluators.finishBlock block.timestamp cleared.store.rest } }
  else .thrown .earlyBlock database

/-- The end of the undo session of a call. -/
def Database.recover (database : Database Payload Rest) : Result Payload Rest → Result Payload Rest
  | .returned done => .returned done
  | .thrown _ failed => .returned { failed with store := database.store }
  | .undefined failed => .undefined failed
  | .unfinished failed => .unfinished failed

/-- What a node shows: the chain of its blocks, with the pending transactions that can be
applied on top. -/
def chain (evaluators : Evaluators Payload Rest) (database : Database Payload Rest)
    (blocks : List (Block Payload)) (pending : List (Transaction Payload)) : Result Payload Rest :=
  (Outcome.each (fun _ => Database.applyBlock evaluators) database blocks).andThen fun head =>
    Outcome.each (fun _ state trx => Database.recover state (state.applyTransaction evaluators trx))
      head pending

/-- A proposal of the genesis state. -/
structure GenesisProposal (Payload : Type) where
  externalId : String
  proposer : String
  reviewPeriodSeconds : Option Nat
  expirationTime : Nat
  activeApprovals : Finset String
  ownerApprovals : Finset String
  keyApprovals : Finset String
  proposedTransaction : Transaction Payload

/-- `init_genesis_proposals`, for one of them. -/
def Store.initGenesisProposal (evaluators : Evaluators Payload Rest) (store : Store Payload Rest)
    (genesis : GenesisProposal Payload) : Except ProposalError (Store Payload Rest) := do
  require (store.headBlockTime < genesis.expirationTime) .expiredOnCreation
  let operations := genesis.proposedTransaction.operations
  let created ← store.createProposal genesis.externalId genesis.proposedTransaction
    genesis.expirationTime genesis.proposer genesis.reviewPeriodSeconds
    (requiredBy (Operation.requiredOwner evaluators.toProtocol) operations)
    (requiredBy (Operation.requiredActive evaluators.toProtocol) operations) ⟨0, 0⟩
  pure (created.modifyProposal store.nextProposal (Proposal.approve
    { externalId := genesis.externalId
      activeApprovalsToAdd := genesis.activeApprovals
      activeApprovalsToRemove := ∅
      ownerApprovalsToAdd := genesis.ownerApprovals
      ownerApprovalsToRemove := ∅
      keyApprovalsToAdd := genesis.keyApprovals
      keyApprovalsToRemove := ∅ }))

/-- The database after the genesis: the recent entities and the entities are those of the
other objects of the genesis state. -/
def genesis (evaluators : Evaluators Payload Rest) (time : Nat) (recentEntities : List RecentEntity)
    (entities : List (EntityKind × String)) (rest : Rest) (proposals : List (GenesisProposal Payload)) :
    Except ProposalError (Database Payload Rest) := do
  let store ← proposals.foldlM (Store.initGenesisProposal evaluators)
    { proposals := []
      nextProposal := 0
      recentEntities := recentEntities
      entities := entities
      blockSummary := fun _ => 0
      headBlockNum := 0
      headBlockTime := time
      rest := rest
      executed := []
      effects := [] }
  pure
    { store := store
      currentTrxReference := ⟨0, 0⟩
      currentProposedTrx := none
      executing := []
      trace := [] }

end DeipChain.Proposals
