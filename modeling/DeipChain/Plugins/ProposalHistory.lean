import DeipChain.Proposals.Database
import Mathlib.Data.Finset.Max
import Mathlib.Data.String.Basic

/-!
# The history of proposals

The plugin keeps an object for every proposal that there ever was. It hears of an operation after
its evaluator, and so of an update after the execution that the update may have brought about, and
of the end of an execution from a virtual operation. What a handler throws is logged and dropped.

The handler of an update puts the approvals of the operation into the sets of the object, and then
goes through these sets, not through the approvals to remove, and erases what it finds. An erasure
from a `flat_set` makes the iterator of the loop invalid, so where a set is not empty, what the
handler does after the first round is not defined.

The chain below is that of the proposals; its events come from transactions, from executions and
from the end of a block.
-/
namespace DeipChain.ProposalHistory

open Proposals Result

/-- `proposal_status` -/
inductive ProposalStatus where
  | pending
  | approved
  | rejected
  | failed
  | expired
  deriving DecidableEq

/-- `tx_info`, without the id of the transaction. -/
structure TxInfo where
  blockNum : Nat
  timestamp : Nat
  deriving DecidableEq

/-- `proposal_state_object` -/
structure ProposalState (Payload : Type) where
  externalId : String
  proposer : String
  status : ProposalStatus
  requiredApprovals : Finset String
  approvals : String → Option TxInfo
  rejectors : String → Option TxInfo
  ownerApprovals : Finset String
  activeApprovals : Finset String
  keyApprovals : Finset String
  proposedTransaction : Transaction Payload
  failReason : Option ProposalError
  expirationTime : Nat
  reviewPeriodTime : Option Nat
  createdAt : Nat

/-- The objects of the plugin. -/
abbrev History (Payload : Type) := List (ProposalState Payload)

/-- The exceptions of the handlers. -/
inductive HandlerError where
  | assertion
  | uniqueness
  deriving DecidableEq

abbrev Handled (Payload : Type) := Outcome HandlerError (History Payload)

variable {Payload Rest : Type}

/-! ## The handlers -/

/-- `find` in the index `by_external_id` -/
def findState (externalId : String) (history : History Payload) : Option (ProposalState Payload) :=
  history.find? fun state => state.externalId == externalId

/-- `create` of an object: the external id is a unique key. -/
def createState (state : ProposalState Payload) (history : History Payload) : Handled Payload :=
  if (findState state.externalId history).isSome then .thrown .uniqueness history
  else .returned (history ++ [state])

/-- The object of a new proposal. -/
def stateOf (proposal : Proposal Payload) : ProposalState Payload where
  externalId := proposal.externalId
  proposer := proposal.proposer
  status := .pending
  requiredApprovals := proposal.requiredActiveApprovals ∪ proposal.requiredOwnerApprovals
  approvals := fun _ => none
  rejectors := fun _ => none
  ownerApprovals := ∅
  activeApprovals := ∅
  keyApprovals := ∅
  proposedTransaction := proposal.proposedTransaction
  failReason := none
  expirationTime := proposal.expirationTime
  reviewPeriodTime := proposal.reviewPeriodTime
  createdAt := proposal.createdAt

/-- The handler of `create_proposal_operation`, which reads the proposal from the chain. -/
def createProposal (store : Store Payload Rest) (externalId : String) (history : History Payload) :
    Handled Payload :=
  match store.findProposal externalId with
  | none => .thrown .assertion history
  | some proposal => createState (stateOf proposal) history

/-- The handler of `proposal_initialized_operation`. It makes the required approvals anew from the
proposed transaction, and does not read the approvals that the genesis gives. -/
def proposalInitialized (protocol : Protocol Payload) (genesisTime : Nat)
    (genesis : GenesisProposal Payload) (history : History Payload) : Handled Payload :=
  createState
    { externalId := genesis.externalId
      proposer := genesis.proposer
      status := .pending
      requiredApprovals :=
        requiredBy (Operation.requiredActive protocol) genesis.proposedTransaction.operations ∪
          requiredBy (Operation.requiredOwner protocol) genesis.proposedTransaction.operations
      approvals := fun _ => none
      rejectors := fun _ => none
      ownerApprovals := ∅
      activeApprovals := ∅
      keyApprovals := ∅
      proposedTransaction := genesis.proposedTransaction
      failReason := none
      expirationTime := genesis.expirationTime
      reviewPeriodTime := genesis.reviewPeriodSeconds
      createdAt := genesisTime } history

/-- `insert` of the accounts that are not in the map. -/
def insertAll (accounts : Finset String) (info : TxInfo) (map : String → Option TxInfo) :
    String → Option TxInfo := fun account =>
  if account ∈ accounts then (map account).or (some info) else map account

/-- `erase` of the accounts that are in the map. -/
def eraseAll (accounts : Finset String) (map : String → Option TxInfo) : String → Option TxInfo :=
  fun account => if account ∈ accounts then none else map account

/-- The loop over a set that finds and erases each of its elements in it. The first erasure makes
the iterator of the loop invalid. -/
def eraseWalking (set : Finset String) : Outcome HandlerError (Finset String) :=
  if nonempty : set.Nonempty then .undefined (set.erase (set.min' nonempty)) else .returned set

/-- A loop over one of the sets of an object. -/
def ProposalState.walk (get : ProposalState Payload → Finset String)
    (set : Finset String → ProposalState Payload → ProposalState Payload)
    (state : ProposalState Payload) : Outcome HandlerError (ProposalState Payload) :=
  match eraseWalking (get state) with
  | .returned left => .returned (set left state)
  | .thrown error left => .thrown error (set left state)
  | .undefined left => .undefined (set left state)
  | .unfinished left => .unfinished (set left state)

/-- What the handler of an update does to an object up to the loops. -/
def ProposalState.approve (update : ProposalUpdate) (info : TxInfo) (state : ProposalState Payload) :
    ProposalState Payload :=
  { state with
    approvals := eraseAll (update.activeApprovalsToRemove ∪ update.ownerApprovalsToRemove)
      (insertAll (update.activeApprovalsToAdd ∪ update.ownerApprovalsToAdd) info state.approvals)
    activeApprovals := state.activeApprovals ∪ update.activeApprovalsToAdd
    ownerApprovals := state.ownerApprovals ∪ update.ownerApprovalsToAdd
    keyApprovals := state.keyApprovals ∪ update.keyApprovalsToAdd }

/-- What the handler of an update does to an object. -/
def ProposalState.update (update : ProposalUpdate) (info : TxInfo) (state : ProposalState Payload) :
    Outcome HandlerError (ProposalState Payload) :=
  (((state.approve update info).walk ProposalState.activeApprovals
    fun left state => { state with activeApprovals := left }).andThen fun state =>
      state.walk ProposalState.ownerApprovals
        fun left state => { state with ownerApprovals := left }).andThen fun state =>
          state.walk ProposalState.keyApprovals fun left state => { state with keyApprovals := left }

/-- `modify` of an object. -/
def modifyState (externalId : String) (state : ProposalState Payload) (history : History Payload) :
    History Payload :=
  Table.modifyFirst (fun state => state.externalId == externalId) (fun _ => state) history

/-- The handler of `update_proposal_operation` -/
def updateProposal (update : ProposalUpdate) (info : TxInfo) (history : History Payload) :
    Handled Payload :=
  match findState update.externalId history with
  | none => .thrown .assertion history
  | some state =>
    match state.update update info with
    | .returned changed => .returned (modifyState update.externalId changed history)
    | .thrown error changed => .thrown error (modifyState update.externalId changed history)
    | .undefined changed => .undefined (modifyState update.externalId changed history)
    | .unfinished changed => .unfinished (modifyState update.externalId changed history)

/-- The handler of `delete_proposal_operation` -/
def deleteProposal (externalId account : String) (info : TxInfo) (history : History Payload) :
    Handled Payload :=
  match findState externalId history with
  | none => .thrown .assertion history
  | some state => .returned (modifyState externalId { state with
      rejectors := insertAll {account} info state.rejectors
      status := .rejected } history)

/-- The handler of `proposal_status_changed_operation`, with the reason that is read from the
proposal if it has failed. -/
def statusChanged (externalId : String) (status : ProposalStatus) (failReason : Option ProposalError)
    (history : History Payload) : Handled Payload :=
  match findState externalId history with
  | none => .thrown .assertion history
  | some state => .returned (modifyState externalId { state with status, failReason } history)

/-! ## The chain with the plugin -/

/-- How a proposal was removed. -/
inductive Removal where
  | executed
  | deleted
  | expired
  | failedAtExpiry
  deriving DecidableEq

/-- The status that says it. -/
def Removal.status : Removal → ProposalStatus
  | .executed => .approved
  | .deleted => .rejected
  | .expired => .expired
  | .failedAtExpiry => .failed

/-- A proposal that is being executed: what a failure puts back, and the update that brought the
execution about, if it is not the expiration. -/
structure Execution (Payload Rest : Type) where
  proposal : Proposal Payload
  before : Database Payload Rest
  history : History Payload
  removed : List (String × Removal)
  cause : Option ProposalUpdate

/-- What the undo of a session puts back. -/
structure Moment (Payload Rest : Type) where
  store : Store Payload Rest
  history : History Payload
  removed : List (String × Removal)

/-- The database, the objects of the plugin and the executions, of which the innermost is the first.
Two fields are not in the code: how proposals were removed, and whether a handler has come to a
point from which its behaviour is not defined. -/
structure Node (Payload Rest : Type) where
  database : Database Payload Rest
  history : History Payload
  removed : List (String × Removal)
  running : List (Execution Payload Rest)
  saved : List (Moment Payload Rest)
  lost : Bool

/-- What happens to a node. An operation that its evaluator refuses leaves it as it is, and the
exception makes the execution around it fail or is undone with the session around it. -/
inductive Happening (Payload Rest : Type) where
  | operation (operation : Operation Payload)
  /-- The operations of the innermost execution have been applied. -/
  | finish
  /-- One of them has thrown. -/
  | fail (error : ProposalError)
  /-- A round of `clear_expired_proposals`. -/
  | expire
  | transaction (reference : RefBlock)
  | advance (block : Block Payload)
  | startSession
  | undo
  | squash

abbrev Step (Payload Rest : Type) := Outcome ProposalError (Node Payload Rest)

namespace Node

/-- `DEIP_TRY_NOTIFY`: what the handler throws is dropped. -/
def hears (node : Node Payload Rest) (handler : History Payload → Handled Payload) : Step Payload Rest :=
  match handler node.history with
  | .returned history => .returned { node with history }
  | .thrown _ history => .returned { node with history }
  | .undefined history => .undefined { node with history, lost := true }
  | .unfinished history => .unfinished { node with history }

def txInfo (node : Node Payload Rest) : TxInfo :=
  ⟨node.database.store.headBlockNum, node.database.store.headBlockTime⟩

/-- The evaluator of an update has returned. -/
def updated (node : Node Payload Rest) (update : ProposalUpdate) : Step Payload Rest :=
  node.hears (updateProposal update node.txInfo)

/-- An execution has failed and was undone. `push_proposal` reports it. After an update the evaluator
reports it again, and after the expiration the proposal is removed. -/
def failed (node : Node Payload Rest) (proposal : Proposal Payload) (error : ProposalError)
    (cause : Option ProposalUpdate) : Step Payload Rest :=
  (node.hears (statusChanged proposal.externalId .failed (some error))).andThen fun node =>
    match cause with
    | some update =>
      let modified := { node with
        database := { node.database with
          currentProposedTrx := none
          store := node.database.store.modifyProposal proposal.id (Proposal.fail error) } }
      (modified.hears (statusChanged proposal.externalId .failed (some error))).andThen fun node =>
        node.updated update
    | none => .returned { node with
        database := { node.database with
          currentProposedTrx := none
          store := node.database.store.removeProposal proposal.id }
        removed := (proposal.externalId, .failedAtExpiry) :: node.removed }

/-- The end of a failed execution. -/
def failExecution (node : Node Payload Rest) (execution : Execution Payload Rest)
    (running : List (Execution Payload Rest)) (error : ProposalError) : Step Payload Rest :=
  let back (database : Database Payload Rest) : Node Payload Rest := { node with
    database
    history := execution.history
    removed := execution.removed
    running }
  match execution.before.failProposal node.database execution.proposal error with
  | .thrown error database => (back database).failed execution.proposal error execution.cause
  | .returned database => .returned (back database)
  | .undefined database => .undefined (back database)
  | .unfinished database => .unfinished (back database)

/-- `push_proposal`, up to the operations of the proposal. -/
def execute (evaluators : Evaluators Payload Rest) (node : Node Payload Rest)
    (proposal : Proposal Payload) (cause : Option ProposalUpdate) : Step Payload Rest :=
  let execution : Execution Payload Rest :=
    ⟨proposal, node.database, node.history, node.removed, cause⟩
  if node.database.executing.length < evaluators.activeWitnesses node.database.store.rest * 2 then
    .returned { node with
      database := node.database.enter proposal
      running := execution :: node.running }
  else node.failExecution execution node.running .nestingDepth

/-- The end of an execution that went through. -/
def finishExecution (node : Node Payload Rest) (execution : Execution Payload Rest)
    (running : List (Execution Payload Rest)) : Step Payload Rest :=
  let left (database : Database Payload Rest) : Node Payload Rest := { node with
    database
    removed := (execution.proposal.externalId, .executed) :: node.removed
    running }
  match execution.before.finishProposal node.database execution.proposal with
  | .returned database =>
    ((left database).hears (statusChanged execution.proposal.externalId .approved none)).andThen
      fun node =>
        match execution.cause with
        | some update => node.updated update
        | none => .returned node
  | .thrown _ database => .returned (left database)
  | .undefined database => .undefined (left database)
  | .unfinished database => .unfinished (left database)

/-- `update_proposal_evaluator` -/
def update (evaluators : Evaluators Payload Rest) (node : Node Payload Rest) (update : ProposalUpdate) :
    Step Payload Rest :=
  match node.database.store.checkUpdate update with
  | .error _ => .returned node
  | .ok proposal =>
    let approved := { node with
      database := { node.database with
        store := node.database.store.modifyProposal proposal.id (Proposal.approve update) } }
    let current := proposal.updated update
    if proposal.reviewPeriodTime.isSome then approved.updated update
    else if evaluators.isAuthorizedToExecute node.database.store.rest current then
      approved.execute evaluators current (some update)
    else approved.updated update

/-- The evaluators that change the object store only. -/
def settle (node : Node Payload Rest) (result : Except ProposalError (Store Payload Rest)) :
    Step Payload Rest :=
  match result with
  | .ok store => .returned { node with database := { node.database with store } }
  | .error _ => .returned node

/-- `apply_operation`, with the notification after it. -/
def apply (evaluators : Evaluators Payload Rest) (node : Node Payload Rest) :
    Operation Payload → Step Payload Rest
  | .createProposal externalId creator proposedOps expirationTime reviewPeriodSeconds =>
    match node.database.createProposal evaluators externalId creator proposedOps expirationTime
        reviewPeriodSeconds with
    | .error _ => .returned node
    | .ok store =>
      Node.hears { node with database := { node.database with store } }
        (createProposal store externalId)
  | .updateProposal update => node.update evaluators update
  | .deleteProposal externalId account authority =>
    match node.database.deleteProposal externalId account authority with
    | .thrown _ _ => .returned node
    | .returned database =>
      Node.hears { node with database, removed := (externalId, .deleted) :: node.removed }
        (deleteProposal externalId account node.txInfo)
    | .undefined database => .undefined { node with database }
    | .unfinished database => .unfinished { node with database }
  | .createEntity kind externalId payload =>
    node.settle (node.database.createEntity evaluators kind externalId payload)
  | .other payload => node.settle do
    let rest ← evaluators.apply payload node.database.store.headBlockTime node.database.store.rest
    return { node.database.store with rest }

/-- A round of `clear_expired_proposals` -/
def expire (evaluators : Evaluators Payload Rest) (node : Node Payload Rest) : Step Payload Rest :=
  match node.running, node.database.store.firstToExpire with
  | [], some proposal =>
    if proposal.expirationTime ≤ node.database.store.headBlockTime then
      if evaluators.isAuthorizedToExecute node.database.store.rest proposal then
        node.execute evaluators proposal none
      else
        (node.hears (statusChanged proposal.externalId .expired none)).andThen fun node =>
          .returned { node with
            database := { node.database with
              store := node.database.store.removeProposal proposal.id }
            removed := (proposal.externalId, .expired) :: node.removed }
    else .returned node
  | _, _ => .returned node

def step (evaluators : Evaluators Payload Rest) (node : Node Payload Rest) :
    Happening Payload Rest → Step Payload Rest
  | .operation operation => node.apply evaluators operation
  | .finish =>
    match node.running with
    | [] => .returned node
    | execution :: running => node.finishExecution execution running
  | .fail error =>
    match node.running with
    | [] => .returned node
    | execution :: running => node.failExecution execution running error
  | .expire => node.expire evaluators
  | .transaction reference => .returned { node with
      database := { node.database with currentTrxReference := reference } }
  | .advance block => .returned { node with
      database := { node.database with store := node.database.store.advance evaluators block } }
  | .startSession => .returned { node with
      saved := ⟨node.database.store, node.history, node.removed⟩ :: node.saved }
  | .undo =>
    match node.saved with
    | [] => .returned node
    | moment :: saved => .returned { node with
        database := { node.database with store := moment.store, executing := [] }
        history := moment.history
        removed := moment.removed
        running := []
        saved }
  | .squash => .returned { node with saved := node.saved.tail }

/-- What a node comes to. -/
def run (evaluators : Evaluators Payload Rest) (node : Node Payload Rest)
    (happenings : List (Happening Payload Rest)) : Step Payload Rest :=
  Outcome.each (fun _ node happening => node.step evaluators happening) node happenings

end Node

/-- What the handlers make of the proposals of the genesis. -/
def initialHistory (protocol : Protocol Payload) (genesisTime : Nat)
    (proposals : List (GenesisProposal Payload)) : History Payload :=
  proposals.foldl (fun history genesis =>
    (proposalInitialized protocol genesisTime genesis history).state) []

/-- The node after the genesis. -/
def genesis (evaluators : Evaluators Payload Rest) (time : Nat) (recentEntities : List RecentEntity)
    (entities : List (EntityKind × String)) (rest : Rest) (proposals : List (GenesisProposal Payload)) :
    Except ProposalError (Node Payload Rest) := do
  let database ← Proposals.genesis evaluators time recentEntities entities rest proposals
  return ⟨database, initialHistory evaluators.toProtocol time proposals, [], [], [], false⟩

end DeipChain.ProposalHistory
