import DeipChain.Lib.Result
import Mathlib.Data.Finset.SDiff

/-!
# Operations that carry operations

A proposal carries a transaction that is executed once enough accounts have approved it, and
an operation of that transaction may create, update or delete a proposal itself. Besides
these three operations there are those that create an entity under an external id, and all
others. What an operation does to the rest of the objects is left open; what
it takes to be well formed and which ids it mentions is here.
-/
namespace DeipChain.Proposals

open Result

/-- `ref_block_num` and `ref_block_prefix` -/
structure RefBlock where
  number : Nat
  idPrefix : Nat
  deriving DecidableEq

/-- The objects that an operation guarded by `duplicated_entity_guard` creates, other than
proposals. -/
inductive EntityKind where
  | account (isUserAccount : Bool)
  | research
  | researchContent
  | researchTokenSale
  | researchLicense
  | review
  | reviewVote
  deriving DecidableEq

/-- The accounts of users and of research groups are in one index. -/
def EntityKind.table : EntityKind → EntityKind
  | .account _ => .account true
  | kind => kind

/-- The services that call `create_recent_entity`: that of reviews and that of votes for
reviews do not. -/
def EntityKind.recorded : EntityKind → Bool
  | .review => false
  | .reviewVote => false
  | _ => true

/-- `update_proposal_operation` -/
structure ProposalUpdate where
  externalId : String
  activeApprovalsToAdd : Finset String
  activeApprovalsToRemove : Finset String
  ownerApprovalsToAdd : Finset String
  ownerApprovalsToRemove : Finset String
  keyApprovalsToAdd : Finset String
  keyApprovalsToRemove : Finset String

/-- The operations. The payload holds the fields that are not read here. -/
inductive Operation (Payload : Type) where
  | createProposal (externalId creator : String) (proposedOps : List (Operation Payload))
    (expirationTime : Nat) (reviewPeriodSeconds : Option Nat)
  | updateProposal (update : ProposalUpdate)
  | deleteProposal (externalId account : String) (authority : Nat)
  | createEntity (kind : EntityKind) (externalId : String) (payload : Payload)
  | other (payload : Payload)

/-- `transaction` -/
structure Transaction (Payload : Type) where
  reference : RefBlock
  expiration : Nat
  operations : List (Operation Payload)

/-- The exceptions of the functions below. -/
inductive ProposalError where
  | noOperations
  | invalid (message : String)
  | entityIdMismatch (id : String)
  | duplicatedProposal (id : String)
  | updatesParent (id : String)
  | deletesParent (id : String)
  | addsAndRemoves
  | keysNotSupported
  | authorityRange
  | duplicatedEntity (id : String)
  | expiredOnCreation
  | expirationTooFar
  | reviewPeriodTooLong
  | otherAuthorities
  | ambiguousAuthorities
  | uniqueness (id : String)
  | unknownProposal (id : String)
  | inReviewPeriod
  | approvalsGiven
  | approvalsMissing
  | notAuthoritative
  | nestingDepth
  | tapos
  | earlyBlock
  | evaluator (message : String)
  deriving DecidableEq

variable {Payload : Type}

mutual

/-- The ids that `duplicated_entity_guard` looks at. -/
def Operation.entityIds : Operation Payload → List String
  | .createProposal externalId _ proposedOps _ _ => externalId :: entityIdsOf proposedOps
  | .createEntity _ externalId _ => [externalId]
  | .updateProposal _ => []
  | .deleteProposal _ _ _ => []
  | .other _ => []

def entityIdsOf : List (Operation Payload) → List String
  | [] => []
  | operation :: behind => operation.entityIds ++ entityIdsOf behind

end

/-!
## What an operation has to look like
-/

/-- What the operations with a payload have to look like, and how an entity is hashed. The
hash leaves out the id of the entity. -/
structure Protocol (Payload : Type) where
  validate : Payload → Except ProposalError Unit
  entityHash : RefBlock → Operation Payload → String
  requiredActive : Payload → Finset String
  requiredOwner : Payload → Finset String
  requiresOther : Payload → Bool

/-- `proposal_nesting_guard`: the proposals visited so far, and the last of them. -/
structure Nesting where
  stages : List String
  lastStageId : String

/-- The check of a proposal that is updated or deleted. -/
def Nesting.reaches (nesting : Nesting) (id : String) : Prop :=
  nesting.lastStageId = id ∨ id ∉ nesting.stages

instance (nesting : Nesting) (id : String) : Decidable (nesting.reaches id) :=
  inferInstanceAs (Decidable (_ ∨ _))

mutual

def Operation.guardNesting (nesting : Nesting) : Operation Payload → Except ProposalError Nesting
  | .createProposal externalId _ proposedOps _ _ => do
    require (externalId ∉ nesting.stages) (.duplicatedProposal externalId)
    guardNestingOf { stages := externalId :: nesting.stages, lastStageId := externalId } proposedOps
  | .updateProposal update => do
    require (nesting.reaches update.externalId) (.updatesParent update.externalId)
    pure nesting
  | .deleteProposal externalId _ _ => do
    require (nesting.reaches externalId) (.deletesParent externalId)
    pure nesting
  | .createEntity _ _ _ => pure nesting
  | .other _ => pure nesting

def guardNestingOf (nesting : Nesting) : List (Operation Payload) → Except ProposalError Nesting
  | [] => pure nesting
  | operation :: behind => do
    let visited ← operation.guardNesting nesting
    guardNestingOf visited behind

end

/-- `update_proposal_operation::validate` -/
def ProposalUpdate.validate (update : ProposalUpdate) : Except ProposalError Unit := do
  require (¬(update.activeApprovalsToAdd = ∅ ∧ update.activeApprovalsToRemove = ∅ ∧
    update.ownerApprovalsToAdd = ∅ ∧ update.ownerApprovalsToRemove = ∅ ∧
    update.keyApprovalsToAdd = ∅ ∧ update.keyApprovalsToRemove = ∅)) .noOperations
  require (update.activeApprovalsToAdd ∩ update.activeApprovalsToRemove = ∅) .addsAndRemoves
  require (update.ownerApprovalsToAdd ∩ update.ownerApprovalsToRemove = ∅) .addsAndRemoves
  require (update.keyApprovalsToAdd = ∅) .keysNotSupported
  require (update.keyApprovalsToRemove = ∅) .keysNotSupported

mutual

/-- `operation_validate` -/
def Operation.validate (protocol : Protocol Payload) : Operation Payload → Except ProposalError Unit
  | .createProposal externalId creator proposedOps expirationTime reviewPeriodSeconds => do
    require (proposedOps ≠ []) .noOperations
    validateAll protocol proposedOps
    let _ ← (Operation.createProposal externalId creator proposedOps expirationTime
      reviewPeriodSeconds).guardNesting { stages := [], lastStageId := "" }
  | .updateProposal update => update.validate
  | .deleteProposal _ _ authority => require (1 ≤ authority ∧ authority ≤ 2) .authorityRange
  | .createEntity _ _ payload => protocol.validate payload
  | .other payload => protocol.validate payload

def validateAll (protocol : Protocol Payload) : List (Operation Payload) → Except ProposalError Unit
  | [] => pure ⟨⟩
  | operation :: behind => do
    operation.validate protocol
    validateAll protocol behind

end

mutual

/-- `entity_validate`: the id of an entity is the hash of its operation under the reference
block, unless it is the name of a user's account. -/
def Operation.entityValidate (protocol : Protocol Payload) (reference : RefBlock) :
    Operation Payload → Except ProposalError Unit
  | .createProposal externalId creator proposedOps expirationTime reviewPeriodSeconds => do
    require (externalId = protocol.entityHash reference
      (.createProposal externalId creator proposedOps expirationTime reviewPeriodSeconds))
      (.entityIdMismatch externalId)
    entityValidateAll protocol reference proposedOps
  | .createEntity kind externalId payload =>
    require (kind = .account true ∨
      externalId = protocol.entityHash reference (.createEntity kind externalId payload))
      (.entityIdMismatch externalId)
  | .updateProposal _ => pure ⟨⟩
  | .deleteProposal _ _ _ => pure ⟨⟩
  | .other _ => pure ⟨⟩

def entityValidateAll (protocol : Protocol Payload) (reference : RefBlock) :
    List (Operation Payload) → Except ProposalError Unit
  | [] => pure ⟨⟩
  | operation :: behind => do
    operation.entityValidate protocol reference
    entityValidateAll protocol reference behind

end

/-- `transaction::validate` -/
def Transaction.validate (protocol : Protocol Payload) (trx : Transaction Payload) :
    Except ProposalError Unit := do
  require (trx.operations ≠ []) .noOperations
  trx.operations.forM (fun operation => do
    operation.validate protocol
    operation.entityValidate protocol trx.reference)

/-- `get_required_active_authorities` -/
def Operation.requiredActive (protocol : Protocol Payload) : Operation Payload → Finset String
  | .createProposal _ creator _ _ _ => {creator}
  | .updateProposal update => update.activeApprovalsToAdd ∪ update.activeApprovalsToRemove
  | .deleteProposal _ account _ => {account}
  | .createEntity _ _ payload => protocol.requiredActive payload
  | .other payload => protocol.requiredActive payload

/-- `get_required_owner_authorities` -/
def Operation.requiredOwner (protocol : Protocol Payload) : Operation Payload → Finset String
  | .createProposal _ _ _ _ _ => ∅
  | .updateProposal update => update.ownerApprovalsToAdd ∪ update.ownerApprovalsToRemove
  | .deleteProposal _ _ _ => ∅
  | .createEntity _ _ payload => protocol.requiredOwner payload
  | .other payload => protocol.requiredOwner payload

/-- Whether `get_required_authorities` asks for an authority of its own. -/
def Operation.requiresOther (protocol : Protocol Payload) : Operation Payload → Bool
  | .createProposal _ _ _ _ _ => false
  | .updateProposal update => update.keyApprovalsToAdd ∪ update.keyApprovalsToRemove ≠ ∅
  | .deleteProposal _ _ _ => false
  | .createEntity _ _ payload => protocol.requiresOther payload
  | .other payload => protocol.requiresOther payload

/-- The union over some operations. -/
def requiredBy (required : Operation Payload → Finset String) (operations : List (Operation Payload)) :
    Finset String :=
  operations.foldr (fun operation names => required operation ∪ names) ∅

end DeipChain.Proposals
