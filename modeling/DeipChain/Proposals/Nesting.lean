import DeipChain.Proposals.Operations

/-!
# The nesting of proposals

Before a proposal is created, its operations are walked with the ids of the proposals that the
walk has met and the last of these. An id that is met again is refused, and so is an update or a
deletion of a proposal that was met, unless it is the last one. The walk does not know where a
proposal ends. So it takes a proposal that was met before for one that encloses, and the last one
for one that does not.
-/
namespace DeipChain.Proposals

open Result

variable {Payload : Type}

/-- `is_virtual_operation` -/
def Operation.isVirtual (isVirtual : Payload → Bool) : Operation Payload → Bool
  | .other payload => isVirtual payload
  | _ => false

/-! ## The walk -/

mutual

/-- `proposal_nesting_guard`, with its check of virtual operations. -/
def Operation.guardNested (isVirtual : Payload → Bool) (nesting : Nesting) :
    Operation Payload → Except ProposalError Nesting
  | .createProposal externalId _ proposedOps _ _ => do
    require (externalId ∉ nesting.stages) (.duplicatedProposal externalId)
    guardNestedOf isVirtual { stages := externalId :: nesting.stages, lastStageId := externalId }
      proposedOps
  | .updateProposal update => do
    require (nesting.reaches update.externalId) (.updatesParent update.externalId)
    pure nesting
  | .deleteProposal externalId _ _ => do
    require (nesting.reaches externalId) (.deletesParent externalId)
    pure nesting
  | .createEntity _ _ _ => pure nesting
  | .other _ => pure nesting

def guardNestedOf (isVirtual : Payload → Bool) (nesting : Nesting) :
    List (Operation Payload) → Except ProposalError Nesting
  | [] => pure nesting
  | operation :: behind => do
    require (operation.isVirtual isVirtual = false)
      (.invalid "Virtual operations can not be nested in proposals")
    let visited ← operation.guardNested isVirtual nesting
    guardNestedOf isVirtual visited behind

end

mutual

/-- What `operation_validate` asks of the nesting: each nested operation is validated, and then
each proposal is walked. -/
def Operation.validateNesting (isVirtual : Payload → Bool) :
    Operation Payload → Except ProposalError Unit
  | .createProposal externalId creator proposedOps expirationTime reviewPeriodSeconds => do
    validateNestingOf isVirtual proposedOps
    let _ ← (Operation.createProposal externalId creator proposedOps expirationTime
      reviewPeriodSeconds).guardNested isVirtual { stages := [], lastStageId := "" }
  | .other payload => require (isVirtual payload = false) (.invalid "This is a virtual operation")
  | .updateProposal _ => pure ⟨⟩
  | .deleteProposal _ _ _ => pure ⟨⟩
  | .createEntity _ _ _ => pure ⟨⟩

def validateNestingOf (isVirtual : Payload → Bool) :
    List (Operation Payload) → Except ProposalError Unit
  | [] => pure ⟨⟩
  | operation :: behind => do
    operation.validateNesting isVirtual
    validateNestingOf isVirtual behind

end

/-! ## What the walk is for -/

mutual

/-- The ids of the proposals that an operation creates, in the order of the walk. -/
def Operation.createdIds : Operation Payload → List String
  | .createProposal externalId _ proposedOps _ _ => externalId :: createdIdsOf proposedOps
  | .updateProposal _ => []
  | .deleteProposal _ _ _ => []
  | .createEntity _ _ _ => []
  | .other _ => []

def createdIdsOf : List (Operation Payload) → List String
  | [] => []
  | operation :: behind => operation.createdIds ++ createdIdsOf behind

end

mutual

/-- Whether a virtual operation is nested. -/
def Operation.nestsVirtual (isVirtual : Payload → Bool) : Operation Payload → Bool
  | .createProposal _ _ proposedOps _ _ => nestsVirtualOf isVirtual proposedOps
  | .updateProposal _ => false
  | .deleteProposal _ _ _ => false
  | .createEntity _ _ _ => false
  | .other _ => false

def nestsVirtualOf (isVirtual : Payload → Bool) : List (Operation Payload) → Bool
  | [] => false
  | operation :: behind =>
    operation.isVirtual isVirtual || operation.nestsVirtual isVirtual ||
      nestsVirtualOf isVirtual behind

end

/-- The target of an update or a deletion, with the proposals that enclose the operation and those
that are created before it, the latest first. -/
structure Target where
  externalId : String
  enclosing : List String
  created : List String
deriving DecidableEq

namespace Target

def Encloses (target : Target) : Prop := target.externalId ∈ target.enclosing

/-- No proposal is created between the target and the operation. -/
def IsLatest (target : Target) : Prop := target.created.head? = some target.externalId

/-- The target is created before the operation, and another proposal after it. -/
def IsEarlier (target : Target) : Prop :=
  target.externalId ∈ target.created ∧ ¬ target.IsLatest

instance (target : Target) : Decidable target.Encloses := inferInstanceAs (Decidable (_ ∈ _))

instance (target : Target) : Decidable target.IsLatest := inferInstanceAs (Decidable (_ = _))

instance (target : Target) : Decidable target.IsEarlier := inferInstanceAs (Decidable (_ ∧ _))

end Target

mutual

/-- The targets of the updates and deletions in an operation. -/
def Operation.targets (enclosing created : List String) : Operation Payload → List Target
  | .createProposal externalId _ proposedOps _ _ =>
    targetsOf (externalId :: enclosing) (externalId :: created) proposedOps
  | .updateProposal update => [⟨update.externalId, enclosing, created⟩]
  | .deleteProposal externalId _ _ => [⟨externalId, enclosing, created⟩]
  | .createEntity _ _ _ => []
  | .other _ => []

def targetsOf (enclosing created : List String) : List (Operation Payload) → List Target
  | [] => []
  | operation :: behind => operation.targets enclosing created ++
    targetsOf enclosing (operation.createdIds.reverse ++ created) behind

end

/-- No proposal is created twice, no virtual operation is nested, and no proposal is updated or
deleted from inside. -/
structure WellNested (isVirtual : Payload → Bool) (operation : Operation Payload) : Prop where
  distinct : operation.createdIds.Nodup
  real : operation.nestsVirtual isVirtual = false
  outside : ∀ target ∈ operation.targets [] [], ¬ target.Encloses

/-- The walk tells nothing wrong of the nesting: it is refused for an id or a virtual operation, or
some operation targets an enclosing proposal after another one is created, or there is an operation
that targets an enclosing proposal just if there is one that targets an earlier proposal which does
not enclose it. -/
def Foreseen (isVirtual : Payload → Bool) (operation : Operation Payload) : Prop :=
  ¬ operation.createdIds.Nodup ∨ operation.nestsVirtual isVirtual = true ∨
    (∃ target ∈ operation.targets [] [], target.Encloses ∧ target.IsEarlier) ∨
    ((∃ target ∈ operation.targets [] [], target.Encloses ∧ target.IsLatest) ↔
      ∃ target ∈ operation.targets [] [], ¬ target.Encloses ∧ target.IsEarlier)

mutual

/-- Where no virtual operation is nested, this is the walk that `Operation.validate` makes. -/
theorem Operation.guardNested_eq {isVirtual : Payload → Bool} (nesting : Nesting) :
    ∀ operation : Operation Payload, operation.nestsVirtual isVirtual = false →
      operation.guardNested isVirtual nesting = operation.guardNesting nesting
  | .createProposal _ _ proposedOps _ _, real => by
    rw [Operation.nestsVirtual] at real
    rw [Operation.guardNested, Operation.guardNesting, guardNestedOf_eq _ proposedOps real]
  | .updateProposal _, _ => by rw [Operation.guardNested, Operation.guardNesting]
  | .deleteProposal _ _ _, _ => by rw [Operation.guardNested, Operation.guardNesting]
  | .createEntity _ _ _, _ => by rw [Operation.guardNested, Operation.guardNesting]
  | .other _, _ => by rw [Operation.guardNested, Operation.guardNesting]

theorem guardNestedOf_eq {isVirtual : Payload → Bool} (nesting : Nesting) :
    ∀ operations : List (Operation Payload), nestsVirtualOf isVirtual operations = false →
      guardNestedOf isVirtual nesting operations = guardNestingOf nesting operations
  | [], _ => by rw [guardNestedOf, guardNestingOf]
  | operation :: behind, real => by
    rw [nestsVirtualOf, Bool.or_eq_false_iff, Bool.or_eq_false_iff] at real
    have later (visited : Nesting) := guardNestedOf_eq visited behind real.2
    rw [guardNestedOf, guardNestingOf, operation.guardNested_eq nesting real.1.2, require,
      if_pos real.1.1]
    simp only [later]
    rfl

end

/-! ## What the walk accepts -/

/-- The state of the walk after some proposals, the latest first. -/
def Nesting.after (created : List String) : Nesting where
  stages := created
  lastStageId := created.headD ""

theorem Nesting.reaches_after (created : List String) (target : Target)
    (before : target.created = created) :
    (Nesting.after created).reaches target.externalId ↔ ¬ target.IsEarlier := by
  subst before
  rw [reaches, Target.IsEarlier, Target.IsLatest, after]
  cases target.created with
  | nil => simp
  | cons latest rest =>
    rw [List.headD_cons, List.head?_cons, Option.some.injEq, not_and_or, not_not, or_comm]

/-- What the walk demands of the ids and targets that it meets after some proposals. -/
structure Passes (created ids : List String) (nestsVirtual : Bool) (targets : List Target) :
    Prop where
  distinct : ids.Nodup
  fresh : ∀ id ∈ ids, id ∉ created
  real : nestsVirtual = false
  latest : ∀ target ∈ targets, ¬ target.IsEarlier

theorem Passes.none (created : List String) : Passes created [] false [] :=
  ⟨.nil, by simp, rfl, by simp⟩

theorem passes_target {created : List String} {target : Target} :
    Passes created [] false [target] ↔ ¬ target.IsEarlier :=
  ⟨fun passes => passes.latest target (List.mem_singleton.mpr rfl),
    fun latest => ⟨.nil, by simp, rfl, by simpa using latest⟩⟩

theorem passes_create {created ids : List String} {id : String} {nestsVirtual : Bool}
    {targets : List Target} : Passes created (id :: ids) nestsVirtual targets ↔
      id ∉ created ∧ Passes (id :: created) ids nestsVirtual targets := by
  constructor
  · rintro ⟨distinct, fresh, real, latest⟩
    rw [List.nodup_cons] at distinct
    rw [List.forall_mem_cons] at fresh
    refine ⟨fresh.1, distinct.2, fun other member => ?_, real, latest⟩
    rw [List.mem_cons, not_or]
    exact ⟨fun same => distinct.1 (same ▸ member), fresh.2 other member⟩
  · rintro ⟨new, distinct, fresh, real, latest⟩
    refine ⟨List.nodup_cons.mpr ⟨fun member => ?_, distinct⟩, List.forall_mem_cons.mpr
      ⟨new, fun other member => ?_⟩, real, latest⟩
    · exact fresh id member List.mem_cons_self
    · exact fun before => fresh other member (List.mem_cons_of_mem _ before)

theorem passes_append {created ids ids' : List String} {virtual virtual' : Bool}
    {targets targets' : List Target} :
    Passes created (ids ++ ids') (virtual || virtual') (targets ++ targets') ↔
      Passes created ids virtual targets ∧ Passes (ids.reverse ++ created) ids' virtual' targets' := by
  constructor
  · rintro ⟨distinct, fresh, real, latest⟩
    rw [List.nodup_append] at distinct
    rw [List.forall_mem_append] at fresh latest
    rw [Bool.or_eq_false_iff] at real
    refine ⟨⟨distinct.1, fresh.1, real.1, latest.1⟩, distinct.2.1, fun id member => ?_, real.2,
      latest.2⟩
    rw [List.mem_append, List.mem_reverse, not_or]
    exact ⟨fun earlier => distinct.2.2 id earlier id member rfl, fresh.2 id member⟩
  · rintro ⟨⟨distinct, fresh, real, latest⟩, distinct', fresh', real', latest'⟩
    simp only [List.mem_append, List.mem_reverse, not_or] at fresh'
    refine ⟨List.nodup_append.mpr ⟨distinct, distinct', ?_⟩, List.forall_mem_append.mpr ⟨fresh, ?_⟩,
      Bool.or_eq_false_iff.mpr ⟨real, real'⟩, List.forall_mem_append.mpr ⟨latest, latest'⟩⟩
    · rintro id member _ member' rfl
      exact (fresh' id member').1 member
    · exact fun id member => (fresh' id member).2

mutual

/-- The walk accepts an operation just if it passes, whatever encloses the operation. -/
theorem Operation.guardNested_ok_iff (isVirtual : Payload → Bool) (enclosing created : List String)
    (result : Nesting) : ∀ operation : Operation Payload,
    operation.guardNested isVirtual (.after created) = .ok result ↔
      Passes created operation.createdIds (operation.nestsVirtual isVirtual)
        (operation.targets enclosing created) ∧
      result = .after (operation.createdIds.reverse ++ created)
  | .createProposal externalId _ proposedOps _ _ => by
    have walked := guardNestedOf_ok_iff isVirtual (externalId :: enclosing) (externalId :: created)
      result proposedOps
    rw [Operation.guardNested, bind_ok_iff, Operation.createdIds, Operation.nestsVirtual,
      Operation.targets, passes_create,
      List.reverse_cons, List.append_assoc, List.singleton_append]
    simp only [require_ok_iff]
    change (∃ _, externalId ∉ created ∧
      guardNestedOf isVirtual (.after (externalId :: created)) proposedOps = .ok result) ↔ _
    rw [walked, and_assoc]
    exact ⟨fun ⟨_, new, rest⟩ => ⟨new, rest⟩, fun ⟨new, rest⟩ => ⟨⟨⟩, new, rest⟩⟩
  | .updateProposal update => by
    have reached := Nesting.reaches_after created ⟨update.externalId, enclosing, created⟩ rfl
    rw [Operation.guardNested, bind_ok_iff, Operation.createdIds, Operation.nestsVirtual,
      Operation.targets, passes_target, ← reached]
    simp only [require_ok_iff, pure_ok_iff]
    exact ⟨fun ⟨_, reaches, same⟩ => ⟨reaches, same.symm⟩,
      fun ⟨reaches, same⟩ => ⟨⟨⟩, reaches, same.symm⟩⟩
  | .deleteProposal externalId _ _ => by
    have reached := Nesting.reaches_after created ⟨externalId, enclosing, created⟩ rfl
    rw [Operation.guardNested, bind_ok_iff, Operation.createdIds, Operation.nestsVirtual,
      Operation.targets, passes_target, ← reached]
    simp only [require_ok_iff, pure_ok_iff]
    exact ⟨fun ⟨_, reaches, same⟩ => ⟨reaches, same.symm⟩,
      fun ⟨reaches, same⟩ => ⟨⟨⟩, reaches, same.symm⟩⟩
  | .createEntity _ _ _ => by
    rw [Operation.guardNested, pure_ok_iff, Operation.createdIds, Operation.nestsVirtual,
      Operation.targets]
    exact ⟨fun same => ⟨.none created, same.symm⟩, fun passed => passed.2.symm⟩
  | .other _ => by
    rw [Operation.guardNested, pure_ok_iff, Operation.createdIds, Operation.nestsVirtual,
      Operation.targets]
    exact ⟨fun same => ⟨.none created, same.symm⟩, fun passed => passed.2.symm⟩

theorem guardNestedOf_ok_iff (isVirtual : Payload → Bool) (enclosing created : List String)
    (result : Nesting) : ∀ operations : List (Operation Payload),
    guardNestedOf isVirtual (.after created) operations = .ok result ↔
      Passes created (createdIdsOf operations) (nestsVirtualOf isVirtual operations)
        (targetsOf enclosing created operations) ∧
      result = .after ((createdIdsOf operations).reverse ++ created)
  | [] => by
    rw [guardNestedOf, pure_ok_iff, createdIdsOf, nestsVirtualOf, targetsOf]
    exact ⟨fun same => ⟨.none created, same.symm⟩, fun passed => passed.2.symm⟩
  | operation :: behind => by
    have first := fun nesting => operation.guardNested_ok_iff isVirtual enclosing created nesting
    have later := guardNestedOf_ok_iff isVirtual enclosing (operation.createdIds.reverse ++ created)
      result behind
    have virtual : Passes created (createdIdsOf (operation :: behind))
        (nestsVirtualOf isVirtual (operation :: behind))
        (targetsOf enclosing created (operation :: behind)) ↔
        operation.isVirtual isVirtual = false ∧
        Passes created (operation.createdIds ++ createdIdsOf behind)
          (operation.nestsVirtual isVirtual || nestsVirtualOf isVirtual behind)
          (operation.targets enclosing created ++
            targetsOf enclosing (operation.createdIds.reverse ++ created) behind) := by
      rw [createdIdsOf, nestsVirtualOf, targetsOf, Bool.or_assoc]
      constructor
      · rintro ⟨distinct, fresh, real, latest⟩
        rw [Bool.or_eq_false_iff] at real
        exact ⟨real.1, distinct, fresh, real.2, latest⟩
      · rintro ⟨own, distinct, fresh, real, latest⟩
        exact ⟨distinct, fresh, Bool.or_eq_false_iff.mpr ⟨own, real⟩, latest⟩
    rw [guardNestedOf, bind_ok_iff, virtual, passes_append, createdIdsOf, List.reverse_append,
      List.append_assoc]
    simp only [bind_ok_iff, require_ok_iff, first]
    constructor
    · rintro ⟨_, own, nesting, ⟨passes, rfl⟩, rest⟩
      rw [later] at rest
      exact ⟨⟨own, passes, rest.1⟩, rest.2⟩
    · rintro ⟨⟨own, passes, rest⟩, same⟩
      exact ⟨⟨⟩, own, _, ⟨passes, rfl⟩, later.mpr ⟨rest, same⟩⟩

end

/-! ## The walks of the nested proposals -/

/-- A walk that has met fewer proposals, and the same last one. -/
structure Nesting.Within (small big : Nesting) : Prop where
  stages : small.stages ⊆ big.stages
  lastStageId : small.lastStageId = big.lastStageId

namespace Nesting.Within

variable {small big : Nesting}

theorem create (stages : small.stages ⊆ big.stages) (id : String) :
    Nesting.Within ⟨id :: small.stages, id⟩ ⟨id :: big.stages, id⟩ :=
  ⟨List.cons_subset_cons id stages, rfl⟩

theorem reaches (within : small.Within big) {id : String} (reached : big.reaches id) :
    small.reaches id := by
  rcases reached with last | unseen
  · exact .inl (within.lastStageId.trans last)
  · exact .inr fun seen => unseen (within.stages seen)

end Nesting.Within

mutual

/-- A walk that has met fewer proposals accepts no less. -/
theorem Operation.guardNested_within (isVirtual : Payload → Bool) {small big result : Nesting}
    (within : small.Within big) : ∀ operation : Operation Payload,
    operation.guardNested isVirtual big = .ok result →
    ∃ result', operation.guardNested isVirtual small = .ok result' ∧ result'.Within result
  | .createProposal externalId _ proposedOps _ _, accepted => by
    rw [Operation.guardNested, bind_ok_iff] at accepted
    obtain ⟨_, fresh, walked⟩ := accepted
    rw [require_ok_iff] at fresh
    obtain ⟨result', walked', smaller⟩ :=
      guardNestedOf_within isVirtual (.create within.stages externalId) proposedOps walked
    refine ⟨result', ?_, smaller⟩
    rw [Operation.guardNested, bind_ok_iff]
    exact ⟨⟨⟩, require_ok_iff.mpr fun seen => fresh (within.stages seen), walked'⟩
  | .updateProposal update, accepted => by
    rw [Operation.guardNested, bind_ok_iff] at accepted
    obtain ⟨_, reached, same⟩ := accepted
    rw [pure_ok_iff] at same
    subst same
    refine ⟨small, ?_, within⟩
    rw [Operation.guardNested, bind_ok_iff]
    exact ⟨⟨⟩, require_ok_iff.mpr (within.reaches (require_ok_iff.mp reached)), rfl⟩
  | .deleteProposal _ _ _, accepted => by
    rw [Operation.guardNested, bind_ok_iff] at accepted
    obtain ⟨_, reached, same⟩ := accepted
    rw [pure_ok_iff] at same
    subst same
    refine ⟨small, ?_, within⟩
    rw [Operation.guardNested, bind_ok_iff]
    exact ⟨⟨⟩, require_ok_iff.mpr (within.reaches (require_ok_iff.mp reached)), rfl⟩
  | .createEntity _ _ _, accepted => by
    rw [Operation.guardNested, pure_ok_iff] at accepted
    subst accepted
    exact ⟨small, by rw [Operation.guardNested]; rfl, within⟩
  | .other _, accepted => by
    rw [Operation.guardNested, pure_ok_iff] at accepted
    subst accepted
    exact ⟨small, by rw [Operation.guardNested]; rfl, within⟩

theorem guardNestedOf_within (isVirtual : Payload → Bool) {small big result : Nesting}
    (within : small.Within big) : ∀ operations : List (Operation Payload),
    guardNestedOf isVirtual big operations = .ok result →
    ∃ result', guardNestedOf isVirtual small operations = .ok result' ∧ result'.Within result
  | [], accepted => by
    rw [guardNestedOf, pure_ok_iff] at accepted
    subst accepted
    exact ⟨small, by rw [guardNestedOf]; rfl, within⟩
  | operation :: behind, accepted => by
    rw [guardNestedOf, bind_ok_iff] at accepted
    obtain ⟨_, real, walked⟩ := accepted
    obtain ⟨nesting, first, later⟩ := bind_ok_iff.mp walked
    obtain ⟨nesting', first', smaller⟩ := operation.guardNested_within isVirtual within first
    obtain ⟨result', later', smaller'⟩ := guardNestedOf_within isVirtual smaller behind later
    refine ⟨result', ?_, smaller'⟩
    rw [guardNestedOf, bind_ok_iff]
    exact ⟨⟨⟩, real, bind_ok_iff.mpr ⟨nesting', first', later'⟩⟩

end

/-- A proposal that a walk accepts is accepted by a walk of its own. -/
theorem guardNested_create_own {isVirtual : Payload → Bool} {nesting result : Nesting}
    {externalId creator : String} {proposedOps : List (Operation Payload)} {expirationTime : Nat}
    {reviewPeriodSeconds : Option Nat}
    (accepted : (Operation.createProposal externalId creator proposedOps expirationTime
      reviewPeriodSeconds).guardNested isVirtual nesting = .ok result) :
    ∃ result', (Operation.createProposal externalId creator proposedOps expirationTime
      reviewPeriodSeconds).guardNested isVirtual (.after []) = .ok result' := by
  rw [Operation.guardNested, bind_ok_iff] at accepted
  obtain ⟨_, _, walked⟩ := accepted
  have smaller : Nesting.Within ⟨[externalId], externalId⟩
      ⟨externalId :: nesting.stages, externalId⟩ := ⟨by simp, rfl⟩
  obtain ⟨result', walked', _⟩ := guardNestedOf_within isVirtual smaller proposedOps walked
  refine ⟨result', ?_⟩
  rw [Operation.guardNested, bind_ok_iff]
  exact ⟨⟨⟩, require_ok_iff.mpr List.not_mem_nil, walked'⟩

mutual

/-- Where a walk accepts an operation, the walks of the proposals in it accept these. -/
theorem Operation.validateNesting_of_guard {isVirtual : Payload → Bool} {nesting result : Nesting} :
    ∀ operation : Operation Payload, operation.isVirtual isVirtual = false →
    operation.guardNested isVirtual nesting = .ok result →
    operation.validateNesting isVirtual = .ok ⟨⟩
  | .createProposal externalId _ proposedOps _ _, _, accepted => by
    obtain ⟨own, walkedOwn⟩ := guardNested_create_own accepted
    rw [Operation.guardNested, bind_ok_iff] at accepted
    obtain ⟨_, _, walked⟩ := accepted
    rw [Operation.validateNesting, bind_ok_iff]
    exact ⟨⟨⟩, validateNestingOf_of_guard proposedOps walked,
      bind_ok_iff.mpr ⟨own, walkedOwn, rfl⟩⟩
  | .updateProposal _, _, _ => by
    rw [Operation.validateNesting]
    rfl
  | .deleteProposal _ _ _, _, _ => by
    rw [Operation.validateNesting]
    rfl
  | .createEntity _ _ _, _, _ => by
    rw [Operation.validateNesting]
    rfl
  | .other _, real, _ => by
    rw [Operation.validateNesting, require_ok_iff]
    exact real

theorem validateNestingOf_of_guard {isVirtual : Payload → Bool} {nesting result : Nesting} :
    ∀ operations : List (Operation Payload),
    guardNestedOf isVirtual nesting operations = .ok result →
    validateNestingOf isVirtual operations = .ok ⟨⟩
  | [], _ => by
    rw [validateNestingOf]
    rfl
  | operation :: behind, accepted => by
    rw [guardNestedOf, bind_ok_iff] at accepted
    obtain ⟨_, real, walked⟩ := accepted
    obtain ⟨nesting', first, later⟩ := bind_ok_iff.mp walked
    rw [validateNestingOf, bind_ok_iff]
    exact ⟨⟨⟩, operation.validateNesting_of_guard (require_ok_iff.mp real) first,
      validateNestingOf_of_guard behind later⟩

end

/-! ## The targets that enclose -/

mutual

/-- What encloses an operation is created before it. -/
theorem Operation.targets_enclosing {enclosing created : List String} (before : enclosing ⊆ created) :
    ∀ operation : Operation Payload, ∀ target ∈ operation.targets enclosing created,
      target.enclosing ⊆ target.created
  | .createProposal externalId _ proposedOps _ _ => by
    rw [Operation.targets]
    exact targetsOf_enclosing (List.cons_subset_cons externalId before) proposedOps
  | .updateProposal _ => by
    rw [Operation.targets]
    simpa using before
  | .deleteProposal _ _ _ => by
    rw [Operation.targets]
    simpa using before
  | .createEntity _ _ _ => by
    rw [Operation.targets]
    simp
  | .other _ => by
    rw [Operation.targets]
    simp

theorem targetsOf_enclosing {enclosing created : List String} (before : enclosing ⊆ created) :
    ∀ operations : List (Operation Payload), ∀ target ∈ targetsOf enclosing created operations,
      target.enclosing ⊆ target.created
  | [] => by
    rw [targetsOf]
    simp
  | operation :: behind => by
    rw [targetsOf, List.forall_mem_append]
    exact ⟨operation.targets_enclosing before,
      targetsOf_enclosing (List.subset_append_of_subset_right _ before) behind⟩

end

/-- The targets decide between the walk and the purpose of it. -/
theorem foreseen_targets {isVirtual : Payload → Bool} {operation : Operation Payload}
    (distinct : operation.createdIds.Nodup) (real : operation.nestsVirtual isVirtual = false)
    (meets : ∀ target ∈ operation.targets [] [], target.Encloses →
      target.IsLatest ∨ target.IsEarlier) :
    ((∀ target ∈ operation.targets [] [], ¬ target.IsEarlier) ↔
      ∀ target ∈ operation.targets [] [], ¬ target.Encloses) ↔ Foreseen isVirtual operation := by
  have accepted : (∀ target ∈ operation.targets [] [], ¬ target.IsEarlier) ↔
      ¬ (∃ target ∈ operation.targets [] [], target.Encloses ∧ target.IsEarlier) ∧
        ¬ ∃ target ∈ operation.targets [] [], ¬ target.Encloses ∧ target.IsEarlier := by
    constructor
    · intro latest
      exact ⟨fun ⟨target, among, _, earlier⟩ => latest target among earlier,
        fun ⟨target, among, _, earlier⟩ => latest target among earlier⟩
    · rintro ⟨inside, outside⟩ target among earlier
      by_cases encloses : target.Encloses
      · exact inside ⟨target, among, encloses, earlier⟩
      · exact outside ⟨target, among, encloses, earlier⟩
  have well : (∀ target ∈ operation.targets [] [], ¬ target.Encloses) ↔
      ¬ (∃ target ∈ operation.targets [] [], target.Encloses ∧ target.IsLatest) ∧
        ¬ ∃ target ∈ operation.targets [] [], target.Encloses ∧ target.IsEarlier := by
    constructor
    · intro outside
      exact ⟨fun ⟨target, among, encloses, _⟩ => outside target among encloses,
        fun ⟨target, among, encloses, _⟩ => outside target among encloses⟩
    · rintro ⟨latest, earlier⟩ target among encloses
      rcases meets target among encloses with isLatest | isEarlier
      · exact latest ⟨target, among, encloses, isLatest⟩
      · exact earlier ⟨target, among, encloses, isEarlier⟩
  have some_ : ¬ ¬ operation.createdIds.Nodup := not_not.mpr distinct
  have none : ¬ operation.nestsVirtual isVirtual = true := by simp [real]
  rw [accepted, well, Foreseen, or_iff_right some_, or_iff_right none]
  by_cases inside : ∃ target ∈ operation.targets [] [], target.Encloses ∧ target.IsEarlier
  · simp only [inside, not_true_eq_false, false_and, and_false, true_or]
  · simp only [inside, not_false_eq_true, true_and, and_true, false_or]
    exact not_iff_not.trans Iff.comm

/-- A proposal with nested operations is accepted exactly if it is well nested, just when the walk
tells nothing wrong of it. -/
theorem validateNesting_wellNested (isVirtual : Payload → Bool) (externalId creator : String)
    (proposedOps : List (Operation Payload)) (expirationTime : Nat)
    (reviewPeriodSeconds : Option Nat) :
    ((Operation.createProposal externalId creator proposedOps expirationTime
        reviewPeriodSeconds).validateNesting isVirtual = .ok ⟨⟩ ↔
      WellNested isVirtual (.createProposal externalId creator proposedOps expirationTime
        reviewPeriodSeconds)) ↔
      Foreseen isVirtual (.createProposal externalId creator proposedOps expirationTime
        reviewPeriodSeconds) := by
  let proposal : Operation Payload :=
    .createProposal externalId creator proposedOps expirationTime reviewPeriodSeconds
  change (proposal.validateNesting isVirtual = .ok ⟨⟩ ↔ WellNested isVirtual proposal) ↔
    Foreseen isVirtual proposal
  have accepts : proposal.validateNesting isVirtual = .ok ⟨⟩ ↔
      Passes [] proposal.createdIds (proposal.nestsVirtual isVirtual) (proposal.targets [] []) := by
    have walked (result : Nesting) := proposal.guardNested_ok_iff isVirtual [] [] result
    constructor
    · intro valid
      rw [Operation.validateNesting, bind_ok_iff] at valid
      obtain ⟨_, _, later⟩ := valid
      obtain ⟨result, accepted, _⟩ := bind_ok_iff.mp later
      exact ((walked result).mp accepted).1
    · intro passes
      exact proposal.validateNesting_of_guard rfl ((walked _).mpr ⟨passes, rfl⟩)
  have meets (target : Target) (among : target ∈ proposal.targets [] []) (encloses : target.Encloses) :
      target.IsLatest ∨ target.IsEarlier := by
    by_cases latest : target.IsLatest
    · exact .inl latest
    · exact .inr ⟨proposal.targets_enclosing (List.Subset.refl _) target among encloses, latest⟩
  rw [accepts, Foreseen]
  by_cases distinct : proposal.createdIds.Nodup
  · by_cases real : proposal.nestsVirtual isVirtual = false
    · have passes : Passes [] proposal.createdIds (proposal.nestsVirtual isVirtual)
          (proposal.targets [] []) ↔ ∀ target ∈ proposal.targets [] [], ¬ target.IsEarlier :=
        ⟨Passes.latest, fun latest => ⟨distinct, fun _ _ => List.not_mem_nil, real, latest⟩⟩
      have well : WellNested isVirtual proposal ↔
          ∀ target ∈ proposal.targets [] [], ¬ target.Encloses :=
        ⟨WellNested.outside, fun outside => ⟨distinct, real, outside⟩⟩
      rw [passes, well]
      exact foreseen_targets distinct real meets
    · refine iff_of_true (iff_of_false (fun passes => real passes.real) fun well => real well.real)
        (.inr (.inl ?_))
      rwa [Bool.not_eq_false] at real
  · exact iff_of_true
      (iff_of_false (fun passes => distinct passes.distinct) fun well => distinct well.distinct)
      (.inl distinct)

/-- Operations on proposals. -/
abbrev Sample.create (id : String) (proposedOps : List (Operation Empty)) : Operation Empty :=
  .createProposal id "creator" proposedOps 0 none

abbrev Sample.delete (id : String) : Operation Empty := .deleteProposal id "creator" 1

/-- A proposal that deletes itself is accepted, and one that creates two others and deletes the
first of them is not. -/
theorem validateNesting_wellNested_fails :
    ¬ ((Sample.create "outer" [Sample.delete "outer"]).validateNesting (fun _ => false) = .ok ⟨⟩ ↔
        WellNested (fun _ => false) (Sample.create "outer" [Sample.delete "outer"])) ∧
      ¬ ((Sample.create "outer" [Sample.create "first" [Sample.delete "other"],
            Sample.create "second" [Sample.delete "other"], Sample.delete "first"]).validateNesting
            (fun _ => false) = .ok ⟨⟩ ↔
        WellNested (fun _ => false) (Sample.create "outer" [Sample.create "first"
          [Sample.delete "other"], Sample.create "second" [Sample.delete "other"],
          Sample.delete "first"])) := by
  refine ⟨fun same => ?_, fun same => ?_⟩
  · have well := same.mp rfl
    exact well.outside ⟨"outer", ["outer"], ["outer"]⟩ (by decide) (by decide)
  · have valid := same.mpr ⟨by decide, rfl, by decide⟩
    exact absurd valid (by decide)

end DeipChain.Proposals
